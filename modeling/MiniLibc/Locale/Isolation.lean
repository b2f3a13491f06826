import MiniLibc.Lib.Runs
import MiniLibc.Locale.Objects
/-!
# Isolation of locales

The objects, the process locale and the locale of each thread are three stores of
copies. `newlocale_spec` to `setlocale_spec` say what each call does to them; over a
run, the locale of a thread is the copy it took when it last installed an object.
-/
open MiniLibc.Runs

namespace MiniLibc.Locale

/-- A control block but for `errno`. -/
def Tcb.installed (tcb : Tcb) : State × Handle × Bool := (tcb.localeState, tcb.localeHandle, tcb.localeOverrideActive)

/-- The locale that a running thread works with. -/
def World.effective (w : World) (t : Nat) : Option State := (w.threads t).map (currentState w.globals)

/-- What the object at an address holds. -/
def stateAt (objects : List Object) : Handle → Option State
  | .pointer address => (objects.find? fun object => object.address = address).map Object.state
  | _ => none

/-- What a thread took from an object at its last successful `uselocale`, unless it
went back to the process locale or started later. The newest event comes first, each
with the state before it. -/
def lastInstalled (t : Nat) : List (World × Event) → Option State
  | [] => none
  | (_, .start t') :: older => if t' = t then none else lastInstalled t older
  | (w, .call t' _ _ (.uselocale newloc)) :: older =>
    if t' ≠ t then lastInstalled t older
    else if newloc = .global then none
    else (stateAt w.globals.objects newloc).or (lastInstalled t older)
  | _ :: older => lastInstalled t older

/-- A run and its events. -/
def Init (s : World × List (World × Event)) : Prop := s = (initial, [])

def Step (s s' : World × List (World × Event)) : Prop :=
  ∃ e r, step s.1 e = some (r, s'.1) ∧ s'.2 = (s.1, e) :: s.2

/-! ## The calls -/

theorem createObjectFromState_spec (memory : Option Nat) (state : State) (g : Globals) (tcb : Tcb) :
    ((createObjectFromState memory state g tcb).1 = .null → (createObjectFromState memory state g tcb).2.1 = g) ∧
      (createObjectFromState memory state g tcb).2.1.process = g.process ∧
      (createObjectFromState memory state g tcb).2.2.installed = tcb.installed := by
  cases memory with
  | none => exact ⟨fun _ => rfl, rfl, rfl⟩
  | some address => exact ⟨by rintro ⟨⟩, rfl, rfl⟩

/-- What a call on the registry leaves: nothing changed if it failed, and in any case
the process locale and the locale of the calling thread. -/
structure Edits (g : Globals) (tcb : Tcb) (p : Handle × Globals × Tcb) : Prop where
  failed : p.1 = .null → p.2.1 = g
  process : p.2.1.process = g.process
  installed : p.2.2.installed = tcb.installed

theorem Edits.refused (g : Globals) (tcb : Tcb) (errno : Nat) : Edits g tcb (.null, g, { tcb with errno }) :=
  ⟨fun _ => rfl, rfl, rfl⟩

/-- A new object, with `errno` put back. -/
theorem edits_created (memory : Option Nat) (state : State) (g : Globals) (tcb : Tcb) (errno : Nat) :
    Edits g tcb
      (if (createObjectFromState memory state g tcb).1 = .null then
        (.null, (createObjectFromState memory state g tcb).2.1, (createObjectFromState memory state g tcb).2.2)
      else ((createObjectFromState memory state g tcb).1, (createObjectFromState memory state g tcb).2.1,
        { (createObjectFromState memory state g tcb).2.2 with errno })) := by
  obtain ⟨h1, h2, h3⟩ := createObjectFromState_spec memory state g tcb
  split
  · rename_i h
    exact ⟨fun _ => h1 h, h2, h3⟩
  · rename_i h
    exact ⟨fun h' => absurd h' h, h2, h3⟩

theorem newlocale_spec (env : Environment) (memory : Option Nat) (categoryMask : BitVec 32) (locale : Option Text)
    (base : Handle) (g : Globals) (tcb : Tcb) :
    Edits g tcb (newlocale env memory categoryMask locale base g tcb) := by
  unfold newlocale
  cases locale with
  | none => exact Edits.refused g tcb EINVAL
  | some locale =>
    dsimp only
    split
    · exact Edits.refused g tcb EINVAL
    cases (if base = .null then some stateInit else objectCopyState g.objects base) with
    | none => exact Edits.refused g tcb EINVAL
    | some candidate =>
      dsimp only
      split
      · exact Edits.refused g tcb ENOENT
      split
      · exact edits_created memory _ g tcb tcb.errno
      · rename_i hbase
        cases replaceRegisteredState g.objects base
            (applyCategoryMask env categoryMask locale candidate [0, 1, 2, 3, 4]).1 with
        | none => exact Edits.refused g tcb EINVAL
        | some objects => exact ⟨fun h => absurd h hbase, rfl, rfl⟩

theorem duplocale_spec (memory : Option Nat) (locobj : Handle) (g : Globals) (tcb : Tcb) :
    Edits g tcb (duplocale memory locobj g tcb) := by
  unfold duplocale
  cases (if locobj = .global then some g.process else objectCopyState g.objects locobj) with
  | none => exact Edits.refused g tcb EINVAL
  | some snapshot => exact edits_created memory snapshot g tcb tcb.errno

theorem freelocale_spec (locobj : Handle) (g : Globals) : (freelocale locobj g).process = g.process := by
  unfold freelocale
  split
  · rfl
  · rfl

/-- A failed `setlocale` leaves the process locale as it was. -/
theorem setlocale_spec (env : Environment) (category : Int) (locale : Option Text) (g : Globals) :
    (setlocale env category locale g).1 = none → (setlocale env category locale g).2 = g := by
  unfold setlocale
  split
  · exact fun _ => rfl
  cases locale with
  | none => exact fun _ => rfl
  | some locale =>
    dsimp only
    split
    · rename_i hf
      intro _
      rw [stateApplyName_failed (by simpa using hf)]
    · rename_i hs
      intro h
      exact absurd h (stateQuery_applied (by simpa using hs))

/-- The registry finds an object by its address. -/
theorem objectCopyState_eq (objects : List Object) (handle : Handle) :
    objectCopyState objects handle = stateAt objects handle := by
  cases handle with
  | null => rfl
  | global => rfl
  | pointer a =>
    have hloop : copyLoop (.pointer a) objects =
        (objects.find? fun object => object.address = a).map Object.state := by
      induction objects with
      | nil => rfl
      | cons object objects ih =>
        rw [copyLoop, List.find?_cons]
        by_cases h : object.address = a
        · simp [h]
        · simp [h, ih]
    have hne : ¬(Handle.pointer a = .null ∨ Handle.pointer a = .global) := by simp
    exact (if_neg hne).trans hloop

/-- `uselocale` asks, goes back to the process locale, fails, or takes a copy. -/
theorem uselocale_cases (newloc : Handle) (g : Globals) (tcb : Tcb) :
    (newloc = .null ∧ uselocale newloc g tcb = (threadCurrentHandle tcb, tcb)) ∨
      (newloc = .global ∧ uselocale newloc g tcb = (threadCurrentHandle tcb, threadUseGlobal tcb)) ∨
      (newloc ≠ .global ∧ stateAt g.objects newloc = none ∧
        uselocale newloc g tcb = (.null, { tcb with errno := EINVAL })) ∨
      ∃ a state, newloc = .pointer a ∧ stateAt g.objects newloc = some state ∧
        uselocale newloc g tcb = (threadCurrentHandle tcb,
          { tcb with localeState := state, localeHandle := newloc, localeOverrideActive := true }) := by
  cases newloc with
  | null => exact .inl ⟨rfl, rfl⟩
  | global => exact .inr (.inl ⟨rfl, rfl⟩)
  | pointer a =>
    refine .inr (.inr ?_)
    unfold uselocale
    rw [if_neg (by rintro ⟨⟩), if_neg (by rintro ⟨⟩), objectCopyState_eq]
    cases stateAt g.objects (.pointer a) with
    | none => exact .inl ⟨by rintro ⟨⟩, rfl, rfl⟩
    | some state => exact .inr ⟨a, state, rfl, rfl, rfl⟩

/-! ## The invariant -/

/-- A control block holds the copy `o`, or none. -/
structure Holds (tcb : Tcb) (o : Option State) : Prop where
  active : tcb.localeOverrideActive = true → (∃ a, tcb.localeHandle = .pointer a) ∧ o = some tcb.localeState
  inactive : tcb.localeOverrideActive = false → o = none

theorem Holds.congr {tcb tcb' : Tcb} {o : Option State} (h : Holds tcb o) (he : tcb'.installed = tcb.installed) :
    Holds tcb' o := by
  simp only [Tcb.installed, Prod.mk.injEq] at he
  exact ⟨by rw [he.1, he.2.1, he.2.2]; exact h.active, by rw [he.2.2]; exact h.inactive⟩

theorem Holds.effective {tcb : Tcb} {o : Option State} (h : Holds tcb o) (g : Globals) :
    currentState g tcb = o.getD g.process := by
  unfold currentState
  cases ha : tcb.localeOverrideActive with
  | true => rw [(h.active ha).2]; rfl
  | false => rw [h.inactive ha]; rfl

/-- The handle of a block is never null. -/
theorem Holds.handle {tcb : Tcb} {o : Option State} (h : Holds tcb o) : threadCurrentHandle tcb ≠ .null := by
  unfold threadCurrentHandle
  cases ha : tcb.localeOverrideActive with
  | true =>
    obtain ⟨a, hp⟩ := (h.active ha).1
    rw [if_pos rfl, hp]
    rintro ⟨⟩
  | false =>
    rw [if_neg (by simp)]
    rintro ⟨⟩

/-- Every thread holds what it last installed. -/
def Inv (s : World × List (World × Event)) : Prop :=
  ∀ t tcb, s.1.threads t = some tcb → Holds tcb (lastInstalled t s.2)

theorem inv_init {s : World × List (World × Event)} (h : Init s) : Inv s := by
  subst h
  intro t tcb ht
  simp only [initial] at ht
  split at ht
  · cases ht
    exact ⟨by rintro ⟨⟩, fun _ => rfl⟩
  · cases ht

/-- What a call leaves in the control block of its thread. -/
theorem call_holds {g : Globals} {tcb : Tcb} {older : List (World × Event)} {w : World} {t : Nat} (hw : w.globals = g)
    (env : Environment) (memory : Option Nat) (c : Call) (h : Holds tcb (lastInstalled t older)) :
    Holds (call env memory g tcb c).2.2 (lastInstalled t ((w, .call t env memory c) :: older)) := by
  cases c with
  | newlocale categoryMask locale base =>
    exact h.congr (newlocale_spec env memory categoryMask locale base g tcb).installed
  | duplocale locobj => exact h.congr (duplocale_spec memory locobj g tcb).installed
  | freelocale locobj => exact h
  | setlocale category locale => exact h
  | uselocale newloc =>
    rw [lastInstalled, if_neg (not_not.2 rfl), hw]
    rcases uselocale_cases newloc g tcb with ⟨rfl, hu⟩ | ⟨rfl, hu⟩ | ⟨hne, hnone, hu⟩ | ⟨a, state, rfl, hsome, hu⟩
    · simp only [call, hu]
      exact h
    · simp only [call, hu]
      exact ⟨by rintro ⟨⟩, fun _ => rfl⟩
    · simp only [call, hu]
      rw [if_neg hne, hnone, Option.none_or]
      exact h.congr rfl
    · simp only [call, hu]
      rw [if_neg (by rintro ⟨⟩), hsome, Option.some_or]
      exact ⟨fun _ => ⟨⟨a, rfl⟩, rfl⟩, by rintro ⟨⟩⟩

/-- Another thread's event says nothing about what a thread installed. -/
theorem lastInstalled_other {t : Nat} {w : World} {older : List (World × Event)} {e : Event}
    (h : ∀ t', e = .start t' ∨ (∃ env memory c, e = .call t' env memory c) → t' ≠ t) :
    lastInstalled t ((w, e) :: older) = lastInstalled t older := by
  cases e with
  | start t' => rw [lastInstalled, if_neg (h t' (.inl rfl))]
  | exit t' => rfl
  | call t' env memory c =>
    have hne := h t' (.inr ⟨env, memory, c, rfl⟩)
    cases c with
    | uselocale newloc => rw [lastInstalled, if_pos hne]
    | newlocale categoryMask locale base => rfl
    | duplocale locobj => rfl
    | freelocale locobj => rfl
    | setlocale category locale => rfl

/-- A call in a running thread, with what it did. -/
theorem step_call {w w' : World} {t : Nat} {env : Environment} {memory : Option Nat} {c : Call} {r : Result}
    (h : step w (.call t env memory c) = some (r, w')) :
    ∃ tcb, w.threads t = some tcb ∧ r = (call env memory w.globals tcb c).1 ∧
      w' = ⟨(call env memory w.globals tcb c).2.1,
        Function.update w.threads t (some (call env memory w.globals tcb c).2.2)⟩ := by
  obtain ⟨tcb, ht, hr⟩ := Option.map_eq_some_iff.1 h
  rw [Prod.mk.injEq] at hr
  exact ⟨tcb, ht, hr.1.symm, hr.2.symm⟩

theorem inv_step {s s' : World × List (World × Event)} (hi : Inv s) (h : Step s s') : Inv s' := by
  obtain ⟨w, older⟩ := s
  obtain ⟨w', history⟩ := s'
  obtain ⟨e, r, hs, hh⟩ := h
  simp only at hs hh
  subst hh
  intro t tcb ht
  simp only at ht ⊢
  cases e with
  | start t' =>
    simp only [step] at hs
    split at hs
    · cases hs
      dsimp only at ht
      by_cases he : t' = t
      · subst he
        rw [Function.update_self] at ht
        cases ht
        rw [lastInstalled, if_pos rfl]
        exact ⟨by rintro ⟨⟩, fun _ => rfl⟩
      · rw [Function.update_of_ne (Ne.symm he)] at ht
        rw [lastInstalled, if_neg he]
        exact hi t tcb ht
    · cases hs
  | exit t' =>
    simp only [step] at hs
    split at hs
    · cases hs
    · cases hs
      dsimp only at ht
      by_cases he : t' = t
      · subst he
        rw [Function.update_self] at ht
        cases ht
      · rw [Function.update_of_ne (Ne.symm he)] at ht
        exact hi t tcb ht
  | call t' env memory c =>
    obtain ⟨tcb', ht', -, rfl⟩ := step_call hs
    dsimp only at ht
    by_cases he : t' = t
    · subst he
      rw [Function.update_self] at ht
      cases ht
      exact call_holds rfl env memory c (hi t' tcb' ht')
    · rw [Function.update_of_ne (Ne.symm he)] at ht
      rw [lastInstalled_other]
      · exact hi t tcb ht
      · rintro t'' (h | ⟨env', memory', c', h⟩)
        · cases h
        · cases h
          exact he

/-! ## Isolation -/

/-- A call that returned null. -/
def Failed (r : Result) : Prop := r = .handle .null ∨ r = .name none

/-- The calls that make, modify and free objects. -/
def EditsObjects (c : Call) : Prop :=
  (∃ categoryMask locale base, c = .newlocale categoryMask locale base) ∨ (∃ locobj, c = .duplocale locobj) ∨
    ∃ locobj, c = .freelocale locobj

/-- A failed call changes neither the objects and the process locale nor what its
thread installed. -/
theorem call_failed {g : Globals} {tcb : Tcb} {o : Option State} (h : Holds tcb o) (env : Environment)
    (memory : Option Nat) (c : Call) (hf : Failed (call env memory g tcb c).1) :
    (call env memory g tcb c).2.1 = g ∧ (call env memory g tcb c).2.2.installed = tcb.installed := by
  cases c with
  | newlocale categoryMask locale base =>
    have he := newlocale_spec env memory categoryMask locale base g tcb
    exact ⟨he.failed (by simpa [call, Failed] using hf), he.installed⟩
  | duplocale locobj =>
    have he := duplocale_spec memory locobj g tcb
    exact ⟨he.failed (by simpa [call, Failed] using hf), he.installed⟩
  | freelocale locobj => simp [call, Failed] at hf
  | setlocale category locale => exact ⟨setlocale_spec env category locale g (by simpa [call, Failed] using hf), rfl⟩
  | uselocale newloc =>
    refine ⟨rfl, ?_⟩
    rcases uselocale_cases newloc g tcb with ⟨-, hu⟩ | ⟨-, hu⟩ | ⟨-, -, hu⟩ | ⟨a, state, -, -, hu⟩
    · simp only [call, hu]
    · simp only [call, hu, Failed, Result.handle.injEq, reduceCtorEq, or_false] at hf
      exact absurd hf h.handle
    · simp only [call, hu]
      rfl
    · simp only [call, hu, Failed, Result.handle.injEq, reduceCtorEq, or_false] at hf
      exact absurd hf h.handle

/-- A call on objects leaves the process locale and what its thread installed. -/
theorem call_edits (g : Globals) (tcb : Tcb) (env : Environment) (memory : Option Nat) {c : Call}
    (hc : EditsObjects c) :
    (call env memory g tcb c).2.1.process = g.process ∧ (call env memory g tcb c).2.2.installed = tcb.installed := by
  rcases hc with ⟨categoryMask, locale, base, rfl⟩ | ⟨locobj, rfl⟩ | ⟨locobj, rfl⟩
  · have he := newlocale_spec env memory categoryMask locale base g tcb
    exact ⟨he.process, he.installed⟩
  · have he := duplocale_spec memory locobj g tcb
    exact ⟨he.process, he.installed⟩
  · exact ⟨freelocale_spec locobj g, rfl⟩

theorem installed_currentState {g g' : Globals} {tcb tcb' : Tcb} (hp : g'.process = g.process)
    (h : tcb'.installed = tcb.installed) : currentState g' tcb' = currentState g tcb := by
  simp only [Tcb.installed, Prod.mk.injEq] at h
  unfold currentState
  rw [h.1, h.2.2, hp]

theorem update_installed {threads : Nat → Option Tcb} {t : Nat} {tcb tcb' : Tcb} (ht : threads t = some tcb)
    (h : tcb'.installed = tcb.installed) (t' : Nat) :
    (Function.update threads t (some tcb') t').map Tcb.installed = (threads t').map Tcb.installed := by
  by_cases he : t' = t
  · subst he
    rw [Function.update_self, ht, Option.map_some, Option.map_some, h]
  · rw [Function.update_of_ne he]

/-- Over every run: a thread works with the copy of the object it last installed, or
with the process locale. A call that fails changes no object, no thread's locale and
not the process locale, and a call on objects changes no thread's effective locale. -/
theorem locale_isolation {w : World} {history : List (World × Event)} (h : Reachable Init Step (w, history)) :
    (∀ t tcb, w.threads t = some tcb →
      w.effective t = some ((lastInstalled t history).getD w.globals.process)) ∧
    ∀ t env memory c r w', step w (.call t env memory c) = some (r, w') →
      (Failed r → w'.globals = w.globals ∧
        ∀ t', (w'.threads t').map Tcb.installed = (w.threads t').map Tcb.installed) ∧
      (EditsObjects c → ∀ t', w'.effective t' = w.effective t') := by
  have hinv : Inv (w, history) := h.invariant (fun _ hs => inv_init hs) (fun _ _ hi hs => inv_step hi hs)
  refine ⟨fun t tcb ht => ?_, fun t env memory c r w' hs => ?_⟩
  · rw [World.effective, ht, Option.map_some, (hinv t tcb ht).effective]
  · obtain ⟨tcb, ht, rfl, rfl⟩ := step_call hs
    refine ⟨fun hf => ?_, fun hc t' => ?_⟩
    · obtain ⟨hg, hin⟩ := call_failed (hinv t tcb ht) env memory c hf
      exact ⟨hg, update_installed ht hin⟩
    · obtain ⟨hp, hin⟩ := call_edits w.globals tcb env memory hc
      unfold World.effective
      dsimp only
      by_cases he : t' = t
      · subst he
        rw [Function.update_self, ht, Option.map_some, Option.map_some, installed_currentState hp hin]
      · rw [Function.update_of_ne he]
        cases w.threads t' with
        | none => rfl
        | some tcb' => rw [Option.map_some, Option.map_some, installed_currentState hp rfl]

/-- The main thread makes an object, installs it and frees it. -/
def freedEvents : List Event :=
  [.call 0 (fun _ => none) (some 64) (.newlocale 1 (some localeUtf8) .null),
    .call 0 (fun _ => none) none (.uselocale (.pointer 64)),
    .call 0 (fun _ => none) none (.freelocale (.pointer 64))]

/-- The world after some events, and their history. -/
def runEvents (s : World × List (World × Event)) : List Event → Option (World × List (World × Event))
  | [] => some s
  | e :: es => (step s.1 e).bind fun p => runEvents (p.2, (s.1, e) :: s.2) es

theorem reachable_events {es : List Event} {s s' : World × List (World × Event)} (h : Reachable Init Step s)
    (hr : runEvents s es = some s') : Reachable Init Step s' := by
  induction es generalizing s with
  | nil => cases hr; exact h
  | cons e es ih =>
    obtain ⟨p, hp, hr⟩ := Option.bind_eq_some_iff.1 hr
    exact ih (h.next ⟨e, p.1, hp, rfl⟩) hr

theorem locale_isolation_freed : ∃ s, runEvents (initial, []) freedEvents = some s ∧ s.1.globals.objects = [] ∧
    s.1.effective 0 = some #v[.utf8, .c, .c, .c, .c] := by
  obtain ⟨s, hs⟩ : ∃ s, runEvents (initial, []) freedEvents = some s := ⟨_, rfl⟩
  have hreach : Reachable Init Step s := reachable_events (.start rfl) hs
  cases hs
  exact ⟨_, rfl, rfl, ((locale_isolation hreach).1 0 _ rfl).trans rfl⟩

end MiniLibc.Locale
