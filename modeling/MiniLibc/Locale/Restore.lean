import Mathlib
import MiniLibc.Locale.Isolation
/-!
# Saving and restoring the process locale

A program asks `setlocale` for the name of a category, works in other locales, and sets
the name again. Only `LC_CTYPE` has a second mode, whatever a process does, so the state
that a name stands for is the one that it was taken from.
-/

namespace MiniLibc.Locale

open Runs

/-- `C`, or `C.UTF-8` for characters. -/
def Nameable (state : State) : Prop := state = stateInit ∨ state = setMode stateInit lcCtype .utf8

instance (state : State) : Decidable (Nameable state) := inferInstanceAs (Decidable (_ ∨ _))

/-! ## A name -/

theorem validCategory_cases {category : Int} (h : validCategory category = true) :
    category = lcCtype ∨ category = lcNumeric ∨ category = lcTime ∨ category = lcCollate ∨ category = lcMonetary ∨
      category = lcAll := by
  unfold validCategory at h
  simpa [or_assoc] using h

theorem stateCategory_cases {category : Int} (h : stateCategory category = true) :
    category = lcCtype ∨ category = lcNumeric ∨ category = lcTime ∨ category = lcCollate ∨ category = lcMonetary := by
  have hbounds : lcCtype ≤ category ∧ category ≤ lcMonetary := of_decide_eq_true h
  unfold lcCtype lcMonetary at hbounds
  unfold lcCtype lcNumeric lcTime lcCollate lcMonetary
  omega

theorem setMode_named {state : State} (h : Nameable state) {category : Int} (hc : stateCategory category = true) :
    Nameable (setMode state category .c) := by
  rcases h with rfl | rfl <;> rcases stateCategory_cases hc with rfl | rfl | rfl | rfl | rfl <;> decide

theorem setMode_ctype {state : State} (h : Nameable state) : Nameable (setMode state lcCtype .utf8) := by
  rcases h with rfl | rfl <;> decide

theorem stateApply_named {state : State} (h : Nameable state) (category : Int) (locale : Text) :
    Nameable (stateApply state category locale).1 := by
  unfold stateApply
  split
  · exact h
  · have hcandidate : Nameable (if category = lcAll then applyLcAllUnchecked state locale
        else applyCategoryUnchecked state category locale).1 := by
      split
      · unfold applyLcAllUnchecked
        split_ifs
        · exact .inl rfl
        · exact setMode_ctype (.inl rfl)
        · exact h
      · unfold applyCategoryUnchecked
        split_ifs with hno hname hctype
        · exact h
        · exact setMode_named h (by simpa using hno)
        · rw [hctype.1]
          exact setMode_ctype h
        · exact h
    obtain ⟨p, hp⟩ : ∃ p, (if category = lcAll then applyLcAllUnchecked state locale
      else applyCategoryUnchecked state category locale) = p := ⟨_, rfl⟩
    rw [hp] at hcandidate
    simp only [hp]
    split
    · exact h
    · exact hcandidate

theorem stateApplyName_named {state : State} (h : Nameable state) (env : Environment) (category : Int)
    (locale : Text) : Nameable (stateApplyName env state category locale).1 := by
  unfold stateApplyName
  split
  · exact h
  · exact stateApply_named h _ _

/-- The categories of `other` that a call for `category` may change, taken from `state`. -/
def restored (state other : State) (category : Int) : State :=
  if category = lcAll then state
  else other.setIfInBounds category.toNat (state[category.toNat]?.getD .c)

/-- A name set again. -/
theorem stateQuery_restores {state other : State} (h : Nameable state) (ho : Nameable other) {category : Int}
    (hv : validCategory category = true) :
    ∃ name, stateQuery state category = some name ∧ name ≠ [] ∧
      stateApply other category name = (restored state other category, true) ∧
      stateQuery (restored state other category) category = some name := by
  rcases h with rfl | rfl <;> rcases ho with rfl | rfl <;>
    rcases validCategory_cases hv with rfl | rfl | rfl | rfl | rfl | rfl <;>
    exact ⟨_, rfl, by decide, by decide, by decide⟩

theorem setlocale_restores {g g' : Globals} (h : Nameable g.process) (h' : Nameable g'.process) {category : Int}
    (hv : validCategory category = true) (env env' : Environment) :
    ∃ name, setlocale env category none g = (some name, g) ∧
      setlocale env' category (some name) g' =
        (some name, { g' with process := restored g.process g'.process category }) := by
  obtain ⟨name, hquery, hname, happly, hagain⟩ := stateQuery_restores h h' hv
  have hset : stateApplyName env' g'.process category name = (restored g.process g'.process category, true) := by
    unfold stateApplyName
    rw [hv, if_neg (by decide), if_neg hname]
    exact happly
  refine ⟨name, ?_, ?_⟩
  · simp [setlocale, hv, hquery]
  · simp [setlocale, hv, hset, hagain]

/-! ## The calls -/

theorem applyCategoryMask_named {state : State} (h : Nameable state) (env : Environment) (categoryMask : BitVec 32)
    (locale : Text) (categories : List Nat) :
    Nameable (applyCategoryMask env categoryMask locale state categories).1 := by
  induction categories generalizing state with
  | nil => exact h
  | cons category rest ih =>
    unfold applyCategoryMask
    have happly := stateApplyName_named h env category locale
    obtain ⟨⟨next, applied⟩, hp⟩ : ∃ p, stateApplyName env state category locale = p := ⟨_, rfl⟩
    rw [hp] at happly
    simp only [hp]
    split
    · split
      · exact happly
      · exact ih happly
    · exact ih h

theorem copyLoop_mem {objects : List Object} {handle : Handle} {state : State} (h : copyLoop handle objects = some state) :
    ∃ o ∈ objects, o.state = state := by
  induction objects with
  | nil => cases h
  | cons cursor next ih =>
    unfold copyLoop at h
    split at h
    · exact ⟨cursor, List.mem_cons_self, Option.some.inj h⟩
    · obtain ⟨o, ho, hs⟩ := ih h
      exact ⟨o, List.mem_cons_of_mem _ ho, hs⟩

theorem replaceLoop_mem {objects objects' : List Object} {handle : Handle} {state : State}
    (h : replaceLoop handle state objects = some objects') : ∀ o ∈ objects', o ∈ objects ∨ o.state = state := by
  induction objects generalizing objects' with
  | nil => cases h
  | cons cursor next ih =>
    unfold replaceLoop at h
    split at h
    · cases h
      intro o ho
      rcases List.mem_cons.1 ho with rfl | ho
      · exact .inr rfl
      · exact .inl (List.mem_cons_of_mem _ ho)
    · obtain ⟨rest, hrest, rfl⟩ := Option.map_eq_some_iff.1 h
      intro o ho
      rcases List.mem_cons.1 ho with rfl | ho
      · exact .inl List.mem_cons_self
      · rcases ih hrest o ho with hmem | hs
        · exact .inl (List.mem_cons_of_mem _ hmem)
        · exact .inr hs

theorem unlinkLoop_subset (handle : Handle) (objects : List Object) : unlinkLoop handle objects ⊆ objects := by
  induction objects with
  | nil => exact fun _ h => h
  | cons object next ih =>
    unfold unlinkLoop
    split
    · exact List.subset_cons_self _ _
    · exact List.cons_subset_cons _ ih

/-- What a call needs and keeps, for one thread. -/
structure Named (g : Globals) (tcb : Tcb) : Prop where
  process : Nameable g.process
  objects : ∀ o ∈ g.objects, Nameable o.state
  installed : Nameable tcb.localeState

namespace Named

variable {g : Globals} {tcb : Tcb}

theorem withErrno (h : Named g tcb) (errno : Nat) : Named g { tcb with errno } :=
  ⟨h.process, h.objects, h.installed⟩

theorem copied (h : Named g tcb) {handle : Handle} {state : State} (hs : objectCopyState g.objects handle = some state) :
    Nameable state := by
  unfold objectCopyState at hs
  split at hs
  · cases hs
  · obtain ⟨o, ho, rfl⟩ := copyLoop_mem hs
    exact h.objects o ho

theorem create (h : Named g tcb) (memory : Option Nat) {state : State} (hs : Nameable state) :
    Named (createObjectFromState memory state g tcb).2.1 (createObjectFromState memory state g tcb).2.2 := by
  unfold createObjectFromState
  cases memory with
  | none => exact h.withErrno _
  | some address =>
    refine ⟨h.process, fun o ho => ?_, h.installed⟩
    rcases List.mem_cons.1 ho with rfl | ho
    · exact hs
    · exact h.objects o ho

/-- The same of what a call returns. -/
def After (p : Handle × Globals × Tcb) : Prop := Named p.2.1 p.2.2

theorem refused (h : Named g tcb) (errno : Nat) : After (.null, g, { tcb with errno }) := h.withErrno errno

/-- A new object, with `errno` put back. -/
theorem created (h : Named g tcb) (memory : Option Nat) {state : State} (hs : Nameable state) (errno : Nat) :
    After
      (if (createObjectFromState memory state g tcb).1 = .null then
        (.null, (createObjectFromState memory state g tcb).2.1, (createObjectFromState memory state g tcb).2.2)
      else ((createObjectFromState memory state g tcb).1, (createObjectFromState memory state g tcb).2.1,
        { (createObjectFromState memory state g tcb).2.2 with errno })) := by
  have hcreate := h.create memory hs
  split
  · exact hcreate
  · exact hcreate.withErrno _

theorem newlocale (h : Named g tcb) (env : Environment) (memory : Option Nat) (categoryMask : BitVec 32)
    (locale : Option Text) (base : Handle) : After (newlocale env memory categoryMask locale base g tcb) := by
  unfold Locale.newlocale
  cases locale with
  | none => exact h.refused EINVAL
  | some locale =>
    dsimp only
    split
    · exact h.refused EINVAL
    have hbase : ∀ candidate, (if base = .null then some stateInit else objectCopyState g.objects base) = some candidate →
        Nameable candidate := by
      intro candidate hc
      split at hc
      · cases hc
        exact .inl rfl
      · exact h.copied hc
    cases hc : (if base = .null then some stateInit else objectCopyState g.objects base) with
    | none => exact h.refused EINVAL
    | some candidate =>
      have hcandidate := applyCategoryMask_named (hbase candidate hc) env categoryMask locale [0, 1, 2, 3, 4]
      dsimp only
      split
      · exact h.refused ENOENT
      split
      · exact h.created memory hcandidate tcb.errno
      · cases hr : replaceRegisteredState g.objects base
            (applyCategoryMask env categoryMask locale candidate [0, 1, 2, 3, 4]).1 with
        | none => exact h.refused EINVAL
        | some objects =>
          unfold replaceRegisteredState at hr
          split at hr
          · cases hr
          · refine ⟨h.process, fun o ho => ?_, h.installed⟩
            rcases replaceLoop_mem hr o ho with hmem | hs
            · exact h.objects o hmem
            · rw [hs]
              exact hcandidate

theorem duplocale (h : Named g tcb) (memory : Option Nat) (locobj : Handle) :
    After (duplocale memory locobj g tcb) := by
  unfold Locale.duplocale
  cases hs : (if locobj = .global then some g.process else objectCopyState g.objects locobj) with
  | none => exact h.refused EINVAL
  | some snapshot =>
    refine h.created memory ?_ tcb.errno
    split at hs
    · cases hs
      exact h.process
    · exact h.copied hs

theorem freelocale (h : Named g tcb) (locobj : Handle) : Named (freelocale locobj g) tcb := by
  unfold Locale.freelocale
  split
  · exact h
  · exact ⟨h.process, fun o ho => h.objects o (unlinkLoop_subset _ _ ho), h.installed⟩

theorem uselocale (h : Named g tcb) (newloc : Handle) : Named g (uselocale newloc g tcb).2 := by
  unfold Locale.uselocale
  dsimp only
  split_ifs
  · exact h
  · exact ⟨h.process, h.objects, h.installed⟩
  · cases hc : (objectCopyState g.objects newloc).bind (threadInstall tcb newloc) with
    | none => exact h.withErrno EINVAL
    | some tcb' =>
      obtain ⟨state, hcopy, hinstall⟩ := Option.bind_eq_some_iff.1 hc
      unfold threadInstall at hinstall
      split at hinstall
      · cases hinstall
      · cases hinstall
        exact ⟨h.process, h.objects, h.copied hcopy⟩

theorem setlocale (h : Named g tcb) (env : Environment) (category : Int) (locale : Option Text) :
    Named (setlocale env category locale g).2 tcb := by
  unfold Locale.setlocale
  split
  · exact h
  cases locale with
  | none => exact h
  | some locale =>
    have hprocess := stateApplyName_named h.process env category locale
    dsimp only
    split
    · exact ⟨hprocess, h.objects, h.installed⟩
    · exact ⟨hprocess, h.objects, h.installed⟩

theorem call (h : Named g tcb) (env : Environment) (memory : Option Nat) (c : Call) :
    Named (call env memory g tcb c).2.1 (call env memory g tcb c).2.2 := by
  cases c with
  | newlocale categoryMask locale base => exact h.newlocale env memory categoryMask locale base
  | duplocale locobj => exact h.duplocale memory locobj
  | freelocale locobj => exact h.freelocale locobj
  | uselocale newloc => exact h.uselocale newloc
  | setlocale category locale => exact h.setlocale env category locale

end Named

/-! ## A process -/

/-- Every state of a process has a name. -/
def AllNamed (s : World × List (World × Event)) : Prop :=
  Nameable s.1.globals.process ∧ (∀ o ∈ s.1.globals.objects, Nameable o.state) ∧
    ∀ t tcb, s.1.threads t = some tcb → Nameable tcb.localeState

theorem allNamed_init {s : World × List (World × Event)} (h : Init s) : AllNamed s := by
  subst h
  refine ⟨.inl rfl, by simp [initial], fun t tcb ht => ?_⟩
  simp only [initial] at ht
  split at ht
  · cases ht
    exact .inl rfl
  · cases ht

theorem allNamed_step {s s' : World × List (World × Event)} (hi : AllNamed s) (h : Step s s') : AllNamed s' := by
  obtain ⟨w, older⟩ := s
  obtain ⟨w', history⟩ := s'
  obtain ⟨hprocess, hobjects, hthreads⟩ := hi
  obtain ⟨e, r, hs, -⟩ := h
  dsimp only at hs hprocess hobjects hthreads
  -- One control block changes; the others are those from before.
  have hother {t : Nat} {o : Option Tcb} (ho : ∀ tcb, o = some tcb → Nameable tcb.localeState) :
      ∀ t' tcb, Function.update w.threads t o t' = some tcb → Nameable tcb.localeState := by
    intro t' tcb ht
    by_cases he : t' = t
    · subst he
      rw [Function.update_self] at ht
      exact ho tcb ht
    · rw [Function.update_of_ne he] at ht
      exact hthreads t' tcb ht
  cases e with
  | start t =>
    simp only [step] at hs
    split at hs
    · cases hs
      exact ⟨hprocess, hobjects, hother fun tcb ht => by cases ht; exact .inl rfl⟩
    · cases hs
  | exit t =>
    simp only [step] at hs
    split at hs
    · cases hs
    · cases hs
      exact ⟨hprocess, hobjects, hother fun tcb ht => by cases ht⟩
  | call t env memory c =>
    obtain ⟨tcb, ht, -, rfl⟩ := step_call hs
    have hcall := Named.call ⟨hprocess, hobjects, hthreads t tcb ht⟩ env memory c
    exact ⟨hcall.process, hcall.objects, hother fun tcb' ht' => by cases ht'; exact hcall.installed⟩

/-- In every run, whatever the threads do in between and whatever the environment says:
the name that a query of a category gives is one that `setlocale` takes later, returns,
and answers queries with from then on; and it brings back what the category, or all of
them, stood for when it was taken, and changes nothing else. -/
theorem locale_restored {s s' : World × List (World × Event)} (h : Reachable Init Step s)
    (hrun : Relation.ReflTransGen Step s s') {category : Int} (hv : validCategory category = true)
    (env env' : Environment) :
    ∃ name, setlocale env category none s.1.globals = (some name, s.1.globals) ∧
      setlocale env' category (some name) s'.1.globals =
        (some name, { s'.1.globals with
          process := restored s.1.globals.process s'.1.globals.process category }) := by
  have hinv {x : World × List (World × Event)} (hx : Reachable Init Step x) : AllNamed x :=
    hx.invariant (fun _ hi => allNamed_init hi) fun _ _ hi hs => allNamed_step hi hs
  exact setlocale_restores (hinv h).1 (hinv (h.run hrun)).1 hv env env'

/-- The main thread takes `C.UTF-8` back after a visit to `C`. -/
theorem locale_restored_utf8 : ∃ name s s', runEvents (initial, [])
      [.call 0 (fun _ => none) none (.setlocale lcAll (some localeUtf8))] = some s ∧
    runEvents s [.call 0 (fun _ => none) none (.setlocale lcAll (some localeC))] = some s' ∧
    setlocale (fun _ => none) lcAll none s.1.globals = (some name, s.1.globals) ∧
    setlocale (fun _ => none) lcAll (some name) s'.1.globals =
      (some name, { s'.1.globals with process := restored s.1.globals.process s'.1.globals.process lcAll }) := by
  obtain ⟨s, hs⟩ : ∃ s, runEvents (initial, [])
    [.call 0 (fun _ => none) none (.setlocale lcAll (some localeUtf8))] = some s := ⟨_, rfl⟩
  obtain ⟨s', hs'⟩ : ∃ s', runEvents s
    [.call 0 (fun _ => none) none (.setlocale lcAll (some localeC))] = some s' := by
    cases hs
    exact ⟨_, rfl⟩
  have hreach : Reachable Init Step s := reachable_events (.start rfl) hs
  have hstep : Step s s' := by
    cases hs
    cases hs'
    exact ⟨_, _, rfl, rfl⟩
  have hvalid : validCategory lcAll = true := rfl
  obtain ⟨name, hquery, hset⟩ := locale_restored hreach (.single hstep) hvalid (fun _ => none) (fun _ => none)
  exact ⟨name, s, s', hs, hs', hquery, hset⟩

end MiniLibc.Locale
