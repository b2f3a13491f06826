import MiniLibc.Lib.Runs
/-!
# Termination handlers

`src/crt/termination.c`. Both tables work alike: under its lock a handler is stored behind
the others, or the last one is taken out, and it is called with the lock released. So a
handler may register handlers and terminate the process itself, and other threads may do so
at the same time. The futex locks make the critical sections steps.
-/
open MiniLibc.Runs

namespace MiniLibc.Crt

/-! ## The tables -/

/-- Whose handlers: those of `atexit` or of `at_quick_exit`. -/
inductive Table where
  | atexit
  | quickExit
deriving DecidableEq, Repr

/-- `MINI_ATEXIT_CAPACITY` and `MINI_QUICK_EXIT_CAPACITY`. -/
def handlerCapacity : Nat := 32

/-- A table of function pointers, and its count. A null pointer is `none`. -/
structure Handlers (H : Type) where
  slots : Nat → Option H := fun _ => none
  count : Nat := 0

variable {H : Type}

namespace Handlers

/-- The critical section of `atexit` and `at_quick_exit`: whether there is room, and the table. -/
def add (t : Handlers H) (func : H) : Bool × Handlers H :=
  if t.count ≠ handlerCapacity then (true, ⟨Function.update t.slots t.count (some func), t.count + 1⟩)
  else (false, t)

/-- The critical section of `exit` and `quick_exit`: the pointer to call, unless the table is
empty. -/
def take (t : Handlers H) : Option (Option H) × Handlers H :=
  if t.count = 0 then (none, t)
  else (some (t.slots (t.count - 1)), ⟨Function.update t.slots (t.count - 1) none, t.count - 1⟩)

/-- The table holds these handlers, and null pointers behind them. -/
structure Holds (t : Handlers H) (l : List H) : Prop where
  slots : ∀ i, t.slots i = l[i]?
  count : t.count = l.length
  fits : l.length ≤ handlerCapacity

theorem add_full {t : Handlers H} {l : List H} (h : t.Holds l) (hl : l.length = handlerCapacity) (func : H) :
    t.add func = (false, t) := by
  unfold add
  rw [if_neg (by simp [h.count, hl])]

theorem add_room {t : Handlers H} {l : List H} (h : t.Holds l) (hl : l.length ≠ handlerCapacity) (func : H) :
    (t.add func).1 = true ∧ (t.add func).2.Holds (l ++ [func]) := by
  unfold add
  rw [if_pos (by rw [h.count]; exact hl)]
  refine ⟨rfl, fun i => ?_, by simp [h.count], ?_⟩
  · dsimp only
    rw [h.count]
    by_cases hi : i = l.length
    · subst hi
      simp
    · rw [Function.update_of_ne hi, h.slots]
      by_cases hlt : i < l.length
      · rw [List.getElem?_append_left hlt]
      · rw [List.getElem?_eq_none (by omega), List.getElem?_eq_none (by simp; omega)]
  · have := h.fits
    rw [List.length_append, List.length_singleton]
    omega

theorem take_empty {t : Handlers H} (h : t.Holds []) : t.take = (none, t) := by
  have hcount : t.count = 0 := h.count
  unfold take
  rw [if_pos hcount]

theorem take_last {t : Handlers H} {l : List H} {func : H} (h : t.Holds (l ++ [func])) :
    t.take.1 = some (some func) ∧ t.take.2.Holds l := by
  have hcount : t.count = l.length + 1 := by rw [h.count, List.length_append, List.length_singleton]
  unfold take
  rw [if_neg (by omega), hcount, Nat.add_sub_cancel]
  refine ⟨by rw [h.slots]; simp, fun i => ?_, rfl, ?_⟩
  · by_cases hi : i = l.length
    · subst hi
      simp
    · dsimp only
      rw [Function.update_of_ne hi, h.slots]
      by_cases hlt : i < l.length
      · rw [List.getElem?_append_left hlt]
      · rw [List.getElem?_eq_none (by simp; omega), List.getElem?_eq_none (by omega)]
  · have := h.fits
    rw [List.length_append] at this
    omega

end Handlers

/-! ## The process -/

/-- What a thread is in the middle of. -/
inductive Frame where
  /-- `main`, a thread's function or a handler. -/
  | code
  /-- The loop of `exit` or `quick_exit`. -/
  | terminating (table : Table) (status : Int)
  /-- Behind the loop: before `__mini_stdio_flush_all`, or before `_Exit` for `quick_exit`. -/
  | drained (table : Table) (status : Int)
  | flushed (status : Int)
deriving DecidableEq, Repr

/-- What has happened, in the order of the critical sections and calls. -/
inductive Event (H : Type) where
  | registered (table : Table) (func : H)
  /-- A registration that returned -1 for want of room. -/
  | refused (table : Table)
  /-- A call of `exit` or `quick_exit`. -/
  | terminates (table : Table) (status : Int)
  /-- A handler is called; the pointer may be null. -/
  | called (table : Table) (func : Option H)
  /-- The loop finds its table empty. -/
  | drained (table : Table)
  | flushed
  /-- A call of `_Exit` by the program. -/
  | aborts (status : Int)
  /-- `exit_group`. -/
  | exited (status : Int)
deriving DecidableEq, Repr

/-- A process with threads `ι`. -/
structure Process (ι H : Type) where
  tables : Table → Handlers H
  /-- A thread's calls, the innermost first. -/
  frames : ι → List Frame
  exited : Bool
  log : List (ι × Event H)

namespace Process

variable {ι : Type} [DecidableEq ι]

def goto (p : Process ι H) (t : ι) (frames : List Frame) : Process ι H :=
  { p with frames := Function.update p.frames t frames }

def note (p : Process ι H) (t : ι) (e : Event H) : Process ι H := { p with log := p.log ++ [(t, e)] }

/-- `atexit` and `at_quick_exit`. A null pointer is turned down at once. -/
def register (p : Process ι H) (t : ι) (table : Table) (func : Option H) : Process ι H :=
  match func with
  | none => p
  | some func =>
    match (p.tables table).add func with
    | (true, handlers) => { p with tables := Function.update p.tables table handlers }.note t (.registered table func)
    | (false, handlers) => { p with tables := Function.update p.tables table handlers }.note t (.refused table)

/-- One round of the loop of `exit` or `quick_exit`, up to the call. -/
def round (p : Process ι H) (t : ι) (table : Table) (status : Int) (rest : List Frame) : Process ι H :=
  match (p.tables table).take with
  | (none, handlers) =>
    ({ p with tables := Function.update p.tables table handlers }.goto t (.drained table status :: rest)).note t
      (.drained table)
  | (some func, handlers) =>
    ({ p with tables := Function.update p.tables table handlers }.goto t
      (.code :: .terminating table status :: rest)).note t (.called table func)

/-- `mini_sys_exit_group`. -/
def exitGroup (p : Process ι H) (t : ι) (status : Int) : Process ι H :=
  { p with exited := true }.note t (.exited status)

/-- The steps of the threads: none after the process has exited. -/
inductive Step : Process ι H → Process ι H → Prop where
  | register {p : Process ι H} {t : ι} {rest : List Frame} (table : Table) (func : Option H) : p.exited = false →
      p.frames t = .code :: rest → Step p (p.register t table func)
  | terminate {p : Process ι H} {t : ι} {rest : List Frame} (table : Table) (status : Int) : p.exited = false →
      p.frames t = .code :: rest →
      Step p ((p.goto t (.terminating table status :: .code :: rest)).note t (.terminates table status))
  /-- `_Exit`. -/
  | abort {p : Process ι H} {t : ι} {rest : List Frame} (status : Int) : p.exited = false →
      p.frames t = .code :: rest → Step p ((p.note t (.aborts status)).exitGroup t status)
  | round {p : Process ι H} {t : ι} {table : Table} {status : Int} {rest : List Frame} : p.exited = false →
      p.frames t = .terminating table status :: rest → Step p (p.round t table status rest)
  /-- A handler returns. -/
  | return {p : Process ι H} {t : ι} {table : Table} {status : Int} {rest : List Frame} : p.exited = false →
      p.frames t = .code :: .terminating table status :: rest → Step p (p.goto t (.terminating table status :: rest))
  | flush {p : Process ι H} {t : ι} {status : Int} {rest : List Frame} : p.exited = false →
      p.frames t = .drained .atexit status :: rest → Step p ((p.goto t (.flushed status :: rest)).note t .flushed)
  | exit {p : Process ι H} {t : ι} {status : Int} {rest : List Frame} : p.exited = false →
      p.frames t = .flushed status :: rest ∨ p.frames t = .drained .quickExit status :: rest →
      Step p (p.exitGroup t status)

/-- Nothing is registered, and every thread runs the program's code. -/
def Init (p : Process ι H) : Prop :=
  (∀ table, p.tables table = {}) ∧ (∀ t, p.frames t = [.code]) ∧ p.exited = false ∧ p.log = []

/-! ## What the log says -/

/-- The handlers of a table that are registered and not called yet, the last one at the end. -/
def settle (table : Table) (pending : List H) : Event H → List H
  | .registered table' func => if table' = table then pending ++ [func] else pending
  | .called table' _ => if table' = table then pending.dropLast else pending
  | _ => pending

def pending (table : Table) (log : List (ι × Event H)) : List H :=
  (log.map Prod.snd).foldl (settle table) []

/-- What may happen next in thread `t`. -/
def Legal (log : List (ι × Event H)) (t : ι) : Event H → Prop
  | .registered table _ => (pending table log).length < handlerCapacity
  | .refused table => (pending table log).length = handlerCapacity
  | .terminates _ _ => True
  /- Only a thread that terminates calls a handler, the last one that is pending. -/
  | .called table func => (∃ last, func = some last ∧ (pending table log).getLast? = some last) ∧
      ∃ status, (t, .terminates table status) ∈ log
  | .drained table => pending table log = [] ∧ ∃ status, (t, .terminates table status) ∈ log
  | .flushed => (t, .drained .atexit) ∈ log
  | .aborts _ => True
  | .exited status => (t, .aborts status) ∈ log ∨
      ((t, .terminates .quickExit status) ∈ log ∧ (t, .drained .quickExit) ∈ log) ∨
      ((t, .terminates .atexit status) ∈ log ∧ (t, .drained .atexit) ∈ log ∧ (t, .flushed) ∈ log)

/-- Each event was legal when it happened, and nothing happens after the exit. -/
inductive Disciplined : List (ι × Event H) → Prop where
  | nil : Disciplined []
  | snoc {log : List (ι × Event H)} {t : ι} {e : Event H} : Disciplined log →
      (∀ u status, (u, .exited status) ∉ log) → Legal log t e → Disciplined (log ++ [(t, e)])

omit [DecidableEq ι] in
theorem pending_snoc (table : Table) (log : List (ι × Event H)) (t : ι) (e : Event H) :
    pending table (log ++ [(t, e)]) = settle table (pending table log) e := by
  unfold pending
  rw [List.map_append, List.foldl_append]
  rfl

/-- What a frame says about its thread's part of the log. -/
def Backed (log : List (ι × Event H)) (t : ι) : Frame → Prop
  | .code => True
  | .terminating table status => (t, .terminates table status) ∈ log
  | .drained table status => (t, .terminates table status) ∈ log ∧ (t, .drained table) ∈ log
  | .flushed status => (t, .terminates .atexit status) ∈ log ∧ (t, .drained .atexit) ∈ log ∧ (t, .flushed) ∈ log

omit [DecidableEq ι] in
theorem Backed.later {log : List (ι × Event H)} {t : ι} {frame : Frame} (h : Backed log t frame)
    (more : List (ι × Event H)) : Backed (log ++ more) t frame := by
  cases frame with
  | code => trivial
  | terminating => exact List.mem_append_left _ h
  | drained => exact ⟨List.mem_append_left _ h.1, List.mem_append_left _ h.2⟩
  | flushed => exact ⟨List.mem_append_left _ h.1, List.mem_append_left _ h.2.1, List.mem_append_left _ h.2.2⟩

/-- The invariant of a process. -/
structure Inv (p : Process ι H) : Prop where
  holds : ∀ table, (p.tables table).Holds (pending table p.log)
  backed : ∀ t, ∀ frame ∈ p.frames t, Backed p.log t frame
  running : p.exited = false → ∀ t status, (t, .exited status) ∉ p.log
  disciplined : Disciplined p.log

omit [DecidableEq ι] in
theorem Init.inv {p : Process ι H} (h : Init p) : Inv p := by
  obtain ⟨htables, hframes, -, hlog⟩ := h
  refine ⟨fun table => ?_, fun t frame hframe => ?_, fun _ t status => by simp [hlog], by rw [hlog]; exact .nil⟩
  · rw [htables, hlog]
    exact ⟨fun _ => rfl, rfl, Nat.zero_le _⟩
  · rw [hframes, List.mem_singleton] at hframe
    rw [hframe]
    trivial

omit [DecidableEq ι] in
/-- An event that is legal, its tables and its frames. -/
theorem Inv.event {p p' : Process ι H} (h : Inv p) (hrun : p.exited = false) (t : ι) (e : Event H)
    (hlegal : Legal p.log t e) (hlog : p'.log = p.log ++ [(t, e)])
    (htables : ∀ table, (p'.tables table).Holds (settle table (pending table p.log) e))
    (hframes : ∀ u, ∀ frame ∈ p'.frames u, Backed p'.log u frame)
    (hexited : p'.exited = false → ∀ status, e ≠ .exited status) : Inv p' where
  holds table := by
    rw [hlog, pending_snoc]
    exact htables table
  backed := hframes
  running hrun' u status hmem := by
    rw [hlog] at hmem
    rcases List.mem_append.1 hmem with hmem | hmem
    · exact h.running hrun u status hmem
    · exact hexited hrun' status (Prod.mk.inj (List.mem_singleton.1 hmem)).2.symm
  disciplined := by
    rw [hlog]
    exact .snoc h.disciplined (fun u status => h.running hrun u status) hlegal

/-- The frames of a step: one thread's change. -/
theorem Inv.frames {p : Process ι H} (h : Inv p) {t : ι} {frames : List Frame} {log : List (ι × Event H)}
    (ht : ∀ frame ∈ frames, Backed (p.log ++ log) t frame) (u : ι) :
    ∀ frame ∈ Function.update p.frames t frames u, Backed (p.log ++ log) u frame := by
  intro frame hframe
  by_cases hu : u = t
  · subst hu
    rw [Function.update_self] at hframe
    exact ht frame hframe
  · rw [Function.update_of_ne hu] at hframe
    exact (h.backed u frame hframe).later log

/-- A table that is stored back as it was. -/
theorem update_same (tables : Table → Handlers H) (table : Table) :
    Function.update tables table (tables table) = tables := Function.update_eq_self table tables

omit [DecidableEq ι] in
theorem register_inv {p : Process ι H} (h : Inv p) (hrun : p.exited = false) (t : ι) (table : Table)
    (func : Option H) : Inv (p.register t table func) := by
  cases func with
  | none => exact h
  | some func =>
    have hholds := h.holds table
    by_cases hfull : (pending table p.log).length = handlerCapacity
    · have hp : p.register t table (some func) = p.note t (.refused table) := by
        simp only [register, Handlers.add_full hholds hfull, update_same]
      rw [hp]
      exact h.event hrun t (.refused table) hfull rfl h.holds (fun u frame hf => (h.backed u frame hf).later _) (by simp)
    · obtain ⟨hok, hadded⟩ := Handlers.add_room hholds hfull func
      obtain ⟨⟨ok, handlers⟩, hadd⟩ : ∃ r, (p.tables table).add func = r := ⟨_, rfl⟩
      rw [hadd] at hok hadded
      dsimp only at hok hadded
      subst hok
      have hp : p.register t table (some func) =
          { p with tables := Function.update p.tables table handlers }.note t (.registered table func) := by
        simp only [register, hadd]
      rw [hp]
      refine h.event hrun t (.registered table func) ?_ rfl (fun table' => ?_) (fun u frame hf => (h.backed u frame hf).later _) (by simp)
      · have := hholds.fits
        show (pending table p.log).length < handlerCapacity
        omega
      · by_cases ht : table' = table
        · subst ht
          simpa [note, settle] using hadded
        · simpa [note, settle, ht, Ne.symm ht] using h.holds table'

theorem round_inv {p : Process ι H} (h : Inv p) (hrun : p.exited = false) {t : ι} {table : Table} {status : Int}
    {rest : List Frame} (hf : p.frames t = .terminating table status :: rest) : Inv (p.round t table status rest) := by
  have hterminates : (t, Event.terminates table status) ∈ p.log :=
    h.backed t (.terminating table status) (by rw [hf]; exact List.mem_cons_self ..)
  have hrest : ∀ frame ∈ rest, Backed p.log t frame := fun frame hframe =>
    h.backed t frame (by rw [hf]; exact List.mem_cons_of_mem _ hframe)
  have hholds := h.holds table
  rcases List.eq_nil_or_concat (pending table p.log) with hnil | ⟨before, last, hlast⟩
  · rw [hnil] at hholds
    have hp : p.round t table status rest = (p.goto t (.drained table status :: rest)).note t (.drained table) := by
      simp only [round, Handlers.take_empty hholds, update_same]
    rw [hp]
    refine h.event hrun t (.drained table) ⟨hnil, status, hterminates⟩ rfl h.holds (h.frames fun frame hframe => ?_) (by simp)
    rcases List.mem_cons.1 hframe with rfl | hframe
    · exact ⟨List.mem_append_left _ hterminates, by simp⟩
    · exact (hrest frame hframe).later _
  · rw [List.concat_eq_append] at hlast
    rw [hlast] at hholds
    obtain ⟨htaken, hleft⟩ := Handlers.take_last hholds
    obtain ⟨⟨func, handlers⟩, htake⟩ : ∃ r, (p.tables table).take = r := ⟨_, rfl⟩
    rw [htake] at htaken hleft
    dsimp only at htaken hleft
    subst htaken
    have hp : p.round t table status rest =
        ({ p with tables := Function.update p.tables table handlers }.goto t
          (.code :: .terminating table status :: rest)).note t (.called table (some last)) := by
      simp only [round, htake]
    rw [hp]
    refine h.event hrun t (.called table (some last)) ⟨⟨last, rfl, by rw [hlast]; simp⟩, status, hterminates⟩ rfl
      (fun table' => ?_) (h.frames fun frame hframe => ?_) (by simp)
    · by_cases ht : table' = table
      · subst ht
        simpa [note, goto, settle, hlast] using hleft
      · simpa [note, goto, settle, ht, Ne.symm ht] using h.holds table'
    · rcases List.mem_cons.1 hframe with rfl | hframe
      · trivial
      rcases List.mem_cons.1 hframe with rfl | hframe
      · exact List.mem_append_left _ hterminates
      · exact (hrest frame hframe).later _

theorem Inv.step {p p' : Process ι H} (h : Inv p) (hs : Step p p') : Inv p' := by
  cases hs with
  | register table func hrun hf => exact register_inv h hrun _ table func
  | @terminate t rest table status hrun hf =>
    refine h.event hrun t (.terminates table status) trivial rfl h.holds (h.frames fun frame hframe => ?_) (by simp)
    rcases List.mem_cons.1 hframe with rfl | hframe
    · exact List.mem_append_right _ (List.mem_singleton_self _)
    · exact (h.backed t frame (by rw [hf]; exact hframe)).later _
  | @abort t rest status hrun hf =>
    have haborts : Inv (p.note t (.aborts status)) :=
      h.event hrun t (.aborts status) trivial rfl h.holds (fun u frame hf => (h.backed u frame hf).later _) (by simp)
    have hlegal : Legal (p.note t (.aborts status)).log t (.exited status) :=
      .inl (List.mem_append_right _ (List.mem_singleton_self _))
    exact haborts.event hrun t (.exited status) hlegal rfl haborts.holds
      (fun u frame hf => (haborts.backed u frame hf).later _) (by simp [exitGroup, note])
  | round hrun hf => exact round_inv h hrun hf
  | @«return» t table status rest hrun hf =>
    refine ⟨h.holds, fun u frame hframe => ?_, h.running, h.disciplined⟩
    by_cases hu : u = t
    · subst hu
      simp only [goto, Function.update_self] at hframe
      exact h.backed u frame (by rw [hf]; exact List.mem_cons_of_mem _ hframe)
    · simp only [goto, Function.update_of_ne hu] at hframe
      exact h.backed u frame hframe
  | @flush t status rest hrun hf =>
    obtain ⟨hterminates, hdrained⟩ := h.backed t (.drained .atexit status) (by rw [hf]; exact List.mem_cons_self ..)
    refine h.event hrun t .flushed hdrained rfl h.holds (h.frames fun frame hframe => ?_) (by simp)
    rcases List.mem_cons.1 hframe with rfl | hframe
    · exact ⟨List.mem_append_left _ hterminates, List.mem_append_left _ hdrained, by simp⟩
    · exact (h.backed t frame (by rw [hf]; exact List.mem_cons_of_mem _ hframe)).later _
  | @exit t status rest hrun hf =>
    refine h.event hrun t (.exited status) ?_ rfl h.holds (fun u frame hf => (h.backed u frame hf).later _)
      (by simp [exitGroup, note])
    rcases hf with hf | hf
    · exact .inr (.inr (h.backed t (.flushed status) (by rw [hf]; exact List.mem_cons_self ..)))
    · exact .inr (.inl (h.backed t (.drained .quickExit status) (by rw [hf]; exact List.mem_cons_self ..)))

/-! ## Counting -/

/-- How often a handler has been registered in a table. -/
def registrations [DecidableEq H] (table : Table) (func : H) (log : List (ι × Event H)) : Nat :=
  (log.map Prod.snd).countP fun e => match e with
    | .registered table' func' => table' = table ∧ func' = func
    | _ => False

/-- How often it has been called from that table. -/
def calls [DecidableEq H] (table : Table) (func : H) (log : List (ι × Event H)) : Nat :=
  (log.map Prod.snd).countP fun e => match e with
    | .called table' func' => table' = table ∧ func' = some func
    | _ => False

omit [DecidableEq ι] in
/-- Every registration is called once or pending. -/
theorem Disciplined.calls_pending [DecidableEq H] {log : List (ι × Event H)} (h : Disciplined log) (table : Table)
    (func : H) : calls table func log + (pending table log).count func = registrations table func log := by
  induction h with
  | nil => rfl
  | @snoc log t e _ _ hlegal ih =>
    rw [pending_snoc]
    unfold calls registrations at ih ⊢
    rw [List.map_append, List.countP_append, List.countP_append, List.map_singleton]
    cases e with
    | registered table' func' =>
      by_cases ht : table' = table
      · by_cases hfunc : func' = func
        · simp [settle, ht, hfunc] at ih ⊢
          omega
        · simp [settle, ht, hfunc] at ih ⊢
          omega
      · simp [settle, ht] at ih ⊢
        omega
    | called table' func' =>
      obtain ⟨⟨last, rfl, hlast⟩, -⟩ := hlegal
      by_cases ht : table' = table
      · subst ht
        obtain ⟨before, hbefore⟩ := List.getLast?_eq_some_iff.1 hlast
        rw [hbefore] at ih ⊢
        by_cases hfunc : last = func
        · simp [settle, hfunc] at ih ⊢
          omega
        · simp [settle, hfunc] at ih ⊢
          omega
      · simp [settle, ht] at ih ⊢
        omega
    | _ =>
      simp [settle] at ih ⊢
      omega

/-! ## One thread -/

/-- In a process of one thread nothing happens between the last round of `exit` and the end. -/
structure Alone (p : Process ι H) : Prop where
  drained : ∀ t status rest, p.frames t = .drained .atexit status :: rest → pending .atexit p.log = []
  flushed : ∀ t, (t, .flushed) ∈ p.log →
    pending .atexit p.log = [] ∧ ∃ status rest, p.frames t = .flushed status :: rest

omit [DecidableEq ι] in
/-- A step of a thread that runs code or terminates, before it flushes. -/
theorem Alone.before [Subsingleton ι] {p p' : Process ι H} (h : Alone p) (t : ι) {frame : Frame} {rest : List Frame}
    (hf : p.frames t = frame :: rest) (hframe : ∀ status, frame ≠ .flushed status) {log : List (ι × Event H)}
    (hlog : p'.log = p.log ++ log) (hnew : ∀ u, (u, .flushed) ∉ log)
    (hdrained : ∀ status rest, p'.frames t = .drained .atexit status :: rest → pending .atexit p'.log = []) :
    Alone p' where
  drained u status rest hu := by
    rw [Subsingleton.elim u t] at hu
    exact hdrained status rest hu
  flushed u hmem := by
    rw [hlog] at hmem
    rcases List.mem_append.1 hmem with hmem | hmem
    · obtain ⟨-, status, rest', hu⟩ := h.flushed u hmem
      rw [Subsingleton.elim u t, hf] at hu
      exact absurd (List.cons.inj hu).1 (hframe status)
    · exact absurd hmem (hnew u)

theorem Alone.step [Subsingleton ι] {p p' : Process ι H} (h : Alone p) (hinv : Inv p) (hs : Step p p') : Alone p' := by
  cases hs with
  | @register t rest table func hrun hf =>
    have hframes : (p.register t table func).frames t = .code :: rest := by
      cases func with
      | none => exact hf
      | some func =>
        rcases hadd : (p.tables table).add func with ⟨_ | _, handlers⟩
        · simp only [register, hadd]
          exact hf
        · simp only [register, hadd]
          exact hf
    obtain ⟨log, hlog, hnew⟩ : ∃ log, (p.register t table func).log = p.log ++ log ∧ ∀ u, (u, .flushed) ∉ log := by
      cases func with
      | none => exact ⟨[], (List.append_nil _).symm, by simp⟩
      | some func =>
        rcases hadd : (p.tables table).add func with ⟨_ | _, handlers⟩
        · exact ⟨[(t, .refused table)], by simp [register, hadd, note], by simp⟩
        · exact ⟨[(t, .registered table func)], by simp [register, hadd, note], by simp⟩
    exact h.before t hf (by simp) hlog hnew fun status rest' hd => by
      rw [hframes] at hd
      cases hd
  | @terminate t rest table status hrun hf =>
    exact h.before t hf (by simp) rfl (by simp) fun status' rest' hd => by simp [note, goto] at hd
  | @abort t rest status hrun hf =>
    have hlog : ((p.note t (.aborts status)).exitGroup t status).log =
        p.log ++ [(t, .aborts status), (t, .exited status)] := by
      simp [exitGroup, note]
    refine h.before t hf (by simp) hlog (by simp) ?_
    · intro status' rest' hd
      rw [show ((p.note t (.aborts status)).exitGroup t status).frames = p.frames from rfl, hf] at hd
      cases hd
  | @round t table status rest hrun hf =>
    obtain ⟨⟨func, handlers⟩, htake⟩ : ∃ r, (p.tables table).take = r := ⟨_, rfl⟩
    unfold Process.round
    rw [htake]
    cases func with
    | none =>
      refine h.before t hf (by simp) rfl (by simp) fun status' rest' hd => ?_
      obtain rfl : table = .atexit := by
        simp only [note, goto, Function.update_self] at hd
        exact (Frame.drained.inj (List.cons.inj hd).1).1
      -- the round found the table empty
      have hcount : (p.tables .atexit).count = 0 := by
        unfold Handlers.take at htake
        split at htake
        · assumption
        · cases htake
      have hnil : pending .atexit p.log = [] := by
        apply List.eq_nil_of_length_eq_zero
        rw [← (hinv.holds .atexit).count, hcount]
      show pending .atexit (p.log ++ [(t, .drained .atexit)]) = []
      rw [pending_snoc]
      exact hnil
    | some func => exact h.before t hf (by simp) rfl (by simp) fun status' rest' hd => by simp [note, goto] at hd
  | @«return» t table status rest hrun hf =>
    refine h.before t hf (by simp) (List.append_nil _).symm (by simp) fun status' rest' hd => ?_
    simp [goto] at hd
  | @flush t status rest hrun hf =>
    have hnil := h.drained t status rest hf
    have hpending : pending .atexit ((p.goto t (.flushed status :: rest)).note t .flushed).log = [] := by
      show pending .atexit (p.log ++ [(t, .flushed)]) = []
      rw [pending_snoc]
      exact hnil
    refine ⟨fun u status' rest' _ => hpending, fun u _ => ⟨hpending, status, rest, ?_⟩⟩
    rw [Subsingleton.elim u t]
    simp [note, goto]
  | @exit t status rest hrun hf =>
    have hpending : pending .atexit (p.exitGroup t status).log = pending .atexit p.log := by
      show pending .atexit (p.log ++ [(t, .exited status)]) = _
      rw [pending_snoc]
      rfl
    refine ⟨fun u status' rest' hu => ?_, fun u hmem => ?_⟩
    · rw [hpending]
      exact h.drained u status' rest' hu
    · rw [hpending]
      rcases List.mem_append.1 hmem with hmem | hmem
      · exact h.flushed u hmem
      · simp at hmem

/-! ## Runs -/

theorem reachable_inv {p : Process ι H} (h : Reachable Init Step p) : Inv p :=
  h.invariant (fun _ h => h.inv) fun _ _ h hs => h.step hs

theorem reachable_alone [Subsingleton ι] {p : Process ι H} (h : Reachable Init Step p) : Inv p ∧ Alone p := by
  refine @Reachable.invariant _ _ _ (fun p : Process ι H => Inv p ∧ Alone p) (fun p hp => ⟨hp.inv, ?_⟩)
    (fun p p' hp hs => ⟨hp.1.step hs, hp.2.step hp.1 hs⟩) _ h
  obtain ⟨-, hframes, -, hlog⟩ := hp
  refine ⟨fun t status rest ht => ?_, fun t ht => ?_⟩
  · rw [hframes] at ht
    cases ht
  · rw [hlog] at ht
    cases ht

/-- Termination in any process, over every run of any number of threads whose handlers do what
they like:
- every event was legal: a registration is refused only if 32 are pending; a call takes the
  last registration that is pending, in a thread that calls the table's own termination
  function; `exit` flushes and exits only when it found no handler pending, `quick_exit`
  without a flush; nothing happens after the exit;
- a table holds what is pending, and each registration is called once or is pending;
- with one thread every registration of `atexit` has been called when `exit` flushes. -/
theorem termination [DecidableEq H] {p : Process ι H} (h : Reachable Init Step p) :
    Disciplined p.log ∧ (∀ table, (p.tables table).Holds (pending table p.log)) ∧
      (∀ table func, calls table func p.log + (pending table p.log).count func = registrations table func p.log) ∧
      (Subsingleton ι → ∀ t func, (t, .flushed) ∈ p.log →
        calls .atexit func p.log = registrations .atexit func p.log) := by
  have hinv := reachable_inv h
  refine ⟨hinv.disciplined, hinv.holds, fun table func => hinv.disciplined.calls_pending table func, ?_⟩
  intro hone t func hflushed
  have hcount := hinv.disciplined.calls_pending .atexit func
  rwa [((reachable_alone h).2.flushed t hflushed).1, List.count_nil, Nat.add_zero] at hcount

/-- Two handlers, the one registered last being called first and registering a third. -/
theorem termination_nested : ∃ p : Process Unit Nat, p.exited = true ∧
    p.log.map Prod.snd = [.registered .atexit 1, .registered .atexit 2, .terminates .atexit 7, .called .atexit (some 2),
      .registered .atexit 3, .called .atexit (some 3), .called .atexit (some 1), .drained .atexit, .flushed, .exited 7] ∧
    Disciplined p.log ∧ calls .atexit 3 p.log = registrations .atexit 3 p.log := by
  let p : Process Unit Nat := ⟨fun _ => {}, fun _ => [.code], false, []⟩
  have h0 : Reachable Init Step p := .start ⟨fun _ => rfl, fun _ => rfl, rfl, rfl⟩
  have h1 := h0.next (.register (t := ()) .atexit (some 1) rfl rfl)
  have h2 := h1.next (.register (t := ()) .atexit (some 2) rfl rfl)
  have h3 := h2.next (.terminate (t := ()) .atexit 7 rfl rfl)
  have h4 := h3.next (.round (t := ()) rfl rfl)
  have h5 := h4.next (.register (t := ()) .atexit (some 3) rfl rfl)
  have h6 := h5.next (.return (t := ()) rfl rfl)
  have h7 := h6.next (.round (t := ()) rfl rfl)
  have h8 := h7.next (.return (t := ()) rfl rfl)
  have h9 := h8.next (.round (t := ()) rfl rfl)
  have h10 := h9.next (.return (t := ()) rfl rfl)
  have h11 := h10.next (.round (t := ()) rfl rfl)
  have h12 := h11.next (.flush (t := ()) rfl rfl)
  have h13 := h12.next (.exit (t := ()) rfl (.inl rfl))
  obtain ⟨hdisciplined, -, -, hall⟩ := termination h13
  exact ⟨_, rfl, rfl, hdisciplined, hall inferInstance () 3 (by decide)⟩

end Process

end MiniLibc.Crt
