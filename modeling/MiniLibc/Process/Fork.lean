import Mathlib
import MiniLibc.Lib.Runs
/-!
# Fork handlers

`pthread_atfork` and `fork` of `src/process`. A call of `fork` copies the table of handlers
under its lock and then calls them with the lock released, so a handler may register
handlers or fork itself, and other threads may do so at the same time. `mini_sys_fork`
gives the caller a twin that goes on alone, without the other threads.
-/

namespace MiniLibc.Process

open Runs

/-! ## The table -/

/-- `MINI_ATFORK_CAPACITY` -/
def atforkCapacity : Nat := 8

/-- `struct mini_atfork_handler`; a null pointer is `none`. -/
structure AtforkHandler (H : Type) where
  prepare : Option H
  parent : Option H
  child : Option H

/-- `atfork_handlers` and `atfork_count`. -/
structure AtforkTable (H : Type) where
  handlers : Nat → AtforkHandler H := fun _ => ⟨none, none, none⟩
  count : Nat := 0

variable {H : Type}

namespace AtforkTable

/-- The critical section of `pthread_atfork`: whether there was room, and the table. -/
def add (t : AtforkTable H) (handler : AtforkHandler H) : Bool × AtforkTable H :=
  if t.count = atforkCapacity then (false, t)
  else (true, ⟨Function.update t.handlers t.count handler, t.count + 1⟩)

/-- The loop of `__mini_atfork_snapshot` from `index` on. -/
def snapshotLoop (t : AtforkTable H) : (left index : Nat) → List (AtforkHandler H)
  | 0, _ => []
  | left + 1, index => t.handlers index :: snapshotLoop t left (index + 1)

def snapshot (t : AtforkTable H) : List (AtforkHandler H) := t.snapshotLoop t.count 0

/-- The table holds these handlers. -/
structure Holds (t : AtforkTable H) (l : List (AtforkHandler H)) : Prop where
  handlers : ∀ i, (h : i < l.length) → t.handlers i = l[i]
  count : t.count = l.length
  fits : l.length ≤ atforkCapacity

theorem Holds.add {t : AtforkTable H} {l : List (AtforkHandler H)} (h : t.Holds l) (handler : AtforkHandler H) :
    (l.length = atforkCapacity ∧ t.add handler = (false, t)) ∨
      ((t.add handler).1 = true ∧ (t.add handler).2.Holds (l ++ [handler])) := by
  unfold AtforkTable.add
  rw [h.count]
  split
  · rename_i hfull
    exact .inl ⟨hfull, rfl⟩
  · rename_i hroom
    have hfits := h.fits
    refine .inr ⟨rfl, fun i hi => ?_, by simp, by simp; omega⟩
    by_cases hlast : i = l.length
    · subst hlast
      simp
    · have hlt : i < l.length := by
        simp at hi
        omega
      simp [hlast, hlt, h.handlers i hlt]

theorem snapshotLoop_eq {t : AtforkTable H} {l : List (AtforkHandler H)} (h : t.Holds l) (left index : Nat)
    (hend : index + left = l.length) : t.snapshotLoop left index = l.drop index := by
  induction left generalizing index with
  | zero => rw [snapshotLoop, List.drop_eq_nil_of_le (by omega)]
  | succ left ih =>
    rw [snapshotLoop, ih (index + 1) (by omega), h.handlers index (by omega), ← List.drop_eq_getElem_cons]

theorem Holds.snapshot {t : AtforkTable H} {l : List (AtforkHandler H)} (h : t.Holds l) : t.snapshot = l := by
  unfold AtforkTable.snapshot
  rw [snapshotLoop_eq h t.count 0 (by rw [h.count, Nat.zero_add]), List.drop_zero]

end AtforkTable

/-! ## Processes -/

/-- What a call of `fork` does, in order. -/
inductive Act (H : Type) where
  | prepare (handler : H)
  /-- The result of `mini_sys_fork`. -/
  | forked (result : Int)
  | parent (handler : H)
  | child (handler : H)

/-- What a thread is in the middle of. A call of `fork` has its own copy of the table, and
keeps account of what it did. -/
inductive Frame (H : Type) where
  /-- The program or a handler. -/
  | code
  | prepare (handlers : List (AtforkHandler H)) (index : Nat) (did : List (Act H))
  | parent (handlers : List (AtforkHandler H)) (index : Nat) (result : Int) (did : List (Act H))
  | child (handlers : List (AtforkHandler H)) (index : Nat) (did : List (Act H))

/-- The history of a process; a child has that of its parent up to its birth. -/
inductive Event (H : Type) where
  | registered (handler : AtforkHandler H)
  /-- `ENOMEM` -/
  | refused
  | forks (handlers : List (AtforkHandler H))
  /-- `fork` returns, with `errno`. -/
  | returned (value : Int) (errno : Int) (handlers : List (AtforkHandler H)) (did : List (Act H))

/-- A process with threads among `ι`; a thread without frames does not run. -/
structure Proc (ι H : Type) where
  table : AtforkTable H
  frames : ι → List (Frame H)
  errno : ι → Int
  log : List (ι × Event H)

namespace Proc

variable {ι : Type} [DecidableEq ι]

def goto (p : Proc ι H) (t : ι) (frames : List (Frame H)) : Proc ι H :=
  { p with frames := Function.update p.frames t frames }

def note (p : Proc ι H) (t : ι) (e : Event H) : Proc ι H := { p with log := p.log ++ [(t, e)] }

def setErrno (p : Proc ι H) (t : ι) (error : Int) : Proc ι H :=
  { p with errno := Function.update p.errno t error }

/-- `pthread_atfork`, which leaves `errno` as it was. -/
def atfork (p : Proc ι H) (t : ι) (handler : AtforkHandler H) : Proc ι H :=
  match p.table.add handler with
  | (false, table) => { p with table }.note t .refused
  | (true, table) => { p with table }.note t (.registered handler)

/-- The beginning of `fork`. -/
def fork (p : Proc ι H) (t : ι) (rest : List (Frame H)) : Proc ι H :=
  let handlers := p.table.snapshot
  (p.goto t (.prepare handlers handlers.length [] :: rest)).note t (.forks handlers)

/-- A round of one of the loops: the handler is called unless it is null. -/
def round (p : Proc ι H) (t : ι) (handler : Option H) (act : H → Act H) (next : List (Act H) → Frame H)
    (did : List (Act H)) (rest : List (Frame H)) : Proc ι H :=
  match handler with
  | none => p.goto t (next did :: rest)
  | some handler => p.goto t (.code :: next (did ++ [act handler]) :: rest)

/-- The end of `fork` in the parent. -/
def finishParent (p : Proc ι H) (t : ι) (handlers : List (AtforkHandler H)) (result : Int) (did : List (Act H))
    (rest : List (Frame H)) : Proc ι H :=
  if result < 0 then
    ((p.setErrno t (-result)).goto t rest).note t (.returned (-1) (-result) handlers did)
  else (p.goto t rest).note t (.returned result (p.errno t) handlers did)

/-- The end of `fork` in the child. -/
def finishChild (p : Proc ι H) (t : ι) (handlers : List (AtforkHandler H)) (did : List (Act H))
    (rest : List (Frame H)) : Proc ι H :=
  (p.goto t rest).note t (.returned 0 (p.errno t) handlers did)

/-- The twin: the thread that forked is alone. -/
def twin (p : Proc ι H) (t : ι) (frames : List (Frame H)) : Proc ι H :=
  { p with frames := fun u => if u = t then frames else [] }

/-- The steps inside a process. -/
inductive Step : Proc ι H → Proc ι H → Prop where
  | start {p : Proc ι H} {u : ι} : p.frames u = [] → Step p (p.goto u [.code])
  | exit {p : Proc ι H} {t : ι} : p.frames t = [.code] → Step p (p.goto t [])
  /-- The program and the handlers may set `errno`. -/
  | errno {p : Proc ι H} {t : ι} {rest : List (Frame H)} (error : Int) : p.frames t = .code :: rest →
      Step p (p.setErrno t error)
  | atfork {p : Proc ι H} {t : ι} {rest : List (Frame H)} (handler : AtforkHandler H) :
      p.frames t = .code :: rest → Step p (p.atfork t handler)
  | fork {p : Proc ι H} {t : ι} {rest : List (Frame H)} : p.frames t = .code :: rest →
      Step p (p.fork t (.code :: rest))
  | returns {p : Proc ι H} {t : ι} {frame : Frame H} {rest : List (Frame H)} : frame ≠ .code →
      p.frames t = .code :: frame :: rest → Step p (p.goto t (frame :: rest))
  | prepare {p : Proc ι H} {t : ι} {handlers : List (AtforkHandler H)} {index : Nat} {did : List (Act H)}
      {handler : AtforkHandler H} {rest : List (Frame H)} : p.frames t = .prepare handlers (index + 1) did :: rest →
      handlers[index]? = some handler →
      Step p (p.round t handler.prepare .prepare (.prepare handlers index) did rest)
  | parent {p : Proc ι H} {t : ι} {handlers : List (AtforkHandler H)} {index : Nat} {result : Int}
      {did : List (Act H)} {handler : AtforkHandler H} {rest : List (Frame H)} :
      p.frames t = .parent handlers index result did :: rest → handlers[index]? = some handler →
      Step p (p.round t handler.parent .parent (.parent handlers (index + 1) result) did rest)
  | child {p : Proc ι H} {t : ι} {handlers : List (AtforkHandler H)} {index : Nat} {did : List (Act H)}
      {handler : AtforkHandler H} {rest : List (Frame H)} : p.frames t = .child handlers index did :: rest →
      handlers[index]? = some handler →
      Step p (p.round t handler.child .child (.child handlers (index + 1)) did rest)
  | parentEnd {p : Proc ι H} {t : ι} {handlers : List (AtforkHandler H)} {result : Int} {did : List (Act H)}
      {rest : List (Frame H)} : p.frames t = .parent handlers handlers.length result did :: rest →
      Step p (p.finishParent t handlers result did rest)
  | childEnd {p : Proc ι H} {t : ι} {handlers : List (AtforkHandler H)} {did : List (Act H)}
      {rest : List (Frame H)} : p.frames t = .child handlers handlers.length did :: rest →
      Step p (p.finishChild t handlers did rest)
  /-- `mini_sys_fork` fails. -/
  | fail {p : Proc ι H} {t : ι} {handlers : List (AtforkHandler H)} {did : List (Act H)} {error : Nat}
      {rest : List (Frame H)} : 0 < error → p.frames t = .prepare handlers 0 did :: rest →
      Step p (p.goto t (.parent handlers 0 (-error) (did ++ [.forked (-error)]) :: rest))

end Proc

/-- All processes, by their numbers. -/
abbrev Family (ι H : Type) := Nat → Option (Proc ι H)

inductive FamilyStep {ι : Type} [DecidableEq ι] : Family ι H → Family ι H → Prop where
  | inside {f : Family ι H} {pid : Nat} {p p' : Proc ι H} : f pid = some p → p.Step p' →
      FamilyStep f (Function.update f pid (some p'))
  /-- `mini_sys_fork`, from `fork`. -/
  | fork {f : Family ι H} {pid child : Nat} {p : Proc ι H} {t : ι} {handlers : List (AtforkHandler H)}
      {did : List (Act H)} {rest : List (Frame H)} : f pid = some p → f child = none → 0 < child →
      p.frames t = .prepare handlers 0 did :: rest →
      FamilyStep f (Function.update
        (Function.update f pid (some (p.goto t (.parent handlers 0 child (did ++ [.forked child]) :: rest))))
        child (some (p.twin t (.child handlers 0 (did ++ [.forked 0]) :: rest))))
  /-- `_Fork`, which knows no handlers. -/
  | rawFork {f : Family ι H} {pid child : Nat} {p : Proc ι H} {t : ι} {rest : List (Frame H)} : f pid = some p →
      f child = none → 0 < child → p.frames t = .code :: rest →
      FamilyStep f (Function.update f child (some (p.twin t (.code :: rest))))

/-- One process, whose threads run the program. -/
def FamilyInit {ι : Type} (f : Family ι H) : Prop :=
  ∃ pid p, f = Function.update (fun _ => none) pid (some p) ∧ p.table = ({} : AtforkTable H) ∧ p.log = [] ∧
    ∀ t, p.frames t = [] ∨ p.frames t = [.code]

/-! ## What a call does -/

def prepares (handlers : List (AtforkHandler H)) : List (Act H) :=
  handlers.reverse.filterMap fun handler => handler.prepare.map .prepare

def parents (handlers : List (AtforkHandler H)) : List (Act H) :=
  handlers.filterMap fun handler => handler.parent.map .parent

def children (handlers : List (AtforkHandler H)) : List (Act H) :=
  handlers.filterMap fun handler => handler.child.map .child

/-- A whole call: the handlers are prepared in reverse order, and followed up in order on
the caller's own side. -/
def callOf (handlers : List (AtforkHandler H)) (result : Int) : List (Act H) :=
  prepares handlers ++ .forked result :: if result = 0 then children handlers else parents handlers

theorem prepares_cons (handler : AtforkHandler H) (handlers : List (AtforkHandler H)) :
    prepares (handler :: handlers) = prepares handlers ++ (handler.prepare.map Act.prepare).toList := by
  unfold prepares
  rw [List.reverse_cons, List.filterMap_append]
  cases h : handler.prepare <;> simp [h]

theorem parents_snoc (handlers : List (AtforkHandler H)) (handler : AtforkHandler H) :
    parents (handlers ++ [handler]) = parents handlers ++ (handler.parent.map Act.parent).toList := by
  unfold parents
  rw [List.filterMap_append]
  cases h : handler.parent <;> simp [h]

theorem children_snoc (handlers : List (AtforkHandler H)) (handler : AtforkHandler H) :
    children (handlers ++ [handler]) = children handlers ++ (handler.child.map Act.child).toList := by
  unfold children
  rw [List.filterMap_append]
  cases h : handler.child <;> simp [h]

section Invariant

variable {ι : Type}

/-- The handlers registered so far, the first one first. -/
def registeredIn (log : List (ι × Event H)) : List (AtforkHandler H) :=
  log.filterMap fun entry =>
    match entry.2 with
    | .registered handler => some handler
    | _ => none

/-- What may happen next in thread `t`. -/
def Legal (log : List (ι × Event H)) (t : ι) : Event H → Prop
  | .registered _ => (registeredIn log).length < atforkCapacity
  | .refused => (registeredIn log).length = atforkCapacity
  | .forks handlers => handlers = registeredIn log
  | .returned value errno handlers did => (t, .forks handlers) ∈ log ∧ ∃ result, did = callOf handlers result ∧
      value = (if result < 0 then -1 else result) ∧ (result < 0 → errno = -result)

/-- Each event was legal when it happened. -/
inductive Disciplined : List (ι × Event H) → Prop where
  | nil : Disciplined []
  | snoc {log : List (ι × Event H)} {t : ι} {e : Event H} : Disciplined log → Legal log t e →
      Disciplined (log ++ [(t, e)])

/-- How far a call has come. -/
def Backed (log : List (ι × Event H)) (t : ι) : Frame H → Prop
  | .code => True
  | .prepare handlers index did => index ≤ handlers.length ∧ did = prepares (handlers.drop index) ∧
      (t, .forks handlers) ∈ log
  | .parent handlers index result did => index ≤ handlers.length ∧ result ≠ 0 ∧
      did = prepares handlers ++ .forked result :: parents (handlers.take index) ∧ (t, .forks handlers) ∈ log
  | .child handlers index did => index ≤ handlers.length ∧
      did = prepares handlers ++ .forked 0 :: children (handlers.take index) ∧ (t, .forks handlers) ∈ log

theorem Backed.later {log : List (ι × Event H)} {t : ι} {frame : Frame H} (h : Backed log t frame)
    (more : List (ι × Event H)) : Backed (log ++ more) t frame := by
  cases frame with
  | code => trivial
  | prepare => exact ⟨h.1, h.2.1, List.mem_append_left _ h.2.2⟩
  | parent => exact ⟨h.1, h.2.1, h.2.2.1, List.mem_append_left _ h.2.2.2⟩
  | child => exact ⟨h.1, h.2.1, List.mem_append_left _ h.2.2⟩

theorem registeredIn_snoc (log : List (ι × Event H)) (t : ι) (e : Event H) :
    registeredIn (log ++ [(t, e)]) = registeredIn log ++
      match e with
      | .registered handler => [handler]
      | _ => [] := by
  unfold registeredIn
  rw [List.filterMap_append]
  cases e <;> rfl

/-- The invariant of a process. -/
structure Inv (p : Proc ι H) : Prop where
  holds : p.table.Holds (registeredIn p.log)
  backed : ∀ t, ∀ frame ∈ p.frames t, Backed p.log t frame
  disciplined : Disciplined p.log

namespace Inv

variable [DecidableEq ι] {p : Proc ι H}

/-- A thread goes on. -/
theorem goto (h : Inv p) {t : ι} {frames : List (Frame H)} (hframes : ∀ frame ∈ frames, Backed p.log t frame) :
    Inv (p.goto t frames) := by
  refine ⟨h.holds, fun u frame hmem => ?_, h.disciplined⟩
  unfold Proc.goto at hmem
  dsimp only at hmem
  by_cases hu : u = t
  · subst hu
    rw [Function.update_self] at hmem
    exact hframes frame hmem
  · rw [Function.update_of_ne hu] at hmem
    exact h.backed u frame hmem

theorem setErrno (h : Inv p) (t : ι) (error : Int) : Inv (p.setErrno t error) :=
  ⟨h.holds, h.backed, h.disciplined⟩

omit [DecidableEq ι] in
/-- An event that registers nothing. -/
theorem note (h : Inv p) {t : ι} {e : Event H} (hlegal : Legal p.log t e) (he : ∀ handler, e ≠ .registered handler) :
    Inv (p.note t e) := by
  refine ⟨?_, fun u frame hmem => (h.backed u frame hmem).later _, .snoc h.disciplined hlegal⟩
  have hsame : registeredIn (p.log ++ [(t, e)]) = registeredIn p.log := by
    rw [registeredIn_snoc]
    cases e with
    | registered handler => exact absurd rfl (he handler)
    | _ => exact List.append_nil _
  show p.table.Holds (registeredIn (p.log ++ [(t, e)]))
  rw [hsame]
  exact h.holds

omit [DecidableEq ι] in
theorem atfork (h : Inv p) (t : ι) (handler : AtforkHandler H) : Inv (p.atfork t handler) := by
  unfold Proc.atfork
  rcases h.holds.add handler with ⟨hfull, hadd⟩ | ⟨hok, hadded⟩
  · rw [hadd]
    exact h.note hfull (by simp)
  · obtain ⟨⟨ok, table⟩, hadd⟩ : ∃ r, p.table.add handler = r := ⟨_, rfl⟩
    rw [hadd] at hok hadded ⊢
    dsimp only at hok hadded
    subst hok
    have hfits := hadded.fits
    rw [List.length_append, List.length_singleton] at hfits
    refine ⟨?_, fun u frame hmem => (h.backed u frame hmem).later _, .snoc h.disciplined ?_⟩
    · show table.Holds (registeredIn (p.log ++ [(t, .registered handler)]))
      rw [registeredIn_snoc]
      exact hadded
    · show (registeredIn p.log).length < atforkCapacity
      omega

/-- A round of a loop, from what the frame says before and after. -/
theorem round (h : Inv p) {t : ι} {handler : Option H} {act : H → Act H} {next : List (Act H) → Frame H}
    {did : List (Act H)} {rest : List (Frame H)} (hrest : ∀ frame ∈ rest, Backed p.log t frame)
    (hnext : Backed p.log t (next (did ++ (handler.map act).toList))) : Inv (p.round t handler act next did rest) := by
  unfold Proc.round
  cases handler with
  | none =>
    refine h.goto fun frame hmem => ?_
    rcases List.mem_cons.1 hmem with rfl | hmem
    · simpa using hnext
    · exact hrest frame hmem
  | some handler =>
    refine h.goto fun frame hmem => ?_
    rcases List.mem_cons.1 hmem with rfl | hmem
    · trivial
    rcases List.mem_cons.1 hmem with rfl | hmem
    · exact hnext
    · exact hrest frame hmem

theorem finish (h : Inv p) {t : ι} {rest : List (Frame H)} (hrest : ∀ frame ∈ rest, Backed p.log t frame)
    {value errno result : Int} {handlers : List (AtforkHandler H)} {did : List (Act H)}
    (hforks : (t, .forks handlers) ∈ p.log) (hdid : did = callOf handlers result)
    (hvalue : value = if result < 0 then -1 else result) (herrno : result < 0 → errno = -result) :
    Inv ((p.goto t rest).note t (.returned value errno handlers did)) :=
  (h.goto hrest).note ⟨hforks, result, hdid, hvalue, herrno⟩ (by simp)

/-- The twin of a process. -/
theorem twin (h : Inv p) {t : ι} {frames : List (Frame H)} (hframes : ∀ frame ∈ frames, Backed p.log t frame) :
    Inv (p.twin t frames) := by
  refine ⟨h.holds, fun u frame hmem => ?_, h.disciplined⟩
  unfold Proc.twin at hmem
  dsimp only at hmem
  split at hmem
  · rename_i hu
    subst hu
    exact hframes frame hmem
  · simp at hmem

end Inv

end Invariant

/-! ## Runs -/

section Runs

variable {ι : Type} [DecidableEq ι]

theorem Inv.step {p p' : Proc ι H} (h : Inv p) (hstep : p.Step p') : Inv p' := by
  -- The frames under the one that moves stay as they are.
  have hunder {t : ι} {frame : Frame H} {rest : List (Frame H)} (hf : p.frames t = frame :: rest) :
      Backed p.log t frame ∧ ∀ frame ∈ rest, Backed p.log t frame := by
    have hall := h.backed t
    rw [hf] at hall
    exact ⟨hall frame List.mem_cons_self, fun frame' hmem => hall frame' (List.mem_cons_of_mem _ hmem)⟩
  cases hstep with
  | start hf =>
    exact h.goto fun frame hmem => by
      rw [List.mem_singleton.1 hmem]
      trivial
  | exit hf => exact h.goto (by simp)
  | errno error hf => exact h.setErrno _ error
  | @atfork t _ handler hf => exact h.atfork t handler
  | @fork t rest hf =>
    have hsnapshot := h.holds.snapshot
    have hnoted : Inv (p.note t (.forks p.table.snapshot)) := h.note hsnapshot (by simp)
    refine hnoted.goto (t := t) fun frame hmem => ?_
    rcases List.mem_cons.1 hmem with rfl | hmem
    · refine ⟨Nat.le_refl _, ?_, by simp [Proc.note]⟩
      rw [List.drop_length]
      rfl
    · rw [← hf] at hmem
      exact (h.backed t frame hmem).later _
  | returns _ hf => exact h.goto (hunder hf).2
  | @prepare t handlers index did handler rest hf hget =>
    obtain ⟨⟨hle, hdid, hforks⟩, hrest⟩ := hunder hf
    refine h.round hrest ⟨by omega, ?_, hforks⟩
    obtain ⟨hlt, rfl⟩ := List.getElem?_eq_some_iff.1 hget
    rw [List.drop_eq_getElem_cons hlt, prepares_cons, hdid]
  | @parent t handlers index result did handler rest hf hget =>
    obtain ⟨⟨hle, hresult, hdid, hforks⟩, hrest⟩ := hunder hf
    obtain ⟨hlt, rfl⟩ := List.getElem?_eq_some_iff.1 hget
    refine h.round hrest ⟨hlt, hresult, ?_, hforks⟩
    rw [List.take_add_one, List.getElem?_eq_getElem hlt, Option.toList_some, parents_snoc, hdid, List.append_assoc,
      List.cons_append]
  | @child t handlers index did handler rest hf hget =>
    obtain ⟨⟨hle, hdid, hforks⟩, hrest⟩ := hunder hf
    obtain ⟨hlt, rfl⟩ := List.getElem?_eq_some_iff.1 hget
    refine h.round hrest ⟨hlt, ?_, hforks⟩
    rw [List.take_add_one, List.getElem?_eq_getElem hlt, Option.toList_some, children_snoc, hdid, List.append_assoc,
      List.cons_append]
  | @parentEnd t handlers result did rest hf =>
    obtain ⟨⟨-, hresult, hdid, hforks⟩, hrest⟩ := hunder hf
    have hcall : did = callOf handlers result := by
      rw [hdid, List.take_length, callOf, if_neg hresult]
    unfold Proc.finishParent
    split
    · rename_i hneg
      exact (h.setErrno t (-result)).finish hrest hforks hcall (by rw [if_pos hneg]) fun _ => rfl
    · rename_i hpos
      exact h.finish hrest hforks hcall (by rw [if_neg hpos]) fun hneg => absurd hneg hpos
  | @childEnd t handlers did rest hf =>
    obtain ⟨⟨-, hdid, hforks⟩, hrest⟩ := hunder hf
    have hcall : did = callOf handlers 0 := by
      rw [hdid, List.take_length, callOf, if_pos rfl]
    exact h.finish hrest hforks hcall rfl fun hneg => absurd hneg (by decide)
  | @fail t handlers did error rest herror hf =>
    obtain ⟨⟨-, hdid, hforks⟩, hrest⟩ := hunder hf
    refine h.goto fun frame hmem => ?_
    rcases List.mem_cons.1 hmem with rfl | hmem
    · refine ⟨Nat.zero_le _, by omega, ?_, hforks⟩
      rw [hdid, List.drop_zero]
      rfl
    · exact hrest frame hmem

/-- Every process of a family has the invariant. -/
def AllInv (f : Family ι H) : Prop := ∀ pid p, f pid = some p → Inv p

omit [DecidableEq ι] in
theorem AllInv.update {f : Family ι H} (h : AllInv f) {pid : Nat} {p : Proc ι H} (hp : Inv p) :
    AllInv (Function.update f pid (some p)) := by
  intro pid' p' hp'
  by_cases he : pid' = pid
  · subst he
    rw [Function.update_self] at hp'
    cases hp'
    exact hp
  · rw [Function.update_of_ne he] at hp'
    exact h pid' p' hp'

omit [DecidableEq ι] in
theorem allInv_init {f : Family ι H} (h : FamilyInit f) : AllInv f := by
  obtain ⟨pid, p, rfl, htable, hlog, hframes⟩ := h
  have hnone : AllInv (fun _ => none : Family ι H) := fun _ _ hp => by cases hp
  refine hnone.update ⟨?_, fun t frame hmem => ?_, ?_⟩
  · rw [htable, hlog]
    exact ⟨fun i hi => absurd hi (Nat.not_lt_zero i), rfl, Nat.zero_le _⟩
  · rcases hframes t with hf | hf <;> rw [hf] at hmem
    · simp at hmem
    · rw [List.mem_singleton.1 hmem]
      trivial
  · rw [hlog]
    exact .nil

theorem allInv_step {f f' : Family ι H} (h : AllInv f) (hstep : FamilyStep f f') : AllInv f' := by
  cases hstep with
  | inside hp hs => exact h.update ((h _ _ hp).step hs)
  | @fork pid child p t handlers did rest hp _ hpos hf =>
    have hinv := h _ _ hp
    have hall := hinv.backed t
    rw [hf] at hall
    obtain ⟨-, hdid, hforks⟩ := hall _ List.mem_cons_self
    rw [List.drop_zero] at hdid
    have hrest (frame : Frame H) (hmem : frame ∈ rest) : Backed p.log t frame := hall frame (List.mem_cons_of_mem _ hmem)
    refine (h.update (hinv.goto fun frame hmem => ?_)).update (hinv.twin fun frame hmem => ?_)
    · rcases List.mem_cons.1 hmem with rfl | hmem
      · refine ⟨Nat.zero_le _, by omega, ?_, hforks⟩
        rw [hdid]
        rfl
      · exact hrest frame hmem
    · rcases List.mem_cons.1 hmem with rfl | hmem
      · refine ⟨Nat.zero_le _, ?_, hforks⟩
        rw [hdid]
        rfl
      · exact hrest frame hmem
  | @rawFork pid child p t rest hp _ _ hf =>
    have hinv := h _ _ hp
    refine h.update (hinv.twin fun frame hmem => ?_)
    rw [← hf] at hmem
    exact hinv.backed t frame hmem

omit [DecidableEq ι] in
theorem Disciplined.legal {log : List (ι × Event H)} (h : Disciplined log) {before after : List (ι × Event H)} {t : ι}
    {e : Event H} (hlog : log = before ++ (t, e) :: after) : Legal before t e := by
  induction h generalizing after with
  | nil => simp at hlog
  | @snoc log u e' _ hlegal ih =>
    rcases List.eq_nil_or_concat' after with rfl | ⟨after', last, rfl⟩
    · obtain ⟨rfl, hlast⟩ := List.append_inj' hlog rfl
      cases hlast
      exact hlegal
    · rw [← List.cons_append, ← List.append_assoc] at hlog
      exact ih (List.append_inj' hlog rfl).1

/-- In every process of a family, however its threads and handlers interleave, register
handlers and fork in turn: at most eight handlers are registered, and a registration is
refused only then; a call of `fork` takes the handlers registered when it begins; and when
it returns it has called the preparations of exactly these in reverse order, forked once,
and then called, in order, their handlers of the parent, also after a failure, or in the
child those of the child. After a failure it returns -1 with the error of the kernel,
whatever the handlers did to `errno`. -/
theorem fork_handlers {f : Family ι H} (h : Reachable FamilyInit FamilyStep f) {pid : Nat} {p : Proc ι H}
    (hp : f pid = some p) :
    p.table.Holds (registeredIn p.log) ∧
      ∀ before t e after, p.log = before ++ (t, e) :: after → Legal before t e := by
  have hinv : AllInv f := h.invariant (fun _ hi => allInv_init hi) fun _ _ hi hs => allInv_step hi hs
  exact ⟨(hinv pid p hp).holds, fun _ _ _ _ hlog => (hinv pid p hp).disciplined.legal hlog⟩

end Runs

/-- A process registers handlers and forks. -/
def demoHandler : AtforkHandler Nat := ⟨some 1, some 2, some 3⟩

def demoProc : Proc Unit Nat := ⟨{}, fun _ => [.code], fun _ => 0, []⟩

def demoLog : List (Unit × Event Nat) := [((), .registered demoHandler), ((), .forks [demoHandler])]

/-- A handler returns to the call that it interrupted. -/
theorem demo_returns {f : Family Unit Nat} {pid : Nat} {p : Proc Unit Nat} (h : Reachable FamilyInit FamilyStep f)
    (frame : Frame Nat) (hcall : frame ≠ .code) (hp : f pid = some p) (hf : p.frames () = [.code, frame, .code]) :
    Reachable FamilyInit FamilyStep (Function.update f pid (some (p.goto () [frame, .code]))) :=
  h.next (.inside hp (.returns hcall hf))

/-- Process 7 forks process 8, and both come back from the call. -/
theorem fork_handlers_demo :
    ∃ (f : Family Unit Nat) (parent child : Proc Unit Nat), f 7 = some parent ∧ f 8 = some child ∧
      parent.log = demoLog ++ [((), .returned 8 0 [demoHandler] [.prepare 1, .forked 8, .parent 2])] ∧
      child.log = demoLog ++ [((), .returned 0 0 [demoHandler] [.prepare 1, .forked 0, .child 3])] ∧
      (parent.table.Holds (registeredIn parent.log) ∧
        ∀ before t e after, parent.log = before ++ (t, e) :: after → Legal before t e) ∧
      (child.table.Holds (registeredIn child.log) ∧
        ∀ before t e after, child.log = before ++ (t, e) :: after → Legal before t e) := by
  suffices hrun : ∃ (f : Family Unit Nat) (parent child : Proc Unit Nat), Reachable FamilyInit FamilyStep f ∧
      f 7 = some parent ∧ f 8 = some child ∧
      parent.log = demoLog ++ [((), .returned 8 0 [demoHandler] [.prepare 1, .forked 8, .parent 2])] ∧
      child.log = demoLog ++ [((), .returned 0 0 [demoHandler] [.prepare 1, .forked 0, .child 3])] by
    obtain ⟨f, parent, child, h, hp, hc, hlog, hlog'⟩ := hrun
    exact ⟨f, parent, child, hp, hc, hlog, hlog', fork_handlers h hp, fork_handlers h hc⟩
  have hstart : Reachable FamilyInit FamilyStep (Function.update (fun _ => none) 7 (some demoProc)) :=
    .start ⟨7, demoProc, rfl, rfl, rfl, fun _ => .inr rfl⟩
  have hatfork := hstart.next (.inside (Function.update_self ..) (.atfork (t := ()) demoHandler rfl))
  have hfork := hatfork.next (.inside (Function.update_self ..) (.fork (t := ()) rfl))
  have hprepare := hfork.next (.inside (Function.update_self ..) (.prepare (t := ()) rfl rfl))
  have hprepared := demo_returns hprepare (.prepare [demoHandler] 0 [.prepare 1]) (by rintro ⟨⟩)
    (Function.update_self ..) rfl
  have hforked := hprepared.next (@FamilyStep.fork _ _ _ _ 7 8 _ () _ _ _ (Function.update_self ..) rfl (by decide) rfl)
  -- the child goes first
  have hchild := hforked.next (.inside (Function.update_self ..) (.child (t := ()) rfl rfl))
  have hcalled := demo_returns hchild (.child [demoHandler] 1 [.prepare 1, .forked 0, .child 3]) (by rintro ⟨⟩)
    (Function.update_self ..) rfl
  have hborn := hcalled.next (.inside (Function.update_self ..) (.childEnd (t := ()) rfl))
  have hparent := hborn.next (@FamilyStep.inside _ _ _ _ 7 _ _ rfl (.parent (t := ()) rfl rfl))
  have hanswered := demo_returns hparent (.parent [demoHandler] 1 8 [.prepare 1, .forked 8, .parent 2]) (by rintro ⟨⟩)
    (Function.update_self ..) rfl
  have hdone := hanswered.next (.inside (Function.update_self ..) (.parentEnd (t := ()) rfl))
  exact ⟨_, _, _, hdone, Function.update_self .., rfl, rfl, rfl⟩

end MiniLibc.Process
