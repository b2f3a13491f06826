import MiniLibc.Lib.Runs
/-!
# Who holds a thread control

A thread's control and its stack as those who deal with them see them: the
creator until the thread is published or its creation fails, then whoever
claims the control, one at a time, until it is freed. The registry, the handles
and the lock are left out.
-/
open MiniLibc.Runs

namespace MiniLibc.Thread

/-- `MINI_THREAD_JOINABLE` to `MINI_THREAD_REAPING`. -/
inductive Lifecycle where
  | joinable
  | joining
  | detached
  | reaping
deriving DecidableEq, Repr

/-- The fields of `struct mini_thread_control` that the lifecycle works on. -/
structure Control where
  tid : Nat
  clearTid : Int
  result : Int
  lifecycle : Lifecycle
  published : Bool
deriving DecidableEq, Repr

/-- What `thrd_create` stores in a control before the thread exists. -/
def Control.new : Control := ⟨0, -1, 0, .joinable, false⟩

/-- The kernel's thread for a control. -/
inductive Task where
  | unborn
  /-- `clone` gave it its id, and it has not run. -/
  | born (tid : Nat)
  | running (tid : Nat)
  | exited (tid : Nat)
deriving DecidableEq, Repr

def Task.tid? : Task → Option Nat
  | .unborn => none
  | .born tid | .running tid | .exited tid => some tid

/-- How a control was claimed. -/
inductive Claim where
  | join
  | detach
  | reap
deriving DecidableEq, Repr

/-- The state of a claimed control. -/
def Claim.state : Claim → Lifecycle
  | .join => .joining
  | .detach | .reap => .reaping

/-- The state it gets back when the claimant fails. -/
def Claim.restored : Claim → Lifecycle
  | .join | .detach => .joinable
  | .reap => .detached

/-- What an agent is about to do with a control. -/
inductive Stage where
  | none
  | inserting
  | cloning
  | publishing (tid : Nat)
  /-- The creation failed: unlink, unmap, free. -/
  | discarding
  | unmappingNew
  | freeingNew
  /-- It waits for the thread. -/
  | waiting
  | unmapping (claim : Claim)
  | restoring (claim : Claim)
  | unlinking (claim : Claim)
  | freeing (claim : Claim)
deriving DecidableEq, Repr

/-- A control and its stack: `unmaps` and `frees` count how often the stack was
unmapped and the control freed. -/
structure Custody (α : Type) where
  control : Control
  task : Task
  listed : Prop
  unmaps : Nat
  frees : Nat
  stage : α → Stage

namespace Custody

variable {α : Type} [DecidableEq α]

def move (f : Custody α) (a : α) (s : Stage) : Custody α := { f with stage := Function.update f.stage a s }

/-- Nobody made the control yet. -/
structure Unmade (f : Custody α) : Prop where
  control : f.control = .new
  task : f.task = .unborn
  listed : ¬f.listed
  unmaps : f.unmaps = 0
  frees : f.frees = 0

inductive Step : Custody α → Custody α → Prop where
  | make {f : Custody α} {a : α} : f.Unmade → (∀ b, f.stage b = .none) → Step f (f.move a .inserting)
  | insert {f : Custody α} {a : α} : f.stage a = .inserting → Step f ({ f with listed := True }.move a .cloning)
  | clone {f : Custody α} {a : α} {tid : Nat} : f.stage a = .cloning → 0 < tid →
    Step f ({ f with task := .born tid }.move a (.publishing tid))
  | cloneFail {f : Custody α} {a : α} : f.stage a = .cloning → Step f (f.move a .discarding)
  | discard {f : Custody α} {a : α} : f.stage a = .discarding →
    Step f ({ f with listed := False }.move a .unmappingNew)
  | unmapNew {f : Custody α} {a : α} {done : Bool} : f.stage a = .unmappingNew →
    Step f ({ f with unmaps := f.unmaps + done.toNat }.move a .freeingNew)
  | freeNew {f : Custody α} {a : α} : f.stage a = .freeingNew → Step f ({ f with frees := f.frees + 1 }.move a .none)
  | publish {f : Custody α} {a : α} {tid : Nat} : f.stage a = .publishing tid →
    Step f ({ f with control := { f.control with tid := tid, published := true } }.move a .none)
  /-- The kernel starts the thread. -/
  | run {f : Custody α} {tid : Nat} : f.task = .born tid →
    Step f { f with task := .running tid, control := { f.control with clearTid := tid } }
  | store {f : Custody α} {tid : Nat} {result : Int} : f.task = .running tid →
    Step f { f with control := { f.control with result } }
  /-- The kernel ends the thread. -/
  | exit {f : Custody α} {tid : Nat} : f.task = .running tid →
    Step f { f with task := .exited tid, control := { f.control with clearTid := 0 } }
  | join {f : Custody α} {a : α} : f.listed → f.control.published = true → f.control.lifecycle = .joinable →
    Step f ({ f with control := { f.control with lifecycle := .joining } }.move a .waiting)
  | detachDead {f : Custody α} {a : α} : f.listed → f.control.published = true → f.control.lifecycle = .joinable →
    f.control.clearTid = 0 →
    Step f ({ f with control := { f.control with lifecycle := .reaping } }.move a (.unmapping .detach))
  /-- A thread detaches itself, or another one that is published. -/
  | detach {f : Custody α} : (f.listed ∧ f.control.published = true) ∨ (∃ tid, f.task = .running tid) →
    f.control.lifecycle = .joinable → Step f { f with control := { f.control with lifecycle := .detached } }
  | reap {f : Custody α} {a : α} : f.listed → f.control.published = true → f.control.lifecycle = .detached →
    f.control.clearTid = 0 →
    Step f ({ f with control := { f.control with lifecycle := .reaping } }.move a (.unmapping .reap))
  | waited {f : Custody α} {a : α} : f.stage a = .waiting → f.control.clearTid = 0 →
    Step f (f.move a (.unmapping .join))
  | waitFail {f : Custody α} {a : α} : f.stage a = .waiting → Step f (f.move a (.restoring .join))
  | unmap {f : Custody α} {a : α} {claim : Claim} : f.stage a = .unmapping claim →
    Step f ({ f with unmaps := f.unmaps + 1 }.move a (.unlinking claim))
  | unmapFail {f : Custody α} {a : α} {claim : Claim} : f.stage a = .unmapping claim →
    Step f (f.move a (.restoring claim))
  | restore {f : Custody α} {a : α} {claim : Claim} : f.stage a = .restoring claim →
    Step f ({ f with control := { f.control with lifecycle := claim.restored } }.move a .none)
  | unlink {f : Custody α} {a : α} {claim : Claim} : f.stage a = .unlinking claim →
    Step f ({ f with listed := False }.move a (.freeing claim))
  | free {f : Custody α} {a : α} {claim : Claim} : f.stage a = .freeing claim →
    Step f ({ f with frees := f.frees + 1 }.move a .none)

/-! ## The invariant -/

/-- The thread's word as the kernel keeps it. -/
def Word (f : Custody α) : Prop :=
  match f.task with
  | .unborn => f.control.clearTid = -1
  | .born tid => 0 < tid ∧ f.control.clearTid = -1
  | .running tid => 0 < tid ∧ f.control.clearTid = tid
  | .exited _ => f.control.clearTid = 0

/-- A published control carries the id of its thread. -/
def Named (f : Custody α) : Prop := f.control.published = true → f.task.tid? = some f.control.tid

/-- Inserted, and the stack and the control are in place. -/
structure Placed (f : Custody α) : Prop where
  listed : f.listed
  unmaps : f.unmaps = 0
  frees : f.frees = 0

/-- A published control, and a thread that was born. -/
structure Live (f : Custody α) : Prop extends Placed f where
  published : f.control.published = true
  started : f.task ≠ .unborn

def Exited (f : Custody α) : Prop := ∃ tid, f.task = .exited tid

/-- What holds while an agent is at a stage. -/
def Held (f : Custody α) : Stage → Prop
  | .none => True
  | .inserting => f.Unmade
  | .cloning | .discarding => f.Placed ∧ f.control = .new ∧ f.task = .unborn
  | .publishing tid => f.Placed ∧ f.control.published = false ∧ f.task.tid? = some tid ∧
      (f.control.lifecycle = .joinable ∨ f.control.lifecycle = .detached)
  | .unmappingNew => f.Unmade
  | .freeingNew => ¬f.listed ∧ f.task = .unborn ∧ f.control = .new ∧ f.unmaps ≤ 1 ∧ f.frees = 0
  | .waiting => f.Live ∧ f.control.lifecycle = .joining
  | .unmapping claim => f.Live ∧ f.Exited ∧ f.control.lifecycle = claim.state
  | .restoring claim => f.Live ∧ f.control.lifecycle = claim.state
  | .unlinking claim => f.listed ∧ f.control.published = true ∧ f.Exited ∧ f.unmaps = 1 ∧ f.frees = 0 ∧
      f.control.lifecycle = claim.state
  | .freeing claim => ¬f.listed ∧ f.control.published = true ∧ f.Exited ∧ f.unmaps = 1 ∧ f.frees = 0 ∧
      f.control.lifecycle = claim.state

/-- Published, and anybody may claim it. -/
def Open (f : Custody α) : Prop :=
  f.Live ∧ (f.control.lifecycle = .joinable ∨ f.control.lifecycle = .detached)

/-- The creation failed. -/
def Dropped (f : Custody α) : Prop :=
  ¬f.listed ∧ f.task = .unborn ∧ f.control = .new ∧ f.unmaps ≤ 1 ∧ f.frees = 1

def Reclaimed (f : Custody α) : Prop :=
  ¬f.listed ∧ f.control.published = true ∧ f.Exited ∧ f.unmaps = 1 ∧ f.frees = 1 ∧
    (f.control.lifecycle = .joining ∨ f.control.lifecycle = .reaping)

/-- What holds while no agent is at a stage. -/
def Resting (f : Custody α) : Prop := f.Unmade ∨ f.Open ∨ f.Dropped ∨ f.Reclaimed

structure Inv (f : Custody α) : Prop where
  word : f.Word
  named : f.Named
  alone : ∀ a b, f.stage a ≠ .none → f.stage b ≠ .none → a = b
  held : ∀ a, f.Held (f.stage a)
  resting : (∀ a, f.stage a = .none) → f.Resting

omit [DecidableEq α] in
theorem Inv.clearTid_zero {f : Custody α} (h : Inv f) : f.control.clearTid = 0 ↔ f.Exited := by
  have hword := h.word
  unfold Word at hword
  unfold Exited
  cases ht : f.task with
  | unborn =>
    rw [ht] at hword
    simp [hword]
  | born tid =>
    rw [ht] at hword
    simp [hword.2]
  | running tid =>
    rw [ht] at hword
    simp [hword.2, hword.1.ne']
  | exited tid =>
    rw [ht] at hword
    simp [hword]

/-- Nobody but `a` was at a stage, and `a` goes to `s`. -/
theorem Inv.of_moves {f f' : Custody α} {a : α} {s : Stage} (hstage : f'.stage = Function.update f.stage a s)
    (hothers : ∀ b, f.stage b ≠ .none → b = a) (hword : f'.Word) (hnamed : f'.Named) (hheld : f'.Held s)
    (hresting : s = .none → f'.Resting) : Inv f' := by
  have hnone : ∀ b, b ≠ a → f'.stage b = .none := by
    intro b hb
    rw [hstage, Function.update_of_ne hb]
    by_contra hne
    exact hb (hothers b hne)
  have hself : f'.stage a = s := by rw [hstage, Function.update_self]
  refine ⟨hword, hnamed, ?_, ?_, ?_⟩
  · intro b c hb hc
    have hba : b = a := by
      by_contra hne
      exact hb (hnone b hne)
    have hca : c = a := by
      by_contra hne
      exact hc (hnone c hne)
    rw [hba, hca]
  · intro b
    by_cases hb : b = a
    · rw [hb, hself]
      exact hheld
    · rw [hnone b hb]
      trivial
  · intro hall
    exact hresting (hself.symm.trans (hall a))

omit [DecidableEq α] in
/-- Nobody changes its stage. -/
theorem Inv.stays {f f' : Custody α} (h : Inv f) (hword : f'.Word) (hnamed : f'.Named) (hstage : f'.stage = f.stage)
    (hheld : ∀ a, f'.Held (f.stage a)) (hresting : (∀ a, f.stage a = .none) → f'.Resting) : Inv f' where
  word := hword
  named := hnamed
  alone := by
    rw [hstage]
    exact h.alone
  held a := by
    rw [hstage]
    exact hheld a
  resting hall := by
    rw [hstage] at hall
    exact hresting hall

/-- An agent at a stage goes on. -/
theorem Inv.moves {f f' : Custody α} (h : Inv f) {a : α} {s : Stage} (ha : f.stage a ≠ .none)
    (hstage : f'.stage = Function.update f.stage a s) (hword : f'.Word) (hnamed : f'.Named) (hheld : f'.Held s)
    (hresting : s = .none → f'.Resting) : Inv f' :=
  .of_moves hstage (fun b hb => h.alone b a hb ha) hword hnamed hheld hresting

omit [DecidableEq α] in
/-- Nobody is at a stage of a control that can be claimed. -/
theorem Inv.unclaimed {f : Custody α} (h : Inv f) (hpublished : f.control.published = true)
    (hstate : f.control.lifecycle = .joinable ∨ f.control.lifecycle = .detached) (hlisted : f.listed) (b : α) :
    f.stage b = .none := by
  have hheld := h.held b
  cases hs : f.stage b with
  | none => rfl
  | inserting | unmappingNew =>
    rw [hs] at hheld
    exact absurd hlisted hheld.listed
  | cloning | discarding =>
    rw [hs] at hheld
    rw [hheld.2.1] at hpublished
    cases hpublished
  | publishing tid =>
    rw [hs] at hheld
    rw [hheld.2.1] at hpublished
    cases hpublished
  | freeingNew =>
    rw [hs] at hheld
    exact absurd hlisted hheld.1
  | freeing =>
    rw [hs] at hheld
    exact absurd hlisted hheld.1
  | waiting =>
    rw [hs] at hheld
    rw [hheld.2] at hstate
    simp at hstate
  | unmapping claim | unlinking claim | restoring claim =>
    rw [hs] at hheld
    have hclaim : f.control.lifecycle = claim.state := by
      simp only [Held] at hheld
      tauto
    rw [hclaim] at hstate
    cases claim <;> simp [Claim.state] at hstate

omit [DecidableEq α] in
theorem Inv.live {f : Custody α} (h : Inv f) (hpublished : f.control.published = true)
    (hstate : f.control.lifecycle = .joinable ∨ f.control.lifecycle = .detached) (hlisted : f.listed) : f.Live := by
  rcases h.resting (h.unclaimed hpublished hstate hlisted) with hr | hr | hr | hr
  · exact absurd hlisted hr.listed
  · exact hr.1
  · exact absurd hlisted hr.1
  · exact absurd hlisted hr.1

/-- An agent claims a control nobody has claimed. -/
theorem Inv.claims {f f' : Custody α} (h : Inv f) {a : α} {s : Stage} (hpublished : f.control.published = true)
    (hstate : f.control.lifecycle = .joinable ∨ f.control.lifecycle = .detached) (hlisted : f.listed)
    (hstage : f'.stage = Function.update f.stage a s) (hword : f'.Word) (hnamed : f'.Named)
    (hheld : f.Live → f'.Held s) (hs : s ≠ .none) : Inv f' :=
  .of_moves hstage (fun b hb => absurd (h.unclaimed hpublished hstate hlisted b) hb) hword hnamed
    (hheld (h.live hpublished hstate hlisted)) fun he => absurd he hs

omit [DecidableEq α] in
/-- A thread that runs has its control and its stack. -/
theorem Inv.running {f : Custody α} (h : Inv f) {tid : Nat} (ht : f.task = .running tid) :
    f.Placed ∧ (f.control.lifecycle = .joinable → (∃ a, f.stage a = .publishing tid) ∨ f.Open) := by
  have hnot : ¬f.Exited := by
    rintro ⟨u, hu⟩
    rw [ht] at hu
    cases hu
  have hborn : f.task ≠ .unborn := by
    rw [ht]
    exact nofun
  by_cases hall : ∀ a, f.stage a = .none
  · rcases h.resting hall with hr | hr | hr | hr
    · exact absurd hr.task hborn
    · exact ⟨hr.1.toPlaced, fun _ => .inr hr⟩
    · exact absurd hr.2.1 hborn
    · exact absurd hr.2.2.1 hnot
  · obtain ⟨a, ha⟩ := not_forall.1 hall
    have hheld := h.held a
    cases hs : f.stage a with
    | none => exact absurd hs ha
    | inserting | unmappingNew =>
      rw [hs] at hheld
      exact absurd hheld.task hborn
    | cloning | discarding =>
      rw [hs] at hheld
      exact absurd hheld.2.2 hborn
    | publishing u =>
      rw [hs] at hheld
      obtain ⟨hplaced, -, hu, -⟩ := hheld
      rw [ht] at hu
      cases hu
      exact ⟨hplaced, fun _ => .inl ⟨a, hs⟩⟩
    | freeingNew =>
      rw [hs] at hheld
      exact absurd hheld.2.1 hborn
    | waiting =>
      rw [hs] at hheld
      refine ⟨hheld.1.toPlaced, fun hj => ?_⟩
      rw [hheld.2] at hj
      cases hj
    | unmapping claim =>
      rw [hs] at hheld
      exact absurd hheld.2.1 hnot
    | restoring claim =>
      rw [hs] at hheld
      refine ⟨hheld.1.toPlaced, fun hj => ?_⟩
      rw [hheld.2] at hj
      cases claim <;> cases hj
    | unlinking claim | freeing claim =>
      rw [hs] at hheld
      exact absurd hheld.2.2.1 hnot

omit [DecidableEq α] in
/-- What the kernel does to a thread changes neither the holder nor the place
of the control. -/
theorem Inv.kernel {f : Custody α} (h : Inv f) {task : Task} {clearTid result : Int}
    (hword : ({ f with task, control := { f.control with clearTid, result } } : Custody α).Word) (hborn : f.task ≠ .unborn) (hnot : ¬f.Exited) (htid : task.tid? = f.task.tid?) :
    Inv { f with task, control := { f.control with clearTid, result } } := by
  have hunborn : task ≠ .unborn := by
    rintro rfl
    cases ht : f.task with
    | unborn => exact hborn ht
    | _ =>
      rw [ht] at htid
      cases htid
  have hlive : f.Live → ({ f with task, control := { f.control with clearTid, result } } : Custody α).Live :=
    fun hl => ⟨⟨hl.listed, hl.unmaps, hl.frees⟩, hl.published, hunborn⟩
  refine h.stays hword (fun hp => htid.trans (h.named hp)) rfl ?_ ?_
  · intro a
    have hs := h.held a
    cases hstage : f.stage a with
    | none => trivial
    | inserting | unmappingNew =>
      rw [hstage] at hs
      exact absurd hs.task hborn
    | cloning | discarding =>
      rw [hstage] at hs
      exact absurd hs.2.2 hborn
    | publishing tid =>
      rw [hstage] at hs
      exact ⟨⟨hs.1.listed, hs.1.unmaps, hs.1.frees⟩, hs.2.1, htid.trans hs.2.2.1, hs.2.2.2⟩
    | freeingNew =>
      rw [hstage] at hs
      exact absurd hs.2.1 hborn
    | waiting =>
      rw [hstage] at hs
      exact ⟨hlive hs.1, hs.2⟩
    | unmapping claim =>
      rw [hstage] at hs
      exact absurd hs.2.1 hnot
    | restoring claim =>
      rw [hstage] at hs
      exact ⟨hlive hs.1, hs.2⟩
    | unlinking claim | freeing claim =>
      rw [hstage] at hs
      exact absurd hs.2.2.1 hnot
  · intro hall
    rcases h.resting hall with hr | hr | hr | hr
    · exact absurd hr.task hborn
    · exact .inr (.inl ⟨hlive hr.1, hr.2⟩)
    · exact absurd hr.2.1 hborn
    · exact absurd hr.2.2.1 hnot

omit [DecidableEq α] in
theorem Inv.detach {f : Custody α} (h : Inv f)
    (hwho : (f.listed ∧ f.control.published = true) ∨ (∃ tid, f.task = .running tid))
    (hj : f.control.lifecycle = .joinable) : Inv { f with control := { f.control with lifecycle := .detached } } := by
  have hopen : f.Open → Inv { f with control := { f.control with lifecycle := .detached } } := by
    rintro ⟨hl, hstate⟩
    have hnone := h.unclaimed hl.published hstate hl.listed
    refine h.stays h.word h.named rfl (fun a => ?_) fun _ => ?_
    · rw [hnone a]
      trivial
    · exact .inr (.inl ⟨⟨⟨hl.listed, hl.unmaps, hl.frees⟩, hl.published, hl.started⟩, .inr rfl⟩)
  rcases hwho with ⟨hl, hp⟩ | ⟨tid, ht⟩
  · exact hopen ⟨h.live hp (.inl hj) hl, .inl hj⟩
  · rcases (h.running ht).2 hj with ⟨a, ha⟩ | ho
    · -- the creator has not published the control yet
      have hs := h.held a
      rw [ha] at hs
      obtain ⟨hplaced, hp, htid, -⟩ := hs
      refine h.stays h.word h.named rfl (fun b => ?_) fun hall => ?_
      · by_cases hb : f.stage b = .none
        · rw [hb]
          trivial
        · have hba : b = a := h.alone b a hb (by rw [ha]; exact nofun)
          rw [hba, ha]
          exact ⟨⟨hplaced.listed, hplaced.unmaps, hplaced.frees⟩, hp, htid, .inr rfl⟩
      · rw [hall a] at ha
        cases ha
    · exact hopen ho

theorem Inv.step {f f' : Custody α} (h : Inv f) (hs : Step f f') : Inv f' := by
  have hat : ∀ {a s}, f.stage a = s → s ≠ .none → f.stage a ≠ .none := by
    rintro a s rfl hne
    exact hne
  have hheld : ∀ {a s}, f.stage a = s → f.Held s := by
    rintro a s rfl
    exact h.held a
  cases hs with
  | make hu hnone =>
    exact .of_moves rfl (fun b hb => absurd (hnone b) hb) h.word h.named
      ⟨hu.control, hu.task, hu.listed, hu.unmaps, hu.frees⟩ nofun
  | insert ha =>
    have hu := hheld ha
    exact h.moves (hat ha nofun) rfl h.word h.named ⟨⟨trivial, hu.unmaps, hu.frees⟩, hu.control, hu.task⟩ nofun
  | clone ha htid =>
    obtain ⟨hp, hc, ht⟩ := hheld ha
    refine h.moves (hat ha nofun) rfl ?_ ?_ ⟨⟨hp.listed, hp.unmaps, hp.frees⟩, ?_, rfl, .inl ?_⟩ nofun
    · refine ⟨htid, ?_⟩
      show f.control.clearTid = -1
      rw [hc]
      rfl
    · intro hpublished
      have hpublished : f.control.published = true := hpublished
      rw [hc] at hpublished
      cases hpublished
    · show f.control.published = false
      rw [hc]
      rfl
    · show f.control.lifecycle = .joinable
      rw [hc]
      rfl
  | cloneFail ha =>
    obtain ⟨hp, hc, ht⟩ := hheld ha
    exact h.moves (hat ha nofun) rfl h.word h.named ⟨⟨hp.listed, hp.unmaps, hp.frees⟩, hc, ht⟩ nofun
  | discard ha =>
    obtain ⟨hp, hc, ht⟩ := hheld ha
    exact h.moves (hat ha nofun) rfl h.word h.named ⟨hc, ht, id, hp.unmaps, hp.frees⟩ nofun
  | @unmapNew a done ha =>
    have hu := hheld ha
    refine h.moves (hat ha nofun) rfl h.word h.named ⟨hu.listed, hu.task, hu.control, ?_, hu.frees⟩ nofun
    show f.unmaps + done.toNat ≤ 1
    rw [hu.unmaps, Nat.zero_add]
    exact done.toNat_le
  | freeNew ha =>
    obtain ⟨hl, ht, hc, hu, hf⟩ := hheld ha
    refine h.moves (hat ha nofun) rfl h.word h.named trivial (fun _ => .inr (.inr (.inl ⟨hl, ht, hc, hu, ?_⟩)))
    show f.frees + 1 = 1
    rw [hf]
  | publish ha =>
    obtain ⟨hp, -, ht, hl⟩ := hheld ha
    refine h.moves (hat ha nofun) rfl h.word (fun _ => ht) trivial ?_
    refine fun _ => .inr (.inl ⟨⟨⟨hp.listed, hp.unmaps, hp.frees⟩, rfl, ?_⟩, hl⟩)
    intro hu
    have hu : f.task = .unborn := hu
    rw [hu] at ht
    cases ht
  | run ht =>
    have hword := h.word
    unfold Word at hword
    rw [ht] at hword
    exact h.kernel ⟨hword.1, rfl⟩ (by rw [ht]; exact nofun) (by rintro ⟨u, hu⟩; rw [ht] at hu; cases hu) (by rw [ht]; rfl)
  | store ht =>
    exact h.kernel h.word (by rw [ht]; exact nofun) (by rintro ⟨u, hu⟩; rw [ht] at hu; cases hu) rfl
  | exit ht =>
    exact h.kernel rfl (by rw [ht]; exact nofun) (by rintro ⟨u, hu⟩; rw [ht] at hu; cases hu) (by rw [ht]; rfl)
  | join hl hp hj =>
    exact h.claims hp (.inl hj) hl rfl h.word h.named (fun hl => ⟨⟨⟨hl.listed, hl.unmaps, hl.frees⟩, hl.published, hl.started⟩, rfl⟩)
      nofun
  | detachDead hl hp hj hz =>
    exact h.claims hp (.inl hj) hl rfl h.word h.named
      (fun hl => ⟨⟨⟨hl.listed, hl.unmaps, hl.frees⟩, hl.published, hl.started⟩, h.clearTid_zero.1 hz, rfl⟩) nofun
  | detach hwho hj => exact h.detach hwho hj
  | reap hl hp hd hz =>
    exact h.claims hp (.inr hd) hl rfl h.word h.named
      (fun hl => ⟨⟨⟨hl.listed, hl.unmaps, hl.frees⟩, hl.published, hl.started⟩, h.clearTid_zero.1 hz, rfl⟩) nofun
  | waited ha hz =>
    obtain ⟨hl, hj⟩ := hheld ha
    exact h.moves (hat ha nofun) rfl h.word h.named
      ⟨⟨⟨hl.listed, hl.unmaps, hl.frees⟩, hl.published, hl.started⟩, h.clearTid_zero.1 hz, hj⟩ nofun
  | waitFail ha =>
    obtain ⟨hl, hj⟩ := hheld ha
    exact h.moves (hat ha nofun) rfl h.word h.named
      ⟨⟨⟨hl.listed, hl.unmaps, hl.frees⟩, hl.published, hl.started⟩, hj⟩ nofun
  | unmap ha =>
    obtain ⟨hl, hz, hj⟩ := hheld ha
    exact h.moves (hat ha nofun) rfl h.word h.named
      ⟨hl.listed, hl.published, hz, congrArg (· + 1) hl.unmaps, hl.frees, hj⟩ nofun
  | unmapFail ha =>
    obtain ⟨hl, hz, hj⟩ := hheld ha
    exact h.moves (hat ha nofun) rfl h.word h.named
      ⟨⟨⟨hl.listed, hl.unmaps, hl.frees⟩, hl.published, hl.started⟩, hj⟩ nofun
  | @restore a claim ha =>
    obtain ⟨hl, hj⟩ := hheld ha
    refine h.moves (hat ha nofun) rfl h.word h.named trivial ?_
    refine fun _ => .inr (.inl ⟨⟨⟨hl.listed, hl.unmaps, hl.frees⟩, hl.published, hl.started⟩, ?_⟩)
    cases claim with
    | join | detach => exact .inl rfl
    | reap => exact .inr rfl
  | unlink ha =>
    obtain ⟨hl, hp, hz, hu, hf, hj⟩ := hheld ha
    exact h.moves (hat ha nofun) rfl h.word h.named ⟨id, hp, hz, hu, hf, hj⟩ nofun
  | @free a claim ha =>
    obtain ⟨hl, hp, hz, hu, hf, hj⟩ := hheld ha
    refine h.moves (hat ha nofun) rfl h.word h.named trivial ?_
    refine fun _ => .inr (.inr (.inr ⟨hl, hp, hz, hu, congrArg (· + 1) hf, ?_⟩))
    show f.control.lifecycle = .joining ∨ f.control.lifecycle = .reaping
    rw [hj]
    cases claim with
    | join => exact .inl rfl
    | detach | reap => exact .inr rfl

/-! ## What a holder can rely on -/

omit [DecidableEq α] in
/-- The counts of a control some agent is at a stage of. -/
theorem Inv.held_counts {f : Custody α} (h : Inv f) {a : α} (ha : f.stage a ≠ .none) : f.unmaps ≤ 1 ∧ f.frees = 0 := by
  have hheld := h.held a
  cases hs : f.stage a with
  | none => exact absurd hs ha
  | inserting | unmappingNew =>
    rw [hs] at hheld
    exact ⟨hheld.unmaps.le.trans (Nat.zero_le 1), hheld.frees⟩
  | cloning | discarding | publishing | waiting | unmapping | restoring =>
    rw [hs] at hheld
    obtain ⟨hp, -⟩ := hheld
    exact ⟨hp.unmaps.le.trans (Nat.zero_le 1), hp.frees⟩
  | freeingNew =>
    rw [hs] at hheld
    obtain ⟨-, -, -, hu, hf⟩ := hheld
    exact ⟨hu, hf⟩
  | unlinking | freeing =>
    rw [hs] at hheld
    obtain ⟨-, -, -, hu, hf, -⟩ := hheld
    exact ⟨hu.le, hf⟩

omit [DecidableEq α] in
theorem Inv.counts {f : Custody α} (h : Inv f) : f.unmaps ≤ 1 ∧ f.frees ≤ 1 := by
  by_cases hall : ∀ a, f.stage a = .none
  · rcases h.resting hall with hr | ⟨hr, -⟩ | ⟨-, -, -, hu, hf⟩ | ⟨-, -, -, hu, hf, -⟩
    · simp [hr.unmaps, hr.frees]
    · simp [hr.unmaps, hr.frees]
    · exact ⟨hu, hf.le⟩
    · exact ⟨hu.le, hf.le⟩
  · obtain ⟨a, ha⟩ := not_forall.1 hall
    obtain ⟨hu, hf⟩ := h.held_counts ha
    exact ⟨hu, hf.le.trans (Nat.zero_le 1)⟩

/-! ## What a step keeps -/

/-- A published control keeps its id. -/
theorem Step.published {f f' : Custody α} (hs : Step f f') (h : Inv f) (hp : f.control.published = true) :
    f'.control.published = true ∧ f'.control.tid = f.control.tid := by
  cases hs with
  | @publish a tid ha =>
    have hheld := h.held a
    rw [ha] at hheld
    obtain ⟨-, hnot, -⟩ := hheld
    rw [hnot] at hp
    cases hp
  | _ => exact ⟨hp, rfl⟩

/-- A thread that exited stays so, and its result stays. -/
theorem Step.exited {f f' : Custody α} (hs : Step f f') (h : Inv f) (he : f.Exited) :
    f'.Exited ∧ f'.control.result = f.control.result := by
  cases hs with
  | @clone a tid ha =>
    have hheld := h.held a
    rw [ha] at hheld
    obtain ⟨tid, ht⟩ := he
    rw [hheld.2.2] at ht
    cases ht
  | run ht | store ht | exit ht =>
    obtain ⟨tid, ht'⟩ := he
    rw [ht] at ht'
    cases ht'
  | _ => exact ⟨he, rfl⟩

theorem Step.unmaps_le {f f' : Custody α} (hs : Step f f') : f.unmaps ≤ f'.unmaps := by
  cases hs with
  | unmapNew ha => exact Nat.le_add_right ..
  | unmap ha => exact Nat.le_succ _
  | _ => exact Nat.le_refl _

/-- The stack is unmapped, or the control of a born thread freed, by its only
holder, which has found the thread gone. -/
theorem Step.releases {f f' : Custody α} (hs : Step f f') (h : Inv f) (hborn : f.task ≠ .unborn)
    (hc : f'.unmaps ≠ f.unmaps ∨ f'.frees ≠ f.frees) :
    f.control.clearTid = 0 ∧ f.control.published = true ∧ ∃ a claim, (∀ b, b ≠ a → f.stage b = .none) ∧
      (f.stage a = .unmapping claim ∧ f'.stage a = .unlinking claim ∨
        f.stage a = .freeing claim ∧ f'.stage a = .none) := by
  have hothers : ∀ {a}, f.stage a ≠ .none → ∀ b, b ≠ a → f.stage b = .none := by
    intro a ha b hb
    by_contra hne
    exact hb (h.alone b a hne ha)
  cases hs with
  | @unmapNew a done ha =>
    have hheld := h.held a
    rw [ha] at hheld
    exact absurd hheld.task hborn
  | @freeNew a ha =>
    have hheld := h.held a
    rw [ha] at hheld
    exact absurd hheld.2.1 hborn
  | @unmap a claim ha =>
    have hheld := h.held a
    rw [ha] at hheld
    obtain ⟨hl, he, -⟩ := hheld
    exact ⟨h.clearTid_zero.2 he, hl.published, a, claim, hothers (by rw [ha]; exact nofun),
      .inl ⟨ha, Function.update_self ..⟩⟩
  | @free a claim ha =>
    have hheld := h.held a
    rw [ha] at hheld
    obtain ⟨-, hp, he, -⟩ := hheld
    exact ⟨h.clearTid_zero.2 he, hp, a, claim, hothers (by rw [ha]; exact nofun), .inr ⟨ha, Function.update_self ..⟩⟩
  | _ =>
    rcases hc with hc | hc
    · exact absurd rfl hc
    · exact absurd rfl hc

/-- How the claimant of a control goes on: when its wait or unmap fails it puts
the control back, and then anybody may claim it. -/
def Follows (f f' : Custody α) (a : α) : Stage → Prop
  | .waiting => f'.stage a = .restoring .join ∨ f.control.clearTid = 0 ∧ f'.stage a = .unmapping .join
  | .unmapping claim => f'.stage a = .restoring claim ∨ f'.unmaps = 1 ∧ f'.stage a = .unlinking claim
  | .restoring claim => f'.Live ∧ f'.control.lifecycle = claim.restored ∧ ∀ b, f'.stage b = .none
  | _ => True

theorem Step.follows {f f' : Custody α} (hs : Step f f') (h : Inv f) {a : α} (ha : f.stage a ≠ .none) :
    f'.stage a = f.stage a ∨ f.Follows f' a (f.stage a) := by
  have hself : ∀ {b s}, f.stage b = s → s ≠ .none → f.stage a = s ∧ b = a := by
    rintro b s rfl hb
    have hba := h.alone b a hb ha
    rw [hba]
    exact ⟨rfl, rfl⟩
  cases hs with
  | make _ hnone => exact absurd (hnone a) ha
  | join hl hp hj | detachDead hl hp hj _ => exact absurd (h.unclaimed hp (.inl hj) hl a) ha
  | reap hl hp hd _ => exact absurd (h.unclaimed hp (.inr hd) hl a) ha
  | run _ | store _ | exit _ | detach _ _ => exact .inl rfl
  | insert hb | clone hb | cloneFail hb | discard hb | unmapNew hb | freeNew hb | publish hb | unlink hb | free hb =>
    obtain ⟨ha', -⟩ := hself hb nofun
    rw [ha']
    exact .inr trivial
  | waited hb hz =>
    obtain ⟨ha', hba⟩ := hself hb nofun
    subst hba
    rw [ha']
    exact .inr (.inr ⟨hz, Function.update_self ..⟩)
  | waitFail hb =>
    obtain ⟨ha', hba⟩ := hself hb nofun
    subst hba
    rw [ha']
    exact .inr (.inl (Function.update_self ..))
  | @unmap b claim hb =>
    obtain ⟨ha', hba⟩ := hself hb nofun
    subst hba
    have hheld := h.held b
    rw [ha'] at hheld ⊢
    exact .inr (.inr ⟨congrArg (· + 1) hheld.1.unmaps, Function.update_self ..⟩)
  | unmapFail hb =>
    obtain ⟨ha', hba⟩ := hself hb nofun
    subst hba
    rw [ha']
    exact .inr (.inl (Function.update_self ..))
  | @restore b claim hb =>
    obtain ⟨ha', hba⟩ := hself hb nofun
    subst hba
    have hheld := h.held b
    rw [ha'] at hheld ⊢
    obtain ⟨hl, -⟩ := hheld
    refine .inr ⟨⟨⟨hl.listed, hl.unmaps, hl.frees⟩, hl.published, hl.started⟩, rfl, fun c => ?_⟩
    by_cases hc : c = b
    · subst hc
      exact Function.update_self ..
    · refine (Function.update_of_ne hc _ _).trans ?_
      by_contra hne
      exact hc (h.alone c b hne ha)

omit [DecidableEq α] in
/-- A published control has one claimant or can be claimed, until it is freed. -/
theorem Inv.never_lost {f : Custody α} (h : Inv f) (hp : f.control.published = true) (hf : f.frees = 0) :
    (∃ a, f.stage a ≠ .none ∧ (∀ b, b ≠ a → f.stage b = .none) ∧
        (f.control.lifecycle = .joining ∨ f.control.lifecycle = .reaping)) ∨
      f.Open ∧ ∀ a, f.stage a = .none := by
  by_cases hall : ∀ a, f.stage a = .none
  · right
    rcases h.resting hall with hr | hr | ⟨-, -, -, -, hr⟩ | ⟨-, -, -, -, hr, -⟩
    · rw [hr.control] at hp
      cases hp
    · exact ⟨hr, hall⟩
    · rw [hf] at hr
      cases hr
    · rw [hf] at hr
      cases hr
  · left
    obtain ⟨a, ha⟩ := not_forall.1 hall
    refine ⟨a, ha, fun b hb => ?_, ?_⟩
    · by_contra hne
      exact hb (h.alone b a hne ha)
    · by_contra hstate
      have hlifecycle : f.control.lifecycle = .joinable ∨ f.control.lifecycle = .detached := by
        cases hl : f.control.lifecycle <;> simp_all
      by_cases hl : f.listed
      · exact ha (h.unclaimed hp hlifecycle hl a)
      · have hheld := h.held a
        cases hs : f.stage a with
        | none => exact ha hs
        | inserting | unmappingNew =>
          rw [hs] at hheld
          rw [hheld.control] at hp
          cases hp
        | cloning | discarding | publishing | waiting | unmapping | restoring =>
          rw [hs] at hheld
          exact hl hheld.1.listed
        | freeingNew =>
          rw [hs] at hheld
          rw [hheld.2.2.1] at hp
          cases hp
        | unlinking =>
          rw [hs] at hheld
          exact hl hheld.1
        | freeing claim =>
          rw [hs] at hheld
          have hclaim := hheld.2.2.2.2.2
          rw [hclaim] at hlifecycle
          cases claim <;> simp [Claim.state] at hlifecycle

end Custody

end MiniLibc.Thread
