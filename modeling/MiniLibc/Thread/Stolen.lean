import MiniLibc.Thread.Notify
/-!
# A signal that a later wait takes

A thread alone at a mutex locks and unlocks it without waiting, so it can lock
it, wait on the condition variable and fall asleep while another thread is
between the increment and the wake of its signal.
-/
open MiniLibc.Runs

namespace MiniLibc.Thread

namespace Mtx

variable {ι : Type} [DecidableEq ι]

/-- A mutex that nobody holds or waits for. -/
structure Resting (m : Mtx ι) : Prop where
  type : m.type.recursive = false
  state : m.state = false
  owner : m.owner = none
  depth : m.depth = 0
  pc : ∀ t, m.pc t = .idle
  held : ∀ t, m.held t = 0

/-- A resting mutex that thread `t` took. -/
def taken (m : Mtx ι) (t : ι) : Mtx ι :=
  { m with
    state := true
    owner := some t
    depth := 1
    held := Function.update m.held t 1
    entry := Function.update m.entry t 0 }

/-- A resting mutex that thread `t` took and gave back. -/
def givenBack (m : Mtx ι) (t : ι) : Mtx ι :=
  { m with
    state := false
    owner := none
    depth := 0
    entry := Function.update m.entry t 1 }

theorem Resting.givenBack {m : Mtx ι} (h : Resting m) (t : ι) : Resting (m.givenBack t) :=
  ⟨h.type, rfl, rfl, rfl, h.pc, h.held⟩

theorem step_advance {m m' : Mtx ι} {t : ι} (h : m.advance t = m') : Step m t m' := by
  rw [← h]
  exact .advance

/-- A thread locks a resting mutex. -/
theorem Resting.lock_run {m : Mtx ι} (h : Resting m) (t : ι) :
    Relation.ReflTransGen (fun m m' => Step m t m') m (m.taken t) := by
  let m₁ := m.call t .lock
  let m₂ := m₁.goto t (.exchange .lock false)
  let m₃ := { m₂ with state := true }.goto t (.storeOwner .lock)
  let m₄ := { m₃ with owner := some t }.goto t (.storeDepth .lock)
  let m₅ := { m₄ with depth := 1 }.goHolding t (.returned .lock .success) 1
  have h₂ : m₁.advance t = m₂ := by
    have hpc : m₁.pc t = .ownedState .lock false := goto_pc _ _ _
    have hs : m₁.state = false := h.state
    unfold advance
    rw [hpc]
    dsimp only
    rw [hs]
    rfl
  have h₃ : m₂.advance t = m₃ := by
    have hpc : m₂.pc t = .exchange .lock false := goto_pc _ _ _
    have hs : m₂.state = false := h.state
    unfold advance
    rw [hpc]
    dsimp only
    rw [hs]
    rfl
  have h₄ : m₃.advance t = m₄ := by
    have hpc : m₃.pc t = .storeOwner .lock := goto_pc _ _ _
    unfold advance
    rw [hpc]
  have h₅ : m₄.advance t = m₅ := by
    have hpc : m₄.pc t = .storeDepth .lock := goto_pc _ _ _
    have hheld : m₄.held t = 0 := h.held t
    unfold advance
    rw [hpc]
    dsimp only
    rw [hheld]
  have h₆ : m₅.advance t = m.taken t := by
    have hpc : m₅.pc t = .returned .lock .success := goHolding_pc _ _ _ _
    have hidle : Function.update m.pc t .idle = m.pc := by
      rw [← h.pc t]
      exact Function.update_eq_self t m.pc
    unfold advance
    rw [hpc]
    simp [m₅, m₄, m₃, m₂, m₁, goto, goHolding, call, taken, hidle, h.held t]
  exact (((((Relation.ReflTransGen.single (.call .lock (h.pc t))).tail (step_advance h₂)).tail (step_advance h₃)).tail
    (step_advance h₄)).tail (step_advance h₅)).tail (step_advance h₆)

/-- A step of a thread inside its call. -/
def Works (t : ι) (m m' : Mtx ι) : Prop := Cnd.InCall m t ∧ Step m t m'

theorem works_advance {m m' : Mtx ι} {t : ι} {p : MtxPc} (hpc : m.pc t = p) (hidle : p ≠ .idle)
    (hr : ∀ op r, p ≠ .returned op r) (h : m.advance t = m') : Works t m m' := by
  refine ⟨⟨?_, ?_⟩, step_advance h⟩
  · rwa [hpc]
  · rwa [hpc]

/-- A thread that took a resting mutex unlocks it. -/
theorem Resting.unlock_run {m : Mtx ι} (h : Resting m) (t : ι) :
    ∃ n, Relation.ReflTransGen (Works t) ((m.taken t).call t .unlock) n ∧ n.pc t = .returned .unlock .success ∧
      n.advance t = m.givenBack t := by
  let m₁ := (m.taken t).call t .unlock
  let m₂ := m₁.goto t (.ownedOwner .unlock false)
  let m₃ := m₂.goto t .unlockDepth
  let m₄ := m₃.goto t .clearDepth
  let m₅ := { m₄ with depth := 0 }.goto t .clearOwner
  let m₆ := { m₅ with owner := none }.goto t .clearState
  let m₇ := { m₆ with state := false }.goHolding t .wake 0
  let m₈ := m₇.goto t (.returned .unlock .success)
  have hpc₁ : m₁.pc t = .ownedState .unlock false := goto_pc _ _ _
  have hpc₂ : m₂.pc t = .ownedOwner .unlock false := goto_pc _ _ _
  have hpc₃ : m₃.pc t = .unlockDepth := goto_pc _ _ _
  have hpc₄ : m₄.pc t = .clearDepth := goto_pc _ _ _
  have hpc₅ : m₅.pc t = .clearOwner := goto_pc _ _ _
  have hpc₆ : m₆.pc t = .clearState := goto_pc _ _ _
  have hpc₇ : m₇.pc t = .wake := goHolding_pc _ _ _ _
  have hpc₈ : m₈.pc t = .returned .unlock .success := goto_pc _ _ _
  have h₂ : m₁.advance t = m₂ := by
    unfold advance
    rw [hpc₁]
    rfl
  have h₃ : m₂.advance t = m₃ := by
    have ho : m₂.owner = some t := rfl
    unfold advance
    rw [hpc₂]
    dsimp only
    rw [if_pos ho]
    rfl
  have h₄ : m₃.advance t = m₄ := by
    have hd : m₃.depth = 1 := rfl
    have hn : ¬ (m₃.type.recursive = true ∧ m₃.depth > 1) := fun hr => by
      rw [hd] at hr
      exact absurd hr.2 (by decide)
    unfold advance
    rw [hpc₃]
    dsimp only
    rw [if_neg (by rw [hd]; decide), if_neg hn, if_neg (by rw [hd]; decide)]
  have h₅ : m₄.advance t = m₅ := by
    unfold advance
    rw [hpc₄]
  have h₆ : m₅.advance t = m₆ := by
    unfold advance
    rw [hpc₅]
  have h₇ : m₆.advance t = m₇ := by
    have hs : m₆.state = true := rfl
    have hheld : m₆.held t = 1 := Function.update_self _ _ _
    unfold advance
    rw [hpc₆]
    dsimp only
    rw [if_pos hs, hheld]
  have hnone : ∀ u op, m₇.pc u ≠ .asleep op := by
    intro u op hu
    by_cases hut : u = t
    · rw [hut, hpc₇] at hu
      cases hu
    · have hidle : m₇.pc u = m.pc u := by
        simp [m₇, m₆, m₅, m₄, m₃, m₂, m₁, goto, goHolding, call, taken, hut]
      rw [hidle, h.pc u] at hu
      cases hu
  have h₈ : Works t m₇ m₈ := by
    refine ⟨⟨?_, ?_⟩, .wakeNone hpc₇ hnone⟩
    · rw [hpc₇]
      simp
    · rw [hpc₇]
      simp
  refine ⟨m₈, ?_, hpc₈, ?_⟩
  · exact ((((((Relation.ReflTransGen.single (works_advance hpc₁ (by simp) (by simp) h₂)).tail
      (works_advance hpc₂ (by simp) (by simp) h₃)).tail (works_advance hpc₃ (by simp) (by simp) h₄)).tail
      (works_advance hpc₄ (by simp) (by simp) h₅)).tail (works_advance hpc₅ (by simp) (by simp) h₆)).tail
      (works_advance hpc₆ (by simp) (by simp) h₇)).tail h₈
  · have hidle : Function.update m.pc t .idle = m.pc := by
      rw [← h.pc t]
      exact Function.update_eq_self t m.pc
    have hheld : Function.update m.held t 0 = m.held := by
      rw [← h.held t]
      exact Function.update_eq_self t m.held
    unfold advance
    rw [hpc₈]
    simp [m₈, m₇, m₆, m₅, m₄, m₃, m₂, m₁, goto, goHolding, call, taken, Mtx.givenBack, hidle, hheld]

end Mtx

namespace Cnd

variable {ι μ : Type} [DecidableEq ι] [DecidableEq μ]

omit [DecidableEq ι] in
theorem inMtx_inMtx (w : Cnd ι μ) (k : μ) (m m' : Mtx ι) : (w.inMtx k m).inMtx k m' = w.inMtx k m' :=
  congrArg (fun mtx => { w with mtx }) (Function.update_idem _ _ _)

omit [DecidableEq ι] [DecidableEq μ] in
theorem bounded_of_notes {w : Cnd ι μ} (h : w.notes < 2 ^ 32) : Bounded w := fun _ _ =>
  h.trans_le (Nat.le_add_left _ _)

/-- A thread in no call runs in a mutex. -/
theorem run_mutex {w : Cnd ι μ} {t : ι} {k : μ} {m : Mtx ι} (hpc : w.pc t = .idle) (hn : w.notes < 2 ^ 32)
    (hrun : Relation.ReflTransGen (fun m m' => Mtx.Step m t m') (w.mtx k) m) :
    Relation.ReflTransGen Moves w (w.inMtx k m) := by
  induction hrun with
  | refl =>
    have he : w.inMtx k (w.mtx k) = w := congrArg (fun mtx => { w with mtx }) (Function.update_eq_self k w.mtx)
    rw [he]
  | @tail m m' _ hs ih =>
    refine ih.tail ⟨?_, bounded_of_notes hn⟩
    rw [← inMtx_inMtx w k m m']
    refine .mutex (w := w.inMtx k m) (t := t) hpc ?_
    rwa [inMtx_self]

/-- A thread in the `mtx_unlock` of its wait runs there. -/
theorem run_unlock {w : Cnd ι μ} {t : ι} {k : μ} {time : Option Timespec} {e : BitVec 32} {m : Mtx ι}
    (hpc : w.pc t = .unlock k time e) (hn : w.notes < 2 ^ 32) (hrun : Relation.ReflTransGen (Mtx.Works t) (w.mtx k) m) :
    Relation.ReflTransGen Moves w (w.inMtx k m) := by
  induction hrun with
  | refl =>
    have he : w.inMtx k (w.mtx k) = w := congrArg (fun mtx => { w with mtx }) (Function.update_eq_self k w.mtx)
    rw [he]
  | @tail m m' _ hs ih =>
    refine ih.tail ⟨?_, bounded_of_notes hn⟩
    rw [← inMtx_inMtx w k m m']
    refine .unlock (w := w.inMtx k m) (t := t) hpc ?_ ?_
    · rw [inMtx_self]
      exact hs.1
    · rw [inMtx_self]
      exact hs.2

/-- After a thread locked the mutex, waited and fell asleep. -/
def slept (w : Cnd ι μ) (t : ι) (k : μ) : Cnd ι μ :=
  ({ w with
      waits := Function.update w.waits t (w.waits t + 1)
      read := Function.update w.read t w.notes }.inMtx k ((w.mtx k).givenBack t)).goto t (.asleep k none w.sequence)

/-- A thread locks a resting mutex, waits, and falls asleep. -/
theorem falls_asleep {w : Cnd ι μ} {t : ι} (k : μ) (hpc : w.pc t = .idle) (hrest : ∀ k, (w.mtx k).Resting)
    (hn : w.notes < 2 ^ 32) : Relation.ReflTransGen Moves w (w.slept t k) := by
  have hbounded : ∀ {w' : Cnd ι μ}, w'.notes = w.notes → Bounded w' := fun he => bounded_of_notes (he.trans_lt hn)
  obtain ⟨m, hunlock, hr, hback⟩ := (hrest k).unlock_run t
  let w₁ := w.inMtx k ((w.mtx k).taken t)
  let w₂ := w₁.goto t (.loadSequence k none)
  let w₃ := w₂.loadSequence t k none
  let w₄ := w₃.inMtx k m
  let w₅ := (w₄.inMtx k ((w₄.mtx k).advance t)).goto t (unlocked k none w.sequence .success)
  let w₆ := w₅.goto t (.asleep k none w.sequence)
  have hidle : ∀ k', (w₁.mtx k').pc t = .idle := by
    intro k'
    rw [inMtx_mtx]
    split
    · exact (hrest k).pc t
    · exact (hrest k').pc t
  have hm₄ : w₄.mtx k = m := inMtx_self _ _ _
  have hlock := run_mutex hpc hn ((hrest k).lock_run t)
  have hwait : Moves w₁ w₂ := ⟨.wait (some k) hpc hidle, hbounded rfl⟩
  have hload : Moves w₂ w₃ := ⟨.loadSequence (goto_pc_self _ _ _), hbounded rfl⟩
  have hm₃ : w₃.mtx k = ((w.mtx k).taken t).call t .unlock := by
    show (w₂.inMtx k ((w₂.mtx k).call t .unlock)).mtx k = _
    rw [inMtx_self]
    exact congrArg (fun m => Mtx.call m t .unlock) (inMtx_self w k ((w.mtx k).taken t))
  have hrun : Relation.ReflTransGen Moves w₃ w₄ := by
    refine run_unlock (loadSequence_self w₂ t k none).2.2 hn ?_
    rwa [hm₃]
  have hunlocked : Moves w₄ w₅ := by
    have hr₄ : (w₄.mtx k).pc t = .returned .unlock .success := by rwa [hm₄]
    exact ⟨.unlocked (w := w₄) (loadSequence_self w₂ t k none).2.2 hr₄, hbounded rfl⟩
  have hsleep : Moves w₅ w₆ := ⟨.sleep (goto_pc_self _ _ _) rfl, hbounded rfl⟩
  have hend : w₆ = w.slept t k := by
    have hw₅ : w₅ = (w₄.inMtx k ((w.mtx k).givenBack t)).goto t (unlocked k none w.sequence .success) := by
      rw [← hback, ← hm₄]
    show w₅.goto t _ = _
    rw [hw₅]
    simp [w₄, w₃, w₂, w₁, loadSequence, goto, inMtx, slept]
  rw [← hend]
  exact ((((hlock.tail hwait).tail hload).trans hrun).tail hunlocked).tail hsleep

/-! ## Three threads -/

/-- The threads of the example. -/
inductive Actor where
  | signaller
  | earlier
  | later
deriving DecidableEq, Repr

/-- Three threads, a condition variable and a mutex, before any call. -/
def start : Cnd Actor Unit where
  sequence := 0
  mtx _ :=
    { type := ⟨false, false⟩, state := false, owner := none, depth := 0, pc := fun _ => .idle, held := fun _ => 0,
      entry := fun _ => 0 }
  pc _ := .idle
  notes := 0
  waits _ := 0
  read _ := 0
  mark _ := 0

theorem start_init : Init start := ⟨rfl, rfl, fun _ => ⟨rfl, rfl, rfl, fun _ => rfl, fun _ => rfl⟩, fun _ => rfl⟩

theorem start_rest (k : Unit) : (start.mtx k).Resting := ⟨rfl, rfl, rfl, rfl, fun _ => rfl, fun _ => rfl⟩

/-- The earlier waiter sleeps, and another thread calls `cnd_signal` or
`cnd_broadcast`. -/
def notifying (all : Bool) : Cnd Actor Unit := (start.slept .earlier ()).goto .signaller (.fetchAdd all)

theorem slept_rest (k : Unit) : ((start.slept .earlier ()).mtx k).Resting := by
  show ((start.inMtx () ((start.mtx ()).givenBack .earlier)).mtx ()).Resting
  rw [inMtx_self]
  exact (start_rest ()).givenBack _

theorem notifying_reachable (all : Bool) : Reachable Init Moves (notifying all) := by
  have hslept : Reachable Init Moves (start.slept .earlier ()) :=
    (Reachable.start start_init).run (falls_asleep () rfl start_rest (by decide))
  exact hslept.next ⟨.notify all rfl fun k => (slept_rest k).pc _, bounded_of_notes (Nat.two_pow_pos 32)⟩

/-- The increment of the signal, and a wait that began after it. -/
def stealing : Cnd Actor Unit := ((notifying false).fetchAdd .signaller false).slept .later ()

/-- The wake of the signal chose the later waiter. -/
def stolen : Cnd Actor Unit := (stealing.goto .later (.relock () .success)).goto .signaller (.returned .success)

theorem stolen_run : Relation.ReflTransGen Moves ((notifying false).fetchAdd .signaller false) stolen := by
  have hsleep : Relation.ReflTransGen Moves ((notifying false).fetchAdd .signaller false) stealing :=
    falls_asleep () rfl slept_rest (by decide)
  have hlater : stealing.pc .later = .asleep () none 1 := rfl
  exact hsleep.tail ⟨.wakeOne rfl hlater, bounded_of_notes (by decide)⟩

/-- A later wait can take a signal: a thread sleeps when a call of `cnd_signal`
begins and increments the sequence, and when the call returns every thread that
waited before the increment is still asleep in its wait. -/
theorem signal_stolen :
    Reachable Init Moves (notifying false) ∧ (notifying false).pc .signaller = .fetchAdd false ∧
      (notifying false).AsleepIn .earlier 1 ∧ Bounded ((notifying false).fetchAdd .signaller false) ∧
      Relation.ReflTransGen Moves ((notifying false).fetchAdd .signaller false) stolen ∧
      stolen.pc .signaller = .returned .success ∧
      ∀ u n, Early (notifying false) (notifying false) u n → stolen.AsleepIn u n := by
  refine ⟨notifying_reachable false, rfl, ⟨⟨(), none, 0, rfl⟩, rfl⟩, bounded_of_notes (by decide), stolen_run, rfl, ?_⟩
  intro u n hearly
  obtain ⟨⟨k, time, e, hp⟩, rfl⟩ : (notifying false).Waiting u ∧ n = (notifying false).waits u := by
    rcases hearly with h | h
    · exact h
    · exact h
  cases u with
  | signaller => rcases hp with hp | hp | hp <;> cases hp
  | later => rcases hp with hp | hp | hp <;> cases hp
  | earlier => exact ⟨⟨(), none, 0, rfl⟩, rfl⟩

/-- After the broadcast of one thread the earlier waiter is awake. -/
theorem broadcast_not_lost_earlier :
    (notifying true).AsleepIn .earlier 1 ∧
      ¬ (((notifying true).fetchAdd .signaller true).wakeAll .signaller).AsleepIn .earlier 1 := by
  refine ⟨⟨⟨(), none, 0, rfl⟩, rfl⟩, ?_⟩
  exact (broadcast_not_lost (notifying_reachable true)).1 .signaller _ _ rfl (bounded_of_notes (by decide)) .refl rfl .refl
    .earlier 1 (by decide)

/-- Without the later waiter the signal wakes the earlier one. -/
theorem signal_reaches_earlier_alone :
    ∃ u m, Early (notifying false) (notifying false) u m ∧
      ¬ ((((notifying false).fetchAdd .signaller false).goto .earlier (.relock () .success)).goto .signaller
        (.returned .success)).AsleepIn u m := by
  refine signal_reaches_earlier (a := .earlier) (n := 1) (s := .signaller) (notifying_reachable false)
    ⟨⟨(), none, 0, rfl⟩, rfl⟩ .refl rfl (bounded_of_notes (by decide)) (.single ⟨⟨?_, bounded_of_notes (by decide)⟩, ?_⟩) rfl
  · have hearlier : ((notifying false).fetchAdd .signaller false).pc .earlier = .asleep () none 0 := rfl
    exact .wakeOne rfl hearlier
  · intro _ _ u k time e hp
    cases u with
    | earlier => decide
    | signaller => cases hp
    | later => cases hp

end Cnd

end MiniLibc.Thread
