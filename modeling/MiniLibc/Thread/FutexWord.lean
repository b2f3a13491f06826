import MiniLibc.Thread.Exclusion
/-!
# No stranded waiter

`src/internal/futex_lock.h`, and what it shares with the mutex: both are the
lock of one futex word, so a thread asleep on a word always has somebody who
will wake it or has taken its place.
-/
open MiniLibc.FutexLock MiniLibc.Runs

namespace MiniLibc.Thread

/-- What a user of a `mini_futex_lock` does next. -/
inductive FutexPc where
  | idle
  /-- `mini_futex_lock_acquire`: exchange the state; `woken` after a wait. -/
  | exchange (woken : Bool)
  | wait
  | asleep
  /-- Acquired, and not yet released. -/
  | acquired
  | wake
deriving DecidableEq, Repr

/-- A `mini_futex_lock` and the threads that use it. -/
structure FutexWord (ι : Type) where
  state : Bool
  pc : ι → FutexPc

namespace FutexWord

variable {ι : Type} [DecidableEq ι]

def goto (w : FutexWord ι) (t : ι) (p : FutexPc) : FutexWord ι := { w with pc := Function.update w.pc t p }

/-- The exchange in `mini_futex_lock_acquire`. -/
def acquire (w : FutexWord ι) (t : ι) : FutexWord ι :=
  { w with state := true }.goto t (if w.state then .wait else .acquired)

/-- The exchange in `mini_futex_lock_release`. -/
def release (w : FutexWord ι) (t : ι) : FutexWord ι :=
  { w with state := false }.goto t (if w.state then .wake else .idle)

/-- The steps of the threads. Who acquired the lock releases it. -/
inductive Step : FutexWord ι → FutexWord ι → Prop where
  | call {w : FutexWord ι} {t : ι} : w.pc t = .idle → Step w (w.goto t (.exchange false))
  | acquire {w : FutexWord ι} {t : ι} {woken : Bool} : w.pc t = .exchange woken → Step w (w.acquire t)
  | sleep {w : FutexWord ι} {t : ι} : w.pc t = .wait → w.state = true → Step w (w.goto t .asleep)
  | again {w : FutexWord ι} {t : ι} : w.pc t = .wait ∨ w.pc t = .asleep → Step w (w.goto t (.exchange true))
  | release {w : FutexWord ι} {t : ι} : w.pc t = .acquired → Step w (w.release t)
  | wake {w : FutexWord ι} {t u : ι} : w.pc t = .wake → w.pc u = .asleep →
    Step w ((w.goto u (.exchange true)).goto t .idle)
  | wakeNone {w : FutexWord ι} {t : ι} : w.pc t = .wake → (∀ u, w.pc u ≠ .asleep) → Step w (w.goto t .idle)

def Init (w : FutexWord ι) : Prop := w.state = false ∧ ∀ t, w.pc t = .idle

/-! ## The view as a lock -/

def phaseOf : FutexPc → Phase
  | .idle => .idle
  | .exchange woken => if woken then .retrying else .trying
  | .wait => .contended
  | .asleep => .asleep
  | .acquired => .holding
  | .wake => .waking

def pcOf : Phase → FutexPc
  | .idle => .idle
  | .trying => .exchange false
  | .retrying => .exchange true
  | .contended => .wait
  | .asleep => .asleep
  | .holding => .acquired
  | .waking => .wake

theorem phaseOf_injective : Function.Injective phaseOf := by
  have hleft : Function.LeftInverse pcOf phaseOf := by
    intro p
    cases p with
    | exchange woken => cases woken <;> rfl
    | _ => rfl
  exact hleft.injective

def lock (w : FutexWord ι) : Lock ι := ⟨w.state, fun t => phaseOf (w.pc t)⟩

theorem lock_goto (w : FutexWord ι) (t : ι) (p : FutexPc) : (w.goto t p).lock = w.lock.to t (phaseOf p) := by
  refine congrArg (Lock.mk w.state) ?_
  funext u
  by_cases h : u = t
  · rw [h]
    simp [goto, lock]
  · simp [goto, lock, Function.update_of_ne h]

omit [DecidableEq ι] in
theorem lock_phase {w : FutexWord ι} {t : ι} {p : FutexPc} (h : w.pc t = p) : w.lock.phase t = phaseOf p :=
  congrArg phaseOf h

/-- Every step is one of the lock. -/
theorem Step.lock {w w' : FutexWord ι} (hsafe : Safe w.lock) (h : Step w w') : FutexLock.Step w.lock w'.lock := by
  cases h with
  | call hpc =>
    rw [lock_goto]
    exact .start (lock_phase hpc)
  | @acquire t woken hpc =>
    have htries : w.lock.Tries t := by
      cases woken with
      | false => exact .inl (lock_phase hpc)
      | true => exact .inr (lock_phase hpc)
    unfold FutexWord.acquire
    rw [lock_goto]
    cases hs : w.state with
    | true =>
      have hw : ({ w with state := true } : FutexWord ι) = w := by rw [← hs]
      rw [hw]
      exact .fail htries hs
    | false => exact .acquire htries hs
  | sleep hpc hs =>
    rw [lock_goto]
    exact .sleep (lock_phase hpc) hs
  | again hpc =>
    rw [lock_goto]
    exact .again (hpc.imp lock_phase lock_phase)
  | @release t hpc =>
    have hphase := lock_phase hpc
    have hs : w.state = true := hsafe.held.2 ⟨t, hphase⟩
    unfold FutexWord.release
    rw [lock_goto, if_pos hs]
    exact .release hphase
  | wake hpc hu =>
    rw [lock_goto, lock_goto]
    exact .wake (lock_phase hpc) (lock_phase hu)
  | wakeNone hpc hnone =>
    rw [lock_goto]
    refine .wakeNone (lock_phase hpc) fun u hu => hnone u ?_
    exact phaseOf_injective (hu : phaseOf (w.pc u) = phaseOf .asleep)

/-- A run of the lock word is a run of the lock. -/
theorem reachable_safe {w : FutexWord ι} (h : Reachable Init Step w) : Safe w.lock := by
  refine (@Reachable.view _ _ _ _ Free FutexLock.Step (fun w => Safe w.lock) lock (fun w h => ?_)
    (fun w w' hsafe hs => ?_) _ h).1
  · have hfree : Free w.lock := ⟨h.1, fun t => lock_phase (h.2 t)⟩
    exact ⟨hfree.safe, hfree⟩
  · have hl := hs.lock hsafe
    exact ⟨hsafe.step hl, .inr hl⟩

end FutexWord

/-- No waiter is stranded. Over every run of any number of threads, on the lock
word of `mini_futex_lock` and on the state word of a mutex:
- at most one thread has the lock;
- when a thread is asleep, the word is set and another thread has the lock, or a
  thread is about to wake one, or one is back from its wait and about to retry;
- the release of whoever has the lock issues a wake. -/
theorem never_stranded {ι : Type} [DecidableEq ι] :
    (∀ w : FutexWord ι, Reachable FutexWord.Init FutexWord.Step w →
      (∀ t u, w.pc t = .acquired → w.pc u = .acquired → t = u) ∧
      (∀ t, w.pc t = .asleep → (w.state = true ∧ ∃ u, w.pc u = .acquired) ∨ (∃ u, w.pc u = .wake) ∨
        ∃ u, w.pc u = .exchange true) ∧
      ∀ t, w.pc t = .acquired → (w.release t).pc t = .wake) ∧
    ∀ m : Mtx ι, Reachable Mtx.Init Mtx.Moves m →
      (∀ t u, m.Owns t → m.Owns u → t = u) ∧
      (∀ t op, m.pc t = .asleep op → (m.state = true ∧ ∃ u, m.Owns u) ∨ (∃ u, m.pc u = .wake) ∨
        ∃ u op, m.pc u = .exchange op true) ∧
      ∀ t, m.pc t = .clearState → (m.advance t).pc t = .wake := by
  refine ⟨fun w h => ?_, fun m h => ?_⟩
  · have hsafe := FutexWord.reachable_safe h
    have hback : ∀ {u : ι} p, w.lock.phase u = FutexWord.phaseOf p → w.pc u = p := fun p hu =>
      FutexWord.phaseOf_injective hu
    refine ⟨fun t u ht hu => hsafe.exclusive t u (FutexWord.lock_phase ht) (FutexWord.lock_phase hu),
      fun t ht => ?_, fun t ht => ?_⟩
    · rcases hsafe.cared t (FutexWord.lock_phase ht) with hw | ⟨u, hu⟩ | ⟨u, hu⟩
      · obtain ⟨u, hu⟩ := hsafe.held.1 hw
        exact .inl ⟨hw, u, hback .acquired hu⟩
      · exact .inr (.inl ⟨u, hback .wake hu⟩)
      · exact .inr (.inr ⟨u, hback (.exchange true) hu⟩)
    · have hs : w.state = true := hsafe.held.2 ⟨t, FutexWord.lock_phase ht⟩
      unfold FutexWord.release
      rw [if_pos hs]
      exact Function.update_self _ _ _
  · obtain ⟨hinv, -⟩ := Mtx.reachable_inv h
    refine ⟨hinv.safe.exclusive, fun t op ht => ?_, fun t ht => ?_⟩
    · have hasleep : m.lock.phase t = .asleep := by
        show Mtx.phaseOf (m.held t) (m.pc t) = _
        rw [ht]
        rfl
      rcases hinv.safe.cared t hasleep with hw | ⟨u, hu⟩ | ⟨u, hu⟩
      · exact .inl ⟨hw, hinv.safe.held.1 hw⟩
      · exact .inr (.inl ⟨u, Mtx.phaseOf_waking hu⟩)
      · exact .inr (.inr ⟨u, Mtx.phaseOf_retrying hu⟩)
    · have hheld : 0 < m.held t := by
        have hf := hinv.ledger.facts t
        rw [ht] at hf
        rw [hf.1]
        exact Nat.one_pos
      have hs := hinv.state_true (hinv.holding hheld)
      unfold Mtx.advance
      rw [ht]
      dsimp only
      rw [if_pos hs]
      exact Function.update_self _ _ _

namespace FutexWord

/-- One of two threads has the lock, and the other sleeps. -/
def waiting : FutexWord Bool := ⟨true, fun t => if t then .acquired else .asleep⟩

theorem waiting_reachable : Reachable Init Step waiting := by
  let w : FutexWord Bool := ⟨false, fun _ => .idle⟩
  have h1 : Reachable Init Step (w.goto true (.exchange false)) := .next (.start ⟨rfl, fun _ => rfl⟩) (.call rfl)
  have h2 := h1.next (.acquire (t := true) rfl)
  have h3 := h2.next (.call (t := false) rfl)
  have h4 := h3.next (.acquire (t := false) rfl)
  have h5 := h4.next (.sleep (t := false) rfl rfl)
  convert h5 using 1
  refine congrArg (FutexWord.mk true) ?_
  funext t
  cases t <;> rfl

theorem never_stranded_waiting : waiting.pc false = .asleep ∧ (waiting.release true).pc true = .wake :=
  ⟨rfl, (never_stranded.1 waiting waiting_reachable).2.2 true rfl⟩

end FutexWord

end MiniLibc.Thread
