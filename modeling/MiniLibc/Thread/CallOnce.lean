import MiniLibc.Lib.FutexLock
import MiniLibc.Thread.OnceFlag
/-!
# One-time initialisation

`src/thread/once.c`, one atomic access or system call at a time. One lock word
serves all flags. A callback may call `call_once` on another flag, so a thread
has a place in the code for each flag, and a step is one of a thread at a flag.
-/
open MiniLibc.FutexLock MiniLibc.Runs

namespace MiniLibc.Thread

/-- What follows a `once_unlock`. -/
inductive OnceNext where
  | callback
  | wake
  | wait
  | ret
deriving DecidableEq, Repr

/-- What a thread does next in a call of `call_once`. -/
inductive OncePc where
  | idle
  | loop
  -- `once_lock`: exchange the lock word; `after` the callback, `woken` after a wait
  | exchange (after woken : Bool)
  -- `once_lock`: before `FUTEX_WAIT` on the lock word
  | lockWait (after : Bool)
  | lockAsleep (after : Bool)
  | loadState
  | storeRunning
  | storeComplete
  -- `once_unlock`: exchange the lock word
  | unlock (next : OnceNext)
  -- `once_unlock`: before `FUTEX_WAKE` on the lock word
  | unlockWake (next : OnceNext)
  | callback
  | inCallback
  -- before `FUTEX_WAKE` on the flag
  | wake
  -- before `FUTEX_WAIT` on the flag
  | wait
  | asleep
  | returned
deriving DecidableEq, Repr

/-- The lock word, the flags, and the threads. `starts` and `ends` count how often
the callback of a flag was started and has returned, and `woken` tells whether the
wake on the flag was issued. -/
structure Once (ι φ : Type) where
  lockWord : Bool
  state : φ → OnceState
  pc : ι × φ → OncePc
  starts : φ → Nat
  ends : φ → Nat
  woken : φ → Bool

namespace Once

variable {ι φ : Type} [DecidableEq ι] [DecidableEq φ]

def goto (w : Once ι φ) (a : ι × φ) (p : OncePc) : Once ι φ := { w with pc := Function.update w.pc a p }

def store (w : Once ι φ) (f : φ) (s : OnceState) : Once ι φ := { w with state := Function.update w.state f s }

def unlocked : OnceNext → OncePc
  | .callback => .callback
  | .wake => .wake
  | .wait => .wait
  | .ret => .returned

/-- What a thread does with the state it loaded. -/
def loaded : OnceState → OncePc
  | .complete => .unlock .ret
  | .uninitialized => .storeRunning
  | .running => .unlock .wait

/-- `FUTEX_WAKE` of `MINI_FUTEX_WAKE_ALL` on a flag. -/
def wakeFlag (w : Once ι φ) (f : φ) : Once ι φ :=
  { w with
    woken := Function.update w.woken f true
    pc := fun b => if b.2 = f ∧ w.pc b = .asleep then .loop else w.pc b }

/-- The next step of a thread outside the kernel. -/
def advance (w : Once ι φ) (a : ι × φ) : Once ι φ :=
  match w.pc a with
  | .loop => w.goto a (.exchange false false)
  | .exchange after _ =>
    { w with lockWord := true }.goto a (
      if w.lockWord then .lockWait after else if after then .storeComplete else .loadState)
  | .loadState => w.goto a (loaded (w.state a.2))
  | .storeRunning => (w.store a.2 .running).goto a (.unlock .callback)
  | .storeComplete => (w.store a.2 .complete).goto a (.unlock .wake)
  | .unlock next => { w with lockWord := false }.goto a (if w.lockWord then .unlockWake next else unlocked next)
  | .callback => { w with starts := Function.update w.starts a.2 (w.starts a.2 + 1) }.goto a .inCallback
  | .inCallback => { w with ends := Function.update w.ends a.2 (w.ends a.2 + 1) }.goto a (.exchange true false)
  | .wake => (w.wakeFlag a.2).goto a .returned
  | .returned => w.goto a .idle
  | .idle | .lockWait _ | .lockAsleep _ | .unlockWake _ | .wait | .asleep => w

inductive Step : Once ι φ → Once ι φ → Prop where
  | call {w : Once ι φ} {a : ι × φ} : w.pc a = .idle → Step w (w.goto a .loop)
  | advance {w : Once ι φ} {a : ι × φ} : Step w (w.advance a)
  | sleep {w : Once ι φ} {a : ι × φ} : w.pc a = .wait → w.state a.2 = .running → Step w (w.goto a .asleep)
  -- `FUTEX_WAIT` on the flag returns without a wake
  | again {w : Once ι φ} {a : ι × φ} : w.pc a = .wait ∨ w.pc a = .asleep → Step w (w.goto a .loop)
  | lockSleep {w : Once ι φ} {a : ι × φ} {after : Bool} : w.pc a = .lockWait after → w.lockWord = true →
    Step w (w.goto a (.lockAsleep after))
  -- `FUTEX_WAIT` on the lock word returns without a wake
  | lockAgain {w : Once ι φ} {a : ι × φ} {after : Bool} : w.pc a = .lockWait after ∨ w.pc a = .lockAsleep after →
    Step w (w.goto a (.exchange after true))
  -- `FUTEX_WAKE` on the lock word wakes any one sleeper
  | lockWake {w : Once ι φ} {a b : ι × φ} {next : OnceNext} {after : Bool} : w.pc a = .unlockWake next →
    w.pc b = .lockAsleep after → Step w ((w.goto b (.exchange after true)).goto a (unlocked next))
  | lockWakeNone {w : Once ι φ} {a : ι × φ} {next : OnceNext} : w.pc a = .unlockWake next →
    (∀ b after, w.pc b ≠ .lockAsleep after) → Step w (w.goto a (unlocked next))

/-- Every flag is `ONCE_FLAG_INIT`. -/
structure Init (w : Once ι φ) : Prop where
  lockWord : w.lockWord = false
  state : ∀ f, w.state f = .uninitialized
  pc : ∀ a, w.pc a = .idle
  starts : ∀ f, w.starts f = 0
  ends : ∀ f, w.ends f = 0
  woken : ∀ f, w.woken f = false

/-! ## The lock word as a lock -/

def phaseOf : OncePc → Phase
  | .exchange _ woken => if woken then .retrying else .trying
  | .lockWait _ => .contended
  | .lockAsleep _ => .asleep
  | .loadState | .storeRunning | .storeComplete | .unlock _ => .holding
  | .unlockWake _ => .waking
  | _ => .idle

def lock (w : Once ι φ) : Lock (ι × φ) := ⟨w.lockWord, fun a => phaseOf (w.pc a)⟩

theorem lock_goto (w : Once ι φ) (a : ι × φ) (p : OncePc) : (w.goto a p).lock = w.lock.to a (phaseOf p) := by
  refine congrArg (Lock.mk w.lockWord) ?_
  funext b
  exact Function.apply_update (fun _ => phaseOf) w.pc a p b

omit [DecidableEq ι] [DecidableEq φ] in
theorem lock_phase {w : Once ι φ} {a : ι × φ} {p : OncePc} (h : w.pc a = p) : w.lock.phase a = phaseOf p :=
  congrArg phaseOf h

theorem phaseOf_unlocked (next : OnceNext) : phaseOf (unlocked next) = .idle := by cases next <;> rfl

theorem phaseOf_loaded (s : OnceState) : phaseOf (loaded s) = .holding := by cases s <;> rfl

omit [DecidableEq ι] in
/-- The wake on a flag leaves the lock alone. -/
theorem lock_wakeFlag (w : Once ι φ) (f : φ) : (w.wakeFlag f).lock = w.lock := by
  refine congrArg (Lock.mk w.lockWord) ?_
  funext b
  have hpc : (w.wakeFlag f).pc b = if b.2 = f ∧ w.pc b = .asleep then .loop else w.pc b := rfl
  rw [hpc]
  split
  · rename_i h
    rw [h.2]
    rfl
  · rfl

/-- A step that stays in its phase. -/
theorem lock_stays {w w' : Once ι φ} {a : ι × φ} {p : OncePc} (hw : w'.lock = w.lock)
    (hp : phaseOf (w.pc a) = phaseOf p) : (w'.goto a p).lock = w.lock := by
  rw [lock_goto, hw]
  exact to_self hp

/-- What a thread does outside the kernel is a step of the lock, or none. -/
theorem lock_advance {w : Once ι φ} (hsafe : Safe w.lock) (a : ι × φ) :
    (w.advance a).lock = w.lock ∨ FutexLock.Step w.lock (w.advance a).lock := by
  unfold advance
  cases hpc : w.pc a with
  | idle | lockWait | lockAsleep | unlockWake | wait | asleep => exact .inl rfl
  | loop =>
    right
    rw [lock_goto]
    exact .start (lock_phase hpc)
  | exchange after woken =>
    right
    dsimp only
    have htries : w.lock.Tries a := by
      cases woken with
      | false => exact .inl (lock_phase hpc)
      | true => exact .inr (lock_phase hpc)
    rw [lock_goto]
    cases hs : w.lockWord with
    | true =>
      have hw : ({ w with lockWord := true } : Once ι φ) = w := by rw [← hs]
      rw [hw]
      exact .fail htries hs
    | false =>
      have hp : phaseOf (if after then .storeComplete else .loadState) = .holding := by cases after <;> rfl
      rw [if_neg Bool.false_ne_true, hp]
      exact .acquire htries hs
  | loadState =>
    left
    refine lock_stays rfl ?_
    rw [hpc, phaseOf_loaded]
    rfl
  | storeRunning | storeComplete | callback | returned => exact .inl (lock_stays rfl (by rw [hpc]; rfl))
  | wake => exact .inl (lock_stays (lock_wakeFlag w a.2) (by rw [hpc]; rfl))
  | unlock next =>
    right
    have hphase := lock_phase hpc
    have hs : w.lockWord = true := hsafe.held.2 ⟨a, hphase⟩
    rw [lock_goto, if_pos hs]
    exact .release hphase
  | inCallback =>
    right
    rw [lock_goto]
    exact .start (lock_phase hpc)

/-- Every step is one of the lock, or none. -/
theorem Step.lock {w w' : Once ι φ} (hsafe : Safe w.lock) (h : Step w w') :
    w'.lock = w.lock ∨ FutexLock.Step w.lock w'.lock := by
  cases h with
  | @advance a => exact lock_advance hsafe a
  | call hpc | sleep hpc => exact .inl (lock_stays rfl (by rw [hpc]; rfl))
  | again hpc =>
    left
    refine lock_stays rfl ?_
    rcases hpc with hpc | hpc
    all_goals
      rw [hpc]
      rfl
  | lockSleep hpc hs =>
    right
    rw [lock_goto]
    exact .sleep (lock_phase hpc) hs
  | lockAgain hpc =>
    right
    rw [lock_goto]
    exact .again (hpc.imp lock_phase lock_phase)
  | lockWake hpc hb =>
    right
    rw [lock_goto, lock_goto, phaseOf_unlocked]
    exact .wake (lock_phase hpc) (lock_phase hb)
  | lockWakeNone hpc hnone =>
    right
    rw [lock_goto, phaseOf_unlocked]
    refine .wakeNone (lock_phase hpc) fun b hb => ?_
    have hb : phaseOf (w.pc b) = .asleep := hb
    generalize hpb : w.pc b = p at hb
    cases p with
    | lockAsleep after => exact hnone b after hpb
    | exchange after woken => cases woken <;> cases hb
    | _ => cases hb

end Once

end MiniLibc.Thread
