import MiniLibc.Lib.EventCount
import MiniLibc.Thread.Exclusion
/-!
# The condition variable

`src/thread/condition.c`, one atomic access or system call of a thread at a
time. A wait calls `mtx_unlock` and `mtx_lock` of its mutex, one step of the
mutex at a time, and outside these calls the threads use the mutexes as they
like.
-/

namespace MiniLibc.Thread

/-- What a thread does next. `time` is null for `cnd_wait`. -/
inductive CndPc (μ : Type) where
  | idle
  -- `wait_common`: load the sequence
  | loadSequence (mtx : μ) (time : Option Timespec)
  -- in `mtx_unlock`
  | unlock (mtx : μ) (time : Option Timespec) (expected : BitVec 32)
  -- before `FUTEX_WAIT`
  | futexWait (mtx : μ) (time : Option Timespec) (expected : BitVec 32)
  | asleep (mtx : μ) (time : Option Timespec) (expected : BitVec 32)
  -- before `mtx_lock`
  | relock (mtx : μ) (status : ThrdResult)
  -- in `mtx_lock`
  | lock (mtx : μ) (status : ThrdResult)
  | waited (mtx : μ) (result : ThrdResult)
  -- `wake_waiters`: add to the sequence
  | fetchAdd (all : Bool)
  -- `wake_waiters`: before `FUTEX_WAKE`
  | futexWake (all : Bool)
  -- a notification returns, or a wait that refuses its arguments
  | returned (result : ThrdResult)
deriving DecidableEq, Repr

/-- A condition variable, the mutexes, and the threads. `notes` counts the
notifications, `waits` the waits a thread has begun, `read` the notifications
before it last loaded the sequence, and `mark` those before its own last one. -/
structure Cnd (ι μ : Type) where
  sequence : BitVec 32
  mtx : μ → Mtx ι
  pc : ι → CndPc μ
  notes : Nat
  waits : ι → Nat
  read : ι → Nat
  mark : ι → Nat

namespace Cnd

variable {ι μ : Type} [DecidableEq ι] [DecidableEq μ]

def goto (w : Cnd ι μ) (t : ι) (p : CndPc μ) : Cnd ι μ := { w with pc := Function.update w.pc t p }

def inMtx (w : Cnd ι μ) (k : μ) (m : Mtx ι) : Cnd ι μ := { w with mtx := Function.update w.mtx k m }

/-- The checks of `wait_common`. -/
def waitCommon (mtx : Option μ) (time : Option Timespec) (timed : Bool) : CndPc μ :=
  match mtx with
  | none => .returned .error
  | some mtx => if timed && !validTimePoint time then .returned .error else .loadSequence mtx time

def loadSequence (w : Cnd ι μ) (t : ι) (k : μ) (time : Option Timespec) : Cnd ι μ :=
  ({ w with
      waits := Function.update w.waits t (w.waits t + 1)
      read := Function.update w.read t w.notes }.inMtx k ((w.mtx k).call t .unlock)).goto t (.unlock k time w.sequence)

/-- Where a wait goes on after `mtx_unlock`. -/
def unlocked (k : μ) (time : Option Timespec) (expected : BitVec 32) : ThrdResult → CndPc μ
  | .success =>
    match time with
    | some time => if time.sec < 0 then .relock k .timedout else .futexWait k (some time) expected
    | none => .futexWait k none expected
  | _ => .waited k .error

/-- What a wait returns after `mtx_lock`. -/
def relocked (status : ThrdResult) : ThrdResult → ThrdResult
  | .success => status
  | _ => .error

def fetchAdd (w : Cnd ι μ) (t : ι) (all : Bool) : Cnd ι μ :=
  { w with
    sequence := w.sequence + 1
    notes := w.notes + 1
    mark := Function.update w.mark t w.notes }.goto t (.futexWake all)

def woken : CndPc μ → CndPc μ
  | .asleep k _ _ => .relock k .success
  | p => p

/-- `FUTEX_WAKE` of `MINI_WAKE_ALL`. -/
def wakeAll (w : Cnd ι μ) (t : ι) : Cnd ι μ := { w with pc := fun u => woken (w.pc u) }.goto t (.returned .success)

/-- In a call that has not returned. -/
def InCall (m : Mtx ι) (t : ι) : Prop := m.pc t ≠ .idle ∧ ∀ op r, m.pc t ≠ .returned op r

inductive Step : Cnd ι μ → Cnd ι μ → Prop where
  | mutex {w : Cnd ι μ} {t : ι} {k : μ} {m : Mtx ι} : w.pc t = .idle → Mtx.Step (w.mtx k) t m → Step w (w.inMtx k m)
  | wait {w : Cnd ι μ} {t : ι} (mtx : Option μ) : w.pc t = .idle → (∀ k, (w.mtx k).pc t = .idle) →
    Step w (w.goto t (waitCommon mtx none false))
  | timedwait {w : Cnd ι μ} {t : ι} (mtx : Option μ) (time : Option Timespec) : w.pc t = .idle →
    (∀ k, (w.mtx k).pc t = .idle) → Step w (w.goto t (waitCommon mtx time true))
  -- `cnd_broadcast` notifies `all`, `cnd_signal` one
  | notify {w : Cnd ι μ} {t : ι} (all : Bool) : w.pc t = .idle → (∀ k, (w.mtx k).pc t = .idle) →
    Step w (w.goto t (.fetchAdd all))
  | loadSequence {w : Cnd ι μ} {t : ι} {k : μ} {time : Option Timespec} : w.pc t = .loadSequence k time →
    Step w (w.loadSequence t k time)
  | unlock {w : Cnd ι μ} {t : ι} {k : μ} {time : Option Timespec} {e : BitVec 32} {m : Mtx ι} :
    w.pc t = .unlock k time e → InCall (w.mtx k) t → Mtx.Step (w.mtx k) t m → Step w (w.inMtx k m)
  | unlocked {w : Cnd ι μ} {t : ι} {k : μ} {time : Option Timespec} {e : BitVec 32} {op : MtxOp} {r : ThrdResult} :
    w.pc t = .unlock k time e → (w.mtx k).pc t = .returned op r →
    Step w ((w.inMtx k ((w.mtx k).advance t)).goto t (unlocked k time e r))
  | sleep {w : Cnd ι μ} {t : ι} {k : μ} {time : Option Timespec} {e : BitVec 32} : w.pc t = .futexWait k time e →
    w.sequence = e → Step w (w.goto t (.asleep k time e))
  -- `FUTEX_WAIT` returns with `EAGAIN`, or without a reason
  | awake {w : Cnd ι μ} {t : ι} {k : μ} {time : Option Timespec} {e : BitVec 32} :
    w.pc t = .futexWait k time e ∨ w.pc t = .asleep k time e → Step w (w.goto t (.relock k .success))
  -- `FUTEX_WAIT` returns with `EINTR`
  | interrupted {w : Cnd ι μ} {t : ι} {k : μ} {time : Option Timespec} {e : BitVec 32} :
    w.pc t = .futexWait k time e ∨ w.pc t = .asleep k time e → Step w (w.goto t (.futexWait k time e))
  | timeout {w : Cnd ι μ} {t : ι} {k : μ} {time : Timespec} {e : BitVec 32} :
    w.pc t = .futexWait k (some time) e ∨ w.pc t = .asleep k (some time) e → Step w (w.goto t (.relock k .timedout))
  | fails {w : Cnd ι μ} {t : ι} {k : μ} {time : Option Timespec} {e : BitVec 32} :
    w.pc t = .futexWait k time e → Step w (w.goto t (.relock k .error))
  | relock {w : Cnd ι μ} {t : ι} {k : μ} {status : ThrdResult} : w.pc t = .relock k status →
    Step w ((w.inMtx k ((w.mtx k).call t .lock)).goto t (.lock k status))
  | lock {w : Cnd ι μ} {t : ι} {k : μ} {status : ThrdResult} {m : Mtx ι} : w.pc t = .lock k status →
    InCall (w.mtx k) t → Mtx.Step (w.mtx k) t m → Step w (w.inMtx k m)
  | locked {w : Cnd ι μ} {t : ι} {k : μ} {status : ThrdResult} {op : MtxOp} {r : ThrdResult} : w.pc t = .lock k status →
    (w.mtx k).pc t = .returned op r →
    Step w ((w.inMtx k ((w.mtx k).advance t)).goto t (.waited k (relocked status r)))
  | fetchAdd {w : Cnd ι μ} {t : ι} {all : Bool} : w.pc t = .fetchAdd all → Step w (w.fetchAdd t all)
  | wakeAll {w : Cnd ι μ} {t : ι} : w.pc t = .futexWake true → Step w (w.wakeAll t)
  -- `FUTEX_WAKE` wakes any one sleeper
  | wakeOne {w : Cnd ι μ} {t u : ι} {k : μ} {time : Option Timespec} {e : BitVec 32} : w.pc t = .futexWake false →
    w.pc u = .asleep k time e → Step w ((w.goto u (.relock k .success)).goto t (.returned .success))
  | wakeNone {w : Cnd ι μ} {t : ι} : w.pc t = .futexWake false → (∀ u k time e, w.pc u ≠ .asleep k time e) →
    Step w (w.goto t (.returned .success))
  | ret {w : Cnd ι μ} {t : ι} : (∃ k r, w.pc t = .waited k r) ∨ (∃ r, w.pc t = .returned r) → Step w (w.goto t .idle)

/-- After `cnd_init` and `mtx_init`. -/
structure Init (w : Cnd ι μ) : Prop where
  sequence : w.sequence = 0
  notes : w.notes = 0
  mtx : ∀ k, Mtx.Init (w.mtx k)
  pc : ∀ t, w.pc t = .idle

/-- The thread loaded the sequence for its wait, and may still sleep in it. -/
def Waiting (w : Cnd ι μ) (t : ι) : Prop :=
  ∃ k time e, w.pc t = .unlock k time e ∨ w.pc t = .futexWait k time e ∨ w.pc t = .asleep k time e

/-- Asleep in its wait number `n`. -/
def AsleepIn (w : Cnd ι μ) (t : ι) (n : Nat) : Prop := (∃ k time e, w.pc t = .asleep k time e) ∧ w.waits t = n

/-- Fewer than `2 ^ 32` notifications during the waits. -/
def Bounded (w : Cnd ι μ) : Prop := ∀ t, w.Waiting t → w.notes < w.read t + 2 ^ 32

def Moves (w w' : Cnd ι μ) : Prop := Step w w' ∧ Bounded w'

end Cnd

end MiniLibc.Thread
