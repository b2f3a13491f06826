import MiniLibc.Lib.FutexLock
/-!
# The mutex

`src/thread/mutex.c`, one atomic access or system call of a thread at a time.
The state word, the owner and the depth are separate cells, and any number of
threads work on them in any order. The address of its control block, which is
what a thread stores as the owner, stands for the thread and is never null.
-/
open MiniLibc.FutexLock

namespace MiniLibc.Thread

/-- `mtx_t.__type`. -/
structure MtxType where
  recursive : Bool
  timed : Bool
deriving DecidableEq, Repr

structure Timespec where
  sec : Int
  nsec : Int
deriving DecidableEq, Repr

/-- `valid_time_point`; `none` is a null pointer. -/
def validTimePoint : Option Timespec → Bool
  | none => false
  | some time => 0 ≤ time.nsec ∧ time.nsec < 1000000000

inductive MtxOp where
  | lock
  | timedlock (timePoint : Option Timespec)
  | trylock
  | unlock
deriving DecidableEq, Repr

/-- `thrd_success` to `thrd_error`. -/
inductive ThrdResult where
  | success
  | timedout
  | busy
  | error
deriving DecidableEq, Repr

def mtxIntMax : Nat := 2 ^ 31 - 1

/-- What a thread does next. -/
inductive MtxPc where
  | idle
  -- `owned_by`: load the state. `mtx_trylock` checks a recursive mutex `again`
  | ownedState (op : MtxOp) (again : Bool)
  -- `owned_by`: load the owner
  | ownedOwner (op : MtxOp) (again : Bool)
  -- `recurse_owned`: load the depth
  | recurseDepth (op : MtxOp)
  | recurseAdd (op : MtxOp)
  -- `acquire_unlocked`: exchange the state; `woken` after a wait
  | exchange (op : MtxOp) (woken : Bool)
  | storeOwner (op : MtxOp)
  | storeDepth (op : MtxOp)
  -- before `FUTEX_WAIT`
  | wait (op : MtxOp)
  | asleep (op : MtxOp)
  -- `mtx_unlock`: load the depth
  | unlockDepth
  | unlockNested
  | clearDepth
  | clearOwner
  | clearState
  -- before `FUTEX_WAKE`
  | wake
  | returned (op : MtxOp) (result : ThrdResult)
deriving DecidableEq, Repr

/-- A mutex and the threads that use it. `held` counts the successful
acquisitions of a thread that it has not undone, and `entry` is that number when
its last call began. -/
structure Mtx (ι : Type) where
  type : MtxType
  state : Bool
  owner : Option ι
  depth : Int
  pc : ι → MtxPc
  held : ι → Nat
  entry : ι → Nat

namespace Mtx

variable {ι : Type} [DecidableEq ι]

def goto (m : Mtx ι) (t : ι) (p : MtxPc) : Mtx ι := { m with pc := Function.update m.pc t p }

def goHolding (m : Mtx ι) (t : ι) (p : MtxPc) (held : Nat) : Mtx ι :=
  { m with pc := Function.update m.pc t p, held := Function.update m.held t held }

/-- Where a call begins: a timed lock first checks the type and the time. -/
def begin (type : MtxType) : MtxOp → MtxPc
  | .timedlock timePoint =>
    if !type.timed ∨ !validTimePoint timePoint then .returned (.timedlock timePoint) .error
    else .ownedState (.timedlock timePoint) false
  | op => .ownedState op false

def call (m : Mtx ι) (t : ι) (op : MtxOp) : Mtx ι :=
  { m with entry := Function.update m.entry t (m.held t) }.goto t (begin m.type op)

/-- After `owned_by` said no. -/
def notOwned (type : MtxType) : MtxOp → (again : Bool) → MtxPc
  | .unlock, _ => .returned .unlock .error
  | .trylock, again => if type.recursive ∧ !again then .ownedState .trylock true else .exchange .trylock false
  | op, _ => .exchange op false

/-- After `owned_by` said yes. -/
def owned (type : MtxType) : MtxOp → (again : Bool) → MtxPc
  | .unlock, _ => .unlockDepth
  | .trylock, again => if type.recursive ∧ !again then .recurseDepth .trylock else .returned .trylock .busy
  | op, _ => if type.recursive then .recurseDepth op else .returned op .error

/-- After the exchange found the state set. -/
def contended : MtxOp → MtxPc
  | .trylock => .returned .trylock .busy
  | .timedlock (some time) =>
    if time.sec < 0 then .returned (.timedlock (some time)) .timedout else .wait (.timedlock (some time))
  | op => .wait op

/-- The next step of a thread outside the kernel. -/
def advance (m : Mtx ι) (t : ι) : Mtx ι :=
  match m.pc t with
  | .ownedState op again => m.goto t (if m.state then .ownedOwner op again else notOwned m.type op again)
  | .ownedOwner op again => m.goto t (if m.owner = some t then owned m.type op again else notOwned m.type op again)
  | .recurseDepth op => m.goto t (if m.depth ≤ 0 ∨ m.depth = mtxIntMax then .returned op .error else .recurseAdd op)
  | .recurseAdd op => { m with depth := m.depth + 1 }.goHolding t (.returned op .success) (m.held t + 1)
  | .exchange op _ => { m with state := true }.goto t (if m.state then contended op else .storeOwner op)
  | .storeOwner op => { m with owner := some t }.goto t (.storeDepth op)
  | .storeDepth op => { m with depth := 1 }.goHolding t (.returned op .success) (m.held t + 1)
  | .unlockDepth =>
    m.goto t (
      if m.depth ≤ 0 then .returned .unlock .error
      else if m.type.recursive ∧ m.depth > 1 then .unlockNested
      else if m.depth ≠ 1 then .returned .unlock .error
      else .clearDepth)
  | .unlockNested => { m with depth := m.depth - 1 }.goHolding t (.returned .unlock .success) (m.held t - 1)
  | .clearDepth => { m with depth := 0 }.goto t .clearOwner
  | .clearOwner => { m with owner := none }.goto t .clearState
  | .clearState =>
    if m.state then { m with state := false }.goHolding t .wake (m.held t - 1)
    else { m with state := false }.goto t (.returned .unlock .error)
  | .returned _ _ => m.goto t .idle
  | .idle | .wait _ | .asleep _ | .wake => m

inductive Step : Mtx ι → ι → Mtx ι → Prop where
  | call {m : Mtx ι} {t : ι} (op : MtxOp) : m.pc t = .idle → Step m t (m.call t op)
  | advance {m : Mtx ι} {t : ι} : Step m t (m.advance t)
  | sleep {m : Mtx ι} {t : ι} {op : MtxOp} : m.pc t = .wait op → m.state = true → Step m t (m.goto t (.asleep op))
  -- `FUTEX_WAIT` returns with `EAGAIN` or `EINTR`, or without a reason
  | again {m : Mtx ι} {t : ι} {op : MtxOp} : m.pc t = .wait op ∨ m.pc t = .asleep op →
    Step m t (m.goto t (.exchange op true))
  | timeout {m : Mtx ι} {t : ι} {time : Option Timespec} :
    m.pc t = .wait (.timedlock time) ∨ m.pc t = .asleep (.timedlock time) →
    Step m t (m.goto t (.returned (.timedlock time) .timedout))
  | fails {m : Mtx ι} {t : ι} {op : MtxOp} : m.pc t = .wait op → Step m t (m.goto t (.returned op .error))
  -- `FUTEX_WAKE` wakes any one sleeper
  | wake {m : Mtx ι} {t u : ι} {op : MtxOp} : m.pc t = .wake → m.pc u = .asleep op →
    Step m t ((m.goto u (.exchange op true)).goto t (.returned .unlock .success))
  | wakeNone {m : Mtx ι} {t : ι} : m.pc t = .wake → (∀ u op, m.pc u ≠ .asleep op) →
    Step m t (m.goto t (.returned .unlock .success))

/-- After `mtx_init`. -/
structure Init (m : Mtx ι) : Prop where
  state : m.state = false
  owner : m.owner = none
  depth : m.depth = 0
  idle : ∀ t, m.pc t = .idle
  held : ∀ t, m.held t = 0

/-- A step of any thread. -/
def Moves (m m' : Mtx ι) : Prop := ∃ t, Step m t m'

/-! ## The view as a lock -/

/-- Where a thread is with respect to the state word. -/
def phaseOf (held : Nat) : MtxPc → Phase
  | .exchange _ woken => if woken then .retrying else .trying
  | .wait _ => .contended
  | .asleep _ => .asleep
  | .wake => .waking
  | .storeOwner _ | .storeDepth _ => .holding
  | _ => if held = 0 then .idle else .holding

def lock (m : Mtx ι) : Lock ι := ⟨m.state, fun t => phaseOf (m.held t) (m.pc t)⟩

theorem lock_goto (m : Mtx ι) (t : ι) (p : MtxPc) : (m.goto t p).lock = m.lock.to t (phaseOf (m.held t) p) := by
  refine congrArg (Lock.mk m.state) ?_
  funext u
  by_cases h : u = t
  · rw [h]
    simp [goto, lock]
  · simp [goto, lock, Function.update_of_ne h]

theorem lock_goHolding (m : Mtx ι) (t : ι) (p : MtxPc) (held : Nat) :
    (m.goHolding t p held).lock = m.lock.to t (phaseOf held p) := by
  refine congrArg (Lock.mk m.state) ?_
  funext u
  by_cases h : u = t
  · rw [h]
    simp [goHolding, lock]
  · simp [goHolding, lock, Function.update_of_ne h]

end Mtx

end MiniLibc.Thread
