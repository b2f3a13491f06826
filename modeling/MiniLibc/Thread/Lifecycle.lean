import MiniLibc.Thread.Custody
/-!
# The lifecycle of a thread

`src/thread/lifecycle.c`. Any number of threads create, join and detach threads
and exit, the reaper runs beside them, and the kernel starts and ends threads
and clears their words on its own. A control is named by the number of its
creation, so that an access to a freed control would be seen even where the
allocator hands its address out again. What a caller does under the registry
lock is one step where only the lock keeps others away from it; the reaper's
walk over the registry reads words that the kernel clears meanwhile and is
taken word by word, and so is a notification of the reaper, which the reaper's
wait races with.
-/
open MiniLibc.Runs

namespace MiniLibc.Thread

/-! ## The threads and what they do next -/

/-- The main thread, the thread of a control, and the reaper. -/
inductive Agent where
  | main
  | child (c : Nat)
  | reaper
deriving DecidableEq, Repr

/-- The last return of a thread. -/
inductive LifecycleReply where
  -- `thrd_success` of `thrd_create`, with the handle stored
  | created (thr : Nat)
  -- `thrd_success` of `thrd_join`, with the result stored
  | joined (thr : Nat) (res : Int)
  -- `thrd_success` of `thrd_detach`
  | detached
  | nomem
  | error
deriving DecidableEq, Repr

/-- What follows `notify_reaper_locked` and the unlock. -/
inductive Notified where
  | created (thr : Nat)
  | detached
  | reaper
deriving DecidableEq, Repr

inductive LifecyclePc where
  | idle (last : Option LifecycleReply)
  -- `__mini_clone_thread` in the child, before `__mini_thread_tls_prepare`
  | entry
  -- `thrd_create`, from `insert_control_locked` on
  | createInsert (c : Nat)
  | createClone (c : Nat)
  | createPublish (c tid : Nat)
  | createRemove (c : Nat) (nomem : Bool)
  | createUnmap (c : Nat) (nomem : Bool)
  | createFree (c : Nat) (nomem : Bool)
  -- `notify_reaper_locked`: before the increment, and before the wake
  | notify (next : Notified)
  | wake (next : Notified)
  | joinFind (thr : Nat)
  | joinLoad (thr c : Nat)
  | joinWait (thr c : Nat)
  | joinUnmap (thr c : Nat)
  | joinRestore (thr c : Nat)
  | joinResult (thr c : Nat)
  | joinRemove (thr c : Nat) (res : Int)
  | joinFree (thr c : Nat) (res : Int)
  | detachFind (thr : Nat)
  -- `reap_claimed_control`, called by `thrd_detach` to `restoreJoinable`, else by the reaper
  | reapUnmap (c : Nat) (restoreJoinable : Bool)
  | reapRestore (c : Nat) (restoreJoinable : Bool)
  | reapRemove (c : Nat) (restoreJoinable : Bool)
  | reapFree (c : Nat) (restoreJoinable : Bool)
  | exitStore (res : Int)
  | exitCount
  -- before `exit`, in the last user thread
  | exitProcess
  -- before `mini_sys_exit`
  | exitThread
  -- the head of the loop of `reaper_worker`
  | reaperLoop
  -- `find_reapable_locked`, with the controls it has not looked at
  | findReapable (rest : List Nat)
  | findDetached
  -- before the load of `observed_tid`
  | observeTid (c : Nat) (observedEvent : BitVec 32)
  | pollWait (c : Nat)
  | eventWait (observedEvent : BitVec 32)
  | eventAsleep
deriving DecidableEq, Repr

/-- The threads, their controls, and the kernel's view of both. `unmaps` and
`frees` count how often a stack was unmapped and a control freed, and `passed` is
the value a thread passed to `thrd_exit`. -/
structure Threads where
  made : Nat
  control : Nat → Control
  task : Nat → Task
  unmaps : Nat → Nat
  frees : Nat → Nat
  passed : Nat → Option Int
  -- `mini_thread_controls`
  registry : List Nat
  /-- The holder of the registry lock, where it holds the lock over several steps. -/
  lock : Option Agent
  -- `mini_reaper_event`
  event : BitVec 32
  reaperStarted : Bool
  -- `mini_user_thread_count`
  userCount : Nat
  mainTid : Nat
  pc : Agent → LifecyclePc

namespace Threads

/-- The stacks of `MINI_THREAD_STACK_SIZE` that fit in the address space of a process. -/
def stackLimit : Nat := 2 ^ 47 / (1024 * 1024)

def mappedStacks (w : Threads) : Nat := (List.range w.made).countP fun c => w.unmaps c = 0

def goto (w : Threads) (a : Agent) (p : LifecyclePc) : Threads := { w with pc := Function.update w.pc a p }

def setControl (w : Threads) (c : Nat) (control : Control) : Threads :=
  { w with control := Function.update w.control c control }

def setLifecycle (w : Threads) (c : Nat) (lifecycle : Lifecycle) : Threads :=
  w.setControl c { w.control c with lifecycle }

def setTask (w : Threads) (c : Nat) (task : Task) : Threads := { w with task := Function.update w.task c task }

/-- A successful `munmap` of the stack of a control. -/
def unmapStack (w : Threads) (c : Nat) : Threads := { w with unmaps := Function.update w.unmaps c (w.unmaps c + 1) }

def freeControl (w : Threads) (c : Nat) : Threads := { w with frees := Function.update w.frees c (w.frees c + 1) }

def callExit (w : Threads) (a : Agent) (res : Int) : Threads :=
  { w with passed := fun c => if a = .child c then some res else w.passed c }

/-- `thrd_exit` stores the result in the control. -/
def storeResult (w : Threads) (c : Nat) (result : Int) : Threads := w.setControl c { w.control c with result }

def findControl (w : Threads) (thr : Nat) : Option Nat :=
  w.registry.find? fun c => (w.control c).published && decide ((w.control c).tid = thr)

def insertControl (w : Threads) (c : Nat) : Threads := { w with registry := c :: w.registry }

def removeControl (w : Threads) (c : Nat) : Threads := { w with registry := w.registry.erase c }

/-- The test of `find_detached_locked`. -/
def detachedAt (w : Threads) (c : Nat) : Bool :=
  (w.control c).published && decide ((w.control c).lifecycle = .detached)

/-- The test of `find_reapable_locked`. -/
def reapableAt (w : Threads) (c : Nat) : Bool := w.detachedAt c && decide ((w.control c).clearTid = 0)

def current (w : Threads) : Agent → Nat
  | .main => w.mainTid
  | .child c => (w.task c).tid?.getD 0
  | .reaper => 0

/-- The control `thrd_detach` works on. -/
def detachTarget (w : Threads) (a : Agent) (thr : Nat) : Option Nat :=
  match a with
  | .child c => if thr = w.current a then some c else w.findControl thr
  | _ => w.findControl thr

def Runs (w : Threads) : Agent → Prop
  | .main => True
  | .child c => ∃ tid, w.task c = .running tid
  | .reaper => w.reaperStarted = true

/-- Where a notifier is after it unlocked. -/
def notified : Notified → LifecyclePc
  | .created thr => .idle (some (.created thr))
  | .detached => .idle (some .detached)
  | .reaper => .reaperLoop

def refused (nomem : Bool) : LifecyclePc := .idle (some (if nomem then .nomem else .error))

def wakeReaper (w : Threads) : Threads :=
  if w.pc .reaper = .eventAsleep then w.goto .reaper .reaperLoop else w

/-! ## The steps of the code -/

/-- What `thrd_join` does with the control of the handle. -/
def joinFind (w : Threads) (a : Agent) (thr : Nat) : Threads :=
  match w.findControl thr with
  | none => w.goto a (refused false)
  | some c =>
    if (w.control c).lifecycle = .joinable then (w.setLifecycle c .joining).goto a (.joinLoad thr c)
    else w.goto a (refused false)

/-- What `thrd_detach` does with the control of the handle; `reaper` tells
whether `ensure_reaper_locked` could start the reaper if it has to. -/
def detachFind (w : Threads) (a : Agent) (thr : Nat) (reaper : Bool) : Threads :=
  match w.detachTarget a thr with
  | none => w.goto a (refused false)
  | some c =>
    if (w.control c).lifecycle = .joinable then
      if (w.control c).clearTid = 0 ∧ (w.control c).published = true then
        (w.setLifecycle c .reaping).goto a (.reapUnmap c true)
      else if w.reaperStarted || reaper then
        let w := { w.setLifecycle c .detached with reaperStarted := true }
        if (w.control c).published then { w with lock := some a }.goto a (.notify .detached)
        else w.goto a (.idle (some .detached))
      else w.goto a (refused false)
    else w.goto a (refused false)

/-- The child's id is stored, the control is published, and the reaper is
notified if the child detached itself. -/
def createPublish (w : Threads) (a : Agent) (c tid : Nat) : Threads :=
  let w := w.setControl c { w.control c with tid, published := true }
  if (w.control c).lifecycle = .detached then { w with lock := some a }.goto a (.notify (.created tid))
  else w.goto a (.idle (some (.created tid)))

/-- The steps of an agent. `fresh` restricts the ids that `clone` gives. -/
inductive Acts (fresh : Threads → Nat → Prop) (w : Threads) (a : Agent) : Threads → Prop where
  -- `thrd_create` with a null argument, or without memory
  | createRefused {last : Option LifecycleReply} {nomem : Bool} : w.pc a = .idle last →
    Acts fresh w a (w.goto a (refused nomem))
  | create {last : Option LifecycleReply} : w.pc a = .idle last → w.mappedStacks < stackLimit →
    Acts fresh w a ({ w.setControl w.made .new with made := w.made + 1 }.goto a (.createInsert w.made))
  | join {last : Option LifecycleReply} (thr : Nat) : w.pc a = .idle last →
    Acts fresh w a (w.goto a (if thr = 0 ∨ thr = w.current a then refused false else .joinFind thr))
  | detach {last : Option LifecycleReply} (thr : Nat) : w.pc a = .idle last →
    Acts fresh w a (w.goto a (if thr = 0 then refused false else .detachFind thr))
  | exit {last : Option LifecycleReply} (res : Int) : w.pc a = .idle last →
    Acts fresh w a ((w.callExit a res).goto a (.exitStore res))
  -- `__mini_thread_tls_prepare`, then the start routine or `mini_sys_exit`
  | entry {ready : Bool} : w.pc a = .entry → Acts fresh w a (w.goto a (if ready then .idle none else .exitThread))
  | createInsert {c : Nat} : w.pc a = .createInsert c → w.lock = none →
    Acts fresh w a ((w.insertControl c).goto a (.createClone c))
  | createClone {c tid : Nat} : w.pc a = .createClone c → 0 < tid → tid ≠ w.mainTid →
    (∀ d, w.task d = .born tid ∨ w.task d = .running tid → False) → fresh w tid →
    Acts fresh w a ({ w.setTask c (.born tid) with userCount := w.userCount + 1 }.goto a (.createPublish c tid))
  | createCloneFail {c : Nat} {nomem : Bool} : w.pc a = .createClone c →
    Acts fresh w a (w.goto a (.createRemove c nomem))
  | createPublish {c tid : Nat} : w.pc a = .createPublish c tid → w.lock = none →
    Acts fresh w a (w.createPublish a c tid)
  | createRemove {c : Nat} {nomem : Bool} : w.pc a = .createRemove c nomem → w.lock = none →
    Acts fresh w a ((w.removeControl c).goto a (.createUnmap c nomem))
  | createUnmap {c : Nat} {nomem : Bool} : w.pc a = .createUnmap c nomem →
    Acts fresh w a ((w.unmapStack c).goto a (.createFree c nomem))
  | createUnmapFail {c : Nat} {nomem : Bool} : w.pc a = .createUnmap c nomem →
    Acts fresh w a (w.goto a (.createFree c nomem))
  | createFree {c : Nat} {nomem : Bool} : w.pc a = .createFree c nomem →
    Acts fresh w a ((w.freeControl c).goto a (refused nomem))
  | notify {next : Notified} : w.pc a = .notify next →
    Acts fresh w a ({ w with event := w.event + 1 }.goto a (.wake next))
  | wake {next : Notified} : w.pc a = .wake next →
    Acts fresh w a ({ w.wakeReaper with lock := none }.goto a (notified next))
  | joinFind {thr : Nat} : w.pc a = .joinFind thr → w.lock = none → Acts fresh w a (w.joinFind a thr)
  | joinLoad {thr c : Nat} : w.pc a = .joinLoad thr c →
    Acts fresh w a (w.goto a (if (w.control c).clearTid = 0 then .joinUnmap thr c else .joinWait thr c))
  -- `FUTEX_WAIT` returns zero, `EINTR` or `EAGAIN`
  | joinWaited {thr c : Nat} : w.pc a = .joinWait thr c → Acts fresh w a (w.goto a (.joinLoad thr c))
  | joinWaitFail {thr c : Nat} : w.pc a = .joinWait thr c → Acts fresh w a (w.goto a (.joinRestore thr c))
  | joinUnmap {thr c : Nat} : w.pc a = .joinUnmap thr c →
    Acts fresh w a ((w.unmapStack c).goto a (.joinResult thr c))
  | joinUnmapFail {thr c : Nat} : w.pc a = .joinUnmap thr c → Acts fresh w a (w.goto a (.joinRestore thr c))
  | joinRestore {thr c : Nat} : w.pc a = .joinRestore thr c → w.lock = none →
    Acts fresh w a ((w.setLifecycle c .joinable).goto a (refused false))
  | joinResult {thr c : Nat} : w.pc a = .joinResult thr c →
    Acts fresh w a (w.goto a (.joinRemove thr c (w.control c).result))
  | joinRemove {thr c : Nat} {res : Int} : w.pc a = .joinRemove thr c res → w.lock = none →
    Acts fresh w a ((w.removeControl c).goto a (.joinFree thr c res))
  | joinFree {thr c : Nat} {res : Int} : w.pc a = .joinFree thr c res →
    Acts fresh w a ((w.freeControl c).goto a (.idle (some (.joined thr res))))
  | detachFind {thr : Nat} {reaper : Bool} : w.pc a = .detachFind thr → w.lock = none →
    Acts fresh w a (w.detachFind a thr reaper)
  | reapUnmap {c : Nat} {restoreJoinable : Bool} : w.pc a = .reapUnmap c restoreJoinable →
    Acts fresh w a ((w.unmapStack c).goto a (.reapRemove c restoreJoinable))
  | reapUnmapFail {c : Nat} {restoreJoinable : Bool} : w.pc a = .reapUnmap c restoreJoinable →
    Acts fresh w a (w.goto a (.reapRestore c restoreJoinable))
  | reapRestoreJoinable {c : Nat} : w.pc a = .reapRestore c true → w.lock = none →
    Acts fresh w a ((w.setLifecycle c .joinable).goto a (refused false))
  | reapRestore {c : Nat} : w.pc a = .reapRestore c false → w.lock = none →
    Acts fresh w a ({ w.setLifecycle c .detached with lock := some a }.goto a (.notify .reaper))
  | reapRemove {c : Nat} {restoreJoinable : Bool} : w.pc a = .reapRemove c restoreJoinable → w.lock = none →
    Acts fresh w a ((w.removeControl c).goto a (.reapFree c restoreJoinable))
  | reapFree {c : Nat} {restoreJoinable : Bool} : w.pc a = .reapFree c restoreJoinable →
    Acts fresh w a ((w.freeControl c).goto a (if restoreJoinable then .idle (some .detached) else .reaperLoop))
  | exitStore {c : Nat} {res : Int} : a = .child c → w.pc a = .exitStore res →
    Acts fresh w a ((w.storeResult c res).goto a .exitCount)
  | exitStoreMain {res : Int} : a = .main → w.pc a = .exitStore res → Acts fresh w a (w.goto a .exitCount)
  | exitCount : w.pc a = .exitCount →
    Acts fresh w a ({ w with userCount := w.userCount - 1 }.goto a (if w.userCount = 1 then .exitProcess else .exitThread))
  | reaperLoop : w.pc a = .reaperLoop → w.lock = none →
    Acts fresh w a ({ w with lock := some a }.goto a (.findReapable w.registry))
  | findReapable {c : Nat} {rest : List Nat} : w.pc a = .findReapable (c :: rest) →
    Acts fresh w a (
      if w.reapableAt c then { w.setLifecycle c .reaping with lock := none }.goto a (.reapUnmap c false)
      else w.goto a (.findReapable rest))
  | findReapableEnd : w.pc a = .findReapable [] → Acts fresh w a (w.goto a .findDetached)
  | findDetached : w.pc a = .findDetached →
    Acts fresh w a (
      match w.registry.find? w.detachedAt with
      | some c => w.goto a (.observeTid c w.event)
      | none => { w with lock := none }.goto a (.eventWait w.event))
  | observeTid {c : Nat} {observedEvent : BitVec 32} : w.pc a = .observeTid c observedEvent →
    Acts fresh w a ({ w with lock := none }.goto a
      (if (w.control c).clearTid ≠ 0 then .pollWait c else .eventWait observedEvent))
  -- `FUTEX_WAIT` on the thread's word returns, at the latest after `mini_reaper_poll`
  | pollWait {c : Nat} : w.pc a = .pollWait c → Acts fresh w a (w.goto a .reaperLoop)
  | eventSleep {observedEvent : BitVec 32} : w.pc a = .eventWait observedEvent → w.event = observedEvent →
    Acts fresh w a (w.goto a .eventAsleep)
  -- `FUTEX_WAIT` on the event returns without a wake
  | eventAgain {observedEvent : BitVec 32} : w.pc a = .eventWait observedEvent ∨ w.pc a = .eventAsleep →
    Acts fresh w a (w.goto a .reaperLoop)

/-- The steps of all agents and of the kernel. -/
inductive Step (fresh : Threads → Nat → Prop) : Threads → Threads → Prop where
  | acts {w w' : Threads} {a : Agent} : w.Runs a → Acts fresh w a w' → Step fresh w w'
  -- `CLONE_CHILD_SETTID`, before the child's first instruction
  | start {w : Threads} {c tid : Nat} : w.task c = .born tid →
    Step fresh w ((w.setTask c (.running tid)).setControl c { w.control c with clearTid := tid })
  -- `mini_sys_exit`: the kernel clears the word once it has left the stack
  | finish {w : Threads} {c tid : Nat} : w.task c = .running tid → w.pc (.child c) = .exitThread →
    Step fresh w ((w.setTask c (.exited tid)).setControl c { w.control c with clearTid := 0 })

/-- Only the main thread runs, and no control was made. -/
structure Init (w : Threads) : Prop where
  made : w.made = 0
  control : ∀ c, w.control c = .new
  task : ∀ c, w.task c = .unborn
  unmaps : ∀ c, w.unmaps c = 0
  frees : ∀ c, w.frees c = 0
  passed : ∀ c, w.passed c = none
  registry : w.registry = []
  lock : w.lock = none
  reaperStarted : w.reaperStarted = false
  mainTid : 0 < w.mainTid
  main : w.pc .main = .idle none
  child : ∀ c, w.pc (.child c) = .entry
  reaper : w.pc .reaper = .reaperLoop

end Threads

end MiniLibc.Thread
