import MiniLibc.Locale.State
/-!
# Locale objects

`src/locale/locale_object.c` and `src/locale/thread_locale.c`: the registry of
objects, the part of a thread control block that holds a thread's locale, and the
calls on them. A call completes before the next one, so that the lock of the
registry is left out. A call that allocates is given what `malloc` returns.

Every thread has a control block: the one of the main thread is set up before
`main`, and with it the provider that reads the block.
-/

namespace MiniLibc.Locale

def ENOENT : Nat := 2
def ENOMEM : Nat := 12
def EINVAL : Nat := 22

/-- `locale_t`: null, `LC_GLOBAL_LOCALE`, or the address of an object. -/
inductive Handle where
  | null
  | global
  | pointer (address : Nat)
deriving DecidableEq, Repr

/-- `struct mini_locale_object`. -/
structure Object where
  address : Nat
  state : State
deriving DecidableEq

/-- `mini_locale_objects`, the newest first, and `mini_process_locale`. -/
structure Globals where
  objects : List Object
  process : State
deriving DecidableEq

/-- The locale of a thread in its control block, and its `errno`. -/
structure Tcb where
  localeState : State
  localeHandle : Handle
  localeOverrideActive : Bool
  errno : Nat
deriving DecidableEq

/-! ## Threads -/

/-- `__mini_thread_locale_init_child` on a new block. -/
def initChild : Tcb := ⟨stateInit, .global, false, 0⟩

/-- What `__mini_locale_current_state` points to. -/
def currentState (g : Globals) (tcb : Tcb) : State :=
  if tcb.localeOverrideActive then tcb.localeState else g.process

def threadCurrentHandle (tcb : Tcb) : Handle := if tcb.localeOverrideActive then tcb.localeHandle else .global

def threadInstall (tcb : Tcb) (handle : Handle) (state : State) : Option Tcb :=
  if handle = .null ∨ handle = .global then none
  else some { tcb with localeState := state, localeHandle := handle, localeOverrideActive := true }

def threadUseGlobal (tcb : Tcb) : Tcb := { tcb with localeHandle := .global, localeOverrideActive := false }

/-! ## The registry -/

def copyLoop (handle : Handle) : List Object → Option State
  | [] => none
  | cursor :: next => if .pointer cursor.address = handle then some cursor.state else copyLoop handle next

/-- `__mini_locale_object_copy_state`. -/
def objectCopyState (objects : List Object) (handle : Handle) : Option State :=
  if handle = .null ∨ handle = .global then none else copyLoop handle objects

def replaceLoop (handle : Handle) (state : State) : List Object → Option (List Object)
  | [] => none
  | cursor :: next =>
    if .pointer cursor.address = handle then some ({ cursor with state } :: next)
    else (replaceLoop handle state next).map (cursor :: ·)

def replaceRegisteredState (objects : List Object) (handle : Handle) (state : State) : Option (List Object) :=
  if handle = .null ∨ handle = .global then none else replaceLoop handle state objects

/-- `malloc` gave an address or null. -/
def createObjectFromState (memory : Option Nat) (state : State) (g : Globals) (tcb : Tcb) : Handle × Globals × Tcb :=
  match memory with
  | none => (.null, g, { tcb with errno := ENOMEM })
  | some address => (.pointer address, { g with objects := ⟨address, state⟩ :: g.objects }, tcb)

/-- The loop of `freelocale` over the links. -/
def unlinkLoop (handle : Handle) : List Object → List Object
  | [] => []
  | object :: next => if .pointer object.address = handle then next else object :: unlinkLoop handle next

/-! ## The calls -/

/-- `LC_ALL_MASK`. -/
def allMask : BitVec 32 := 31

def validCategoryMask (categoryMask : BitVec 32) : Bool := categoryMask &&& ~~~allMask = 0

/-- The candidate that is left, and whether every category took the name. -/
def applyCategoryMask (env : Environment) (categoryMask : BitVec 32) (locale : Text) (state : State) :
    List Nat → State × Bool
  | [] => (state, true)
  | category :: rest =>
    if categoryMask &&& (1 <<< category) ≠ 0 then
      let (state, applied) := stateApplyName env state category locale
      if !applied then (state, false) else applyCategoryMask env categoryMask locale state rest
    else applyCategoryMask env categoryMask locale state rest

def newlocale (env : Environment) (memory : Option Nat) (categoryMask : BitVec 32) (locale : Option Text)
    (base : Handle) (g : Globals) (tcb : Tcb) : Handle × Globals × Tcb :=
  let savedErrno := tcb.errno
  let invalid := (Handle.null, g, { tcb with errno := EINVAL })
  match locale with
  | none => invalid
  | some locale =>
    if !validCategoryMask categoryMask ∨ base = .global then invalid
    else
      match (if base = .null then some stateInit else objectCopyState g.objects base) with
      | none => invalid
      | some candidate =>
        let (candidate, applied) := applyCategoryMask env categoryMask locale candidate [0, 1, 2, 3, 4]
        if !applied then (.null, g, { tcb with errno := ENOENT })
        else if base = .null then
          let (result, g, tcb) := createObjectFromState memory candidate g tcb
          if result = .null then (.null, g, tcb) else (result, g, { tcb with errno := savedErrno })
        else
          match replaceRegisteredState g.objects base candidate with
          | none => invalid
          | some objects => (base, { g with objects }, { tcb with errno := savedErrno })

def duplocale (memory : Option Nat) (locobj : Handle) (g : Globals) (tcb : Tcb) : Handle × Globals × Tcb :=
  let savedErrno := tcb.errno
  match (if locobj = .global then some g.process else objectCopyState g.objects locobj) with
  | none => (.null, g, { tcb with errno := EINVAL })
  | some snapshot =>
    let (result, g, tcb) := createObjectFromState memory snapshot g tcb
    if result = .null then (.null, g, tcb) else (result, g, { tcb with errno := savedErrno })

def freelocale (locobj : Handle) (g : Globals) : Globals :=
  if locobj = .null ∨ locobj = .global then g else { g with objects := unlinkLoop locobj g.objects }

def uselocale (newloc : Handle) (g : Globals) (tcb : Tcb) : Handle × Tcb :=
  let previous := threadCurrentHandle tcb
  if newloc = .null then (previous, tcb)
  else if newloc = .global then (previous, threadUseGlobal tcb)
  else
    match (objectCopyState g.objects newloc).bind (threadInstall tcb newloc) with
    | none => (.null, { tcb with errno := EINVAL })
    | some tcb => (previous, tcb)

/-- `setlocale`, which knows only the process locale. -/
def setlocale (env : Environment) (category : Int) (locale : Option Text) (g : Globals) : Option Text × Globals :=
  if !validCategory category then (none, g)
  else
    match locale with
    | none => (stateQuery g.process category, g)
    | some locale =>
      let (process, applied) := stateApplyName env g.process category locale
      let g := { g with process }
      if !applied then (none, g) else (stateQuery g.process category, g)

/-! ## The process -/

inductive Call where
  | newlocale (categoryMask : BitVec 32) (locale : Option Text) (base : Handle)
  | duplocale (locobj : Handle)
  | freelocale (locobj : Handle)
  | uselocale (newloc : Handle)
  | setlocale (category : Int) (locale : Option Text)

/-- What a call returned. -/
inductive Result where
  | handle (h : Handle)
  | name (n : Option Text)
  | void
deriving DecidableEq

def call (env : Environment) (memory : Option Nat) (g : Globals) (tcb : Tcb) : Call → Result × Globals × Tcb
  | .newlocale categoryMask locale base =>
    let (h, g, tcb) := newlocale env memory categoryMask locale base g tcb
    (.handle h, g, tcb)
  | .duplocale locobj =>
    let (h, g, tcb) := duplocale memory locobj g tcb
    (.handle h, g, tcb)
  | .freelocale locobj => (.void, freelocale locobj g, tcb)
  | .uselocale newloc =>
    let (h, tcb) := uselocale newloc g tcb
    (.handle h, g, tcb)
  | .setlocale category locale =>
    let (n, g) := setlocale env category locale g
    (.name n, g, tcb)

/-- A thread starts, ends, or makes a call in an environment. -/
inductive Event where
  | start (t : Nat)
  | exit (t : Nat)
  | call (t : Nat) (env : Environment) (memory : Option Nat) (c : Call)

/-- The running threads have a control block. -/
structure World where
  globals : Globals
  threads : Nat → Option Tcb

/-- The main thread, before its first call. -/
def initial : World := ⟨⟨[], stateInit⟩, fun t => if t = 0 then some initChild else none⟩

def step (w : World) : Event → Option (Result × World)
  | .start t =>
    if w.threads t = none then some (.void, { w with threads := Function.update w.threads t (some initChild) })
    else none
  | .exit t =>
    if w.threads t = none then none else some (.void, { w with threads := Function.update w.threads t none })
  | .call t env memory c =>
    (w.threads t).map fun tcb =>
      let (r, g, tcb) := call env memory w.globals tcb c
      (r, ⟨g, Function.update w.threads t (some tcb)⟩)

end MiniLibc.Locale
