import Mathlib
/-!
# Spawning

`posix_spawn` and its file actions of `src/process/spawn.c`. A program fills an object with
at most eight actions and spawns with it; the child performs them on its own descriptors
before it becomes the new image. An object that was never initialised holds whatever its
memory held.
-/

namespace MiniLibc.Process

/-! ## The object -/

/-- `MINI_SPAWN_ACTIONS_MAGIC` -/
def spawnActionsMagic : UInt32 := 0x53504157

/-- `MINI_SPAWN_ACTION_CLOSE` -/
def spawnActionClose : Int := 1

/-- `MINI_SPAWN_ACTION_DUP2` -/
def spawnActionDup2 : Int := 2

/-- `MINI_SPAWN_CHILD_FAILURE` -/
def spawnChildFailure : Int := 127

/-- `__MINI_POSIX_SPAWN_ACTION_CAPACITY` -/
def spawnActionCapacity : Nat := 8

/-- Results of the calls. -/
def spawnEbadf : Int := 9
def spawnEnomem : Int := 12
def spawnEinval : Int := 22

/-- `struct __mini_posix_spawn_action` -/
structure SpawnAction where
  kind : Int
  fd : Int
  newfd : Int

/-- `posix_spawn_file_actions_t` -/
structure FileActions where
  magic : UInt32
  count : Nat
  actions : Nat → SpawnAction

namespace FileActions

/-- `actions_valid`, of an object that is there. -/
def valid (o : FileActions) : Bool := o.magic = spawnActionsMagic && decide (o.count ≤ spawnActionCapacity)

def init (o : FileActions) : FileActions := { o with magic := spawnActionsMagic, count := 0 }

def destroy (o : FileActions) : Int × FileActions :=
  if !o.valid then (spawnEinval, o) else (0, { o with magic := 0, count := 0 })

/-- `reserve_action` -/
def reserve (o : FileActions) (kind fd newfd : Int) : Int × FileActions :=
  if !o.valid then (spawnEinval, o)
  else if o.count = spawnActionCapacity then (spawnEnomem, o)
  else (0, { o with actions := Function.update o.actions o.count ⟨kind, fd, newfd⟩, count := o.count + 1 })

end FileActions

/-! ## The kernel -/

/-- What the child becomes. -/
structure Image where
  path : List UInt8
  argv : List (List UInt8)
  envp : List (List UInt8)

/-- The system calls on the state of a process; a negative result is an error. `execve`
returns only when it fails. -/
structure Kernel (K : Type) where
  close : K → Int → Int × K
  dup2 : K → Int → Int → Int × K
  execve : K → Image → Except K K
  /-- The number of the child, the parent and the child. -/
  fork : K → Except (Nat × K) (Nat × K × K)

/-- What became of a child. -/
inductive Ended (K : Type) where
  | runs (image : Image) (k : K)
  | exited (status : Int) (k : K)

variable {K : Type} (kernel : Kernel K)

/-- The loop of `spawn_child` from `index` on, up to the first failure. -/
def childLoop (o : FileActions) : (left index : Nat) → K → Except K K
  | 0, _, k => .ok k
  | left + 1, index, k =>
    let action := o.actions index
    if action.kind = spawnActionClose then
      let (result, k) := kernel.close k action.fd
      if result < 0 then .error k else childLoop o left (index + 1) k
    else if action.kind = spawnActionDup2 then
      let (result, k) := kernel.dup2 k action.fd action.newfd
      if result < 0 then .error k else childLoop o left (index + 1) k
    else .error k

/-- The end of `spawn_child`. -/
def becomes (image : Image) : Except K K → Ended K
  | .error k => .exited spawnChildFailure k
  | .ok k =>
    match kernel.execve k image with
    | .ok k => .runs image k
    | .error k => .exited spawnChildFailure k

def spawnChild (image : Image) (o : Option FileActions) (k : K) : Ended K :=
  becomes kernel image
    (match o with
    | none => .ok k
    | some o => childLoop kernel o o.count 0 k)

/-! ## Programs -/

/-- A program with objects of `ι` and variables for process numbers of `κ`. -/
structure World (O E ι κ K : Type) where
  objects : ι → O
  pids : κ → Int
  k : K
  children : List (Nat × E)

/-- A call; a null pointer is `none`. -/
inductive SpawnCall (ι κ : Type) where
  | init (o : Option ι)
  | destroy (o : Option ι)
  | addclose (o : Option ι) (fd : Int)
  | adddup2 (o : Option ι) (fd newfd : Int)
  | spawn (pid : Option κ) (path : Option (List UInt8)) (o : Option ι) (attr : Bool)
      (argv envp : Option (List (List UInt8)))

section Calls

variable {O E ι κ : Type} [DecidableEq ι] [DecidableEq κ]

namespace World

def put (w : World O E ι κ K) (i : ι) (r : Int × O) : Int × World O E ι κ K :=
  (r.1, { w with objects := Function.update w.objects i r.2 })

/-- The end of `posix_spawn` from `mini_sys_fork` on, for a child that does `run`. -/
def forkWith (w : World O E ι κ K) (pid : Option κ) (run : K → E) : Int × World O E ι κ K :=
  match kernel.fork w.k with
  | .error (error, k) => (error, { w with k })
  | .ok (child, k, twin) =>
    (0, { w with k, pids := (match pid with
                             | none => w.pids
                             | some p => Function.update w.pids p child),
                 children := w.children ++ [(child, run twin)] })

/-- `posix_spawn_file_actions_init` -/
def init (w : World FileActions (Ended K) ι κ K) : Option ι → Int × World FileActions (Ended K) ι κ K
  | none => (spawnEinval, w)
  | some i => w.put i (0, (w.objects i).init)

/-- `posix_spawn_file_actions_destroy` -/
def destroy (w : World FileActions (Ended K) ι κ K) : Option ι → Int × World FileActions (Ended K) ι κ K
  | none => (spawnEinval, w)
  | some i => w.put i (w.objects i).destroy

/-- `reserve_action` through a pointer. -/
def reserve (w : World FileActions (Ended K) ι κ K) (o : Option ι) (kind fd newfd : Int) : Int × World FileActions (Ended K) ι κ K :=
  match o with
  | none => (spawnEinval, w)
  | some i => w.put i ((w.objects i).reserve kind fd newfd)

/-- `posix_spawn_file_actions_addclose` -/
def addclose (w : World FileActions (Ended K) ι κ K) (o : Option ι) (fd : Int) : Int × World FileActions (Ended K) ι κ K :=
  if fd < 0 then (spawnEbadf, w) else w.reserve o spawnActionClose fd (-1)

/-- `posix_spawn_file_actions_adddup2` -/
def adddup2 (w : World FileActions (Ended K) ι κ K) (o : Option ι) (fd newfd : Int) : Int × World FileActions (Ended K) ι κ K :=
  if fd < 0 ∨ newfd < 0 then (spawnEbadf, w) else w.reserve o spawnActionDup2 fd newfd

/-- `posix_spawn` -/
def posixSpawn (w : World FileActions (Ended K) ι κ K) (pid : Option κ) (path : Option (List UInt8)) (o : Option ι)
    (attr : Bool) (argv envp : Option (List (List UInt8))) : Int × World FileActions (Ended K) ι κ K :=
  match path, argv, envp with
  | some path, some argv, some envp =>
    if attr || (o.any fun i => !(w.objects i).valid) then (spawnEinval, w)
    else w.forkWith kernel pid (spawnChild kernel ⟨path, argv, envp⟩ (o.map w.objects))
  | _, _, _ => (spawnEinval, w)

def call (w : World FileActions (Ended K) ι κ K) : SpawnCall ι κ → Int × World FileActions (Ended K) ι κ K
  | .init o => w.init o
  | .destroy o => w.destroy o
  | .addclose o fd => w.addclose o fd
  | .adddup2 o fd newfd => w.adddup2 o fd newfd
  | .spawn pid path o attr argv envp => w.posixSpawn kernel pid path o attr argv envp

def calls (w : World FileActions (Ended K) ι κ K) : List (SpawnCall ι κ) → List Int × World FileActions (Ended K) ι κ K
  | [] => ([], w)
  | c :: cs =>
    let (r, w) := w.call kernel c
    let (rs, w) := w.calls cs
    (r :: rs, w)

end World

/-! ## What the program asks for -/

/-- An action as its author means it. -/
inductive Redirection where
  | close (fd : Nat)
  | dup2 (fd newfd : Nat)

def Redirection.action : Redirection → SpawnAction
  | .close fd => ⟨spawnActionClose, fd, -1⟩
  | .dup2 fd newfd => ⟨spawnActionDup2, fd, newfd⟩

def Redirection.perform (k : K) : Redirection → Except K K
  | .close fd =>
    let (result, k) := kernel.close k fd
    if result < 0 then .error k else .ok k
  | .dup2 fd newfd =>
    let (result, k) := kernel.dup2 k fd newfd
    if result < 0 then .error k else .ok k

/-- What a program knows of an object. -/
inductive Recorded where
  | unknown
  | live (l : List Redirection)
  | destroyed

namespace Recorded

/-- Nothing is said about the use of an object that was never initialised. -/
def destroy : Recorded → Option (Int × Recorded)
  | .unknown => none
  | .live _ => some (0, .destroyed)
  | .destroyed => some (spawnEinval, .destroyed)

def record (a : Redirection) : Recorded → Option (Int × Recorded)
  | .unknown => none
  | .live l => some (if l.length = spawnActionCapacity then (spawnEnomem, .live l) else (0, .live (l ++ [a])))
  | .destroyed => some (spawnEinval, .destroyed)

def toSpawn : Recorded → Option (Option (List Redirection))
  | .unknown => none
  | .live l => some (some l)
  | .destroyed => some none

end Recorded

/-- A child as its author means it. -/
structure Wanted (K : Type) where
  image : Image
  redirections : List Redirection
  twin : K

/-- The redirections in order, up to the first that fails. -/
def Wanted.ended (c : Wanted K) : Ended K :=
  becomes kernel c.image (c.redirections.foldlM (Redirection.perform kernel) c.twin)

abbrev Plan (ι κ K : Type) := World Recorded (Wanted K) ι κ K

namespace Plan

def init (s : Plan ι κ K) : Option ι → Option (Int × Plan ι κ K)
  | none => some (spawnEinval, s)
  | some i => some (s.put i (0, .live []))

def destroy (s : Plan ι κ K) : Option ι → Option (Int × Plan ι κ K)
  | none => some (spawnEinval, s)
  | some i => (s.objects i).destroy.map (s.put i)

def record (s : Plan ι κ K) (a : Redirection) : Option ι → Option (Int × Plan ι κ K)
  | none => some (spawnEinval, s)
  | some i => ((s.objects i).record a).map (s.put i)

/-- The redirections of a spawn; `some none` is an object that was destroyed. -/
def asked (s : Plan ι κ K) : Option ι → Option (Option (List Redirection))
  | none => some (some [])
  | some i => (s.objects i).toSpawn

def spawn (s : Plan ι κ K) (pid : Option κ) (path : Option (List UInt8)) (o : Option ι) (attr : Bool)
    (argv envp : Option (List (List UInt8))) : Option (Int × Plan ι κ K) :=
  match path, argv, envp, attr with
  | some path, some argv, some envp, false => (s.asked o).map fun asked =>
    match asked with
    | none => (spawnEinval, s)
    | some l => s.forkWith kernel pid (⟨⟨path, argv, envp⟩, l, ·⟩)
  | _, _, _, _ => some (spawnEinval, s)

def call (s : Plan ι κ K) : SpawnCall ι κ → Option (Int × Plan ι κ K)
  | .init o => s.init o
  | .destroy o => s.destroy o
  | .addclose o fd => if fd < 0 then some (spawnEbadf, s) else s.record (.close fd.toNat) o
  | .adddup2 o fd newfd =>
    if fd < 0 ∨ newfd < 0 then some (spawnEbadf, s) else s.record (.dup2 fd.toNat newfd.toNat) o
  | .spawn pid path o attr argv envp => s.spawn kernel pid path o attr argv envp

def calls (s : Plan ι κ K) : List (SpawnCall ι κ) → Option (List Int × Plan ι κ K)
  | [] => some ([], s)
  | c :: cs => do
    let (r, s) ← s.call kernel c
    let (rs, s) ← s.calls cs
    some (r :: rs, s)

end Plan

/-! ## One object -/

/-- What is known of an object is true. -/
def Stands (o : FileActions) : Recorded → Prop
  | .unknown => True
  | .live l => o.magic = spawnActionsMagic ∧ o.count = l.length ∧ l.length ≤ spawnActionCapacity ∧
      ∀ i, (h : i < l.length) → o.actions i = l[i].action
  | .destroyed => o.magic = 0

theorem stands_init (o : FileActions) : Stands o.init (.live []) :=
  ⟨rfl, rfl, Nat.zero_le _, fun _ h => absurd h (Nat.not_lt_zero _)⟩

theorem valid_live {o : FileActions} {l : List Redirection} (h : Stands o (.live l)) : o.valid = true := by
  obtain ⟨hmagic, hcount, hfits, -⟩ := h
  simp [FileActions.valid, hmagic, hcount, hfits]

theorem valid_destroyed {o : FileActions} (h : Stands o .destroyed) : o.valid = false := by
  have hmagic : o.magic = 0 := h
  simp [FileActions.valid, hmagic, spawnActionsMagic]

theorem stands_destroy {o : FileActions} {r r' : Recorded} {result : Int} (h : Stands o r)
    (hd : r.destroy = some (result, r')) : o.destroy.1 = result ∧ Stands o.destroy.2 r' := by
  unfold FileActions.destroy
  cases r with
  | unknown => cases hd
  | live l =>
    cases hd
    simp [valid_live h, Stands]
  | destroyed =>
    cases hd
    simpa [valid_destroyed h] using h

theorem stands_reserve {o : FileActions} {r r' : Recorded} {a : Redirection} {result : Int} (h : Stands o r)
    (hr : r.record a = some (result, r')) :
    (o.reserve a.action.kind a.action.fd a.action.newfd).1 = result ∧
      Stands (o.reserve a.action.kind a.action.fd a.action.newfd).2 r' := by
  unfold FileActions.reserve
  cases r with
  | unknown => cases hr
  | destroyed =>
    cases hr
    simpa [valid_destroyed h] using h
  | live l =>
    have hvalid := valid_live h
    obtain ⟨hmagic, hcount, hfits, hactions⟩ := h
    have hr := Option.some.inj hr
    by_cases hfull : l.length = spawnActionCapacity
    · rw [if_pos hfull] at hr
      cases hr
      simp only [hvalid, hcount, hfull]
      exact ⟨rfl, hmagic, hcount, hfits, hactions⟩
    · rw [if_neg hfull] at hr
      cases hr
      simp only [hvalid, hcount, hfull]
      refine ⟨rfl, hmagic, by simp, by simp; omega, fun i hi => ?_⟩
      by_cases hlast : i = l.length
      · subst hlast
        simp
      · have hlt : i < l.length := by
          simp at hi
          omega
        simp [hlast, hlt, hactions i hlt]

/-- One action of the loop. -/
theorem childLoop_succ (o : FileActions) {a : Redirection} {index : Nat} (h : o.actions index = a.action) (left : Nat)
    (k : K) : childLoop kernel o (left + 1) index k =
      (a.perform kernel k).bind (childLoop kernel o left (index + 1)) := by
  cases a with
  | close fd =>
    simp only [childLoop, h, Redirection.action, Redirection.perform, if_true]
    split <;> rfl
  | dup2 fd newfd =>
    have hkind : spawnActionDup2 ≠ spawnActionClose := by decide
    simp only [childLoop, h, Redirection.action, Redirection.perform, if_neg hkind, if_true]
    split <;> rfl

theorem childLoop_eq {o : FileActions} {l : List Redirection} (h : Stands o (.live l)) (left index : Nat)
    (hend : index + left = l.length) (k : K) :
    childLoop kernel o left index k = (l.drop index).foldlM (Redirection.perform kernel) k := by
  induction left generalizing index k with
  | zero =>
    rw [List.drop_eq_nil_of_le (by omega)]
    rfl
  | succ left ih =>
    have hlt : index < l.length := by omega
    rw [childLoop_succ kernel o (h.2.2.2 index hlt), List.drop_eq_getElem_cons hlt, List.foldlM_cons]
    refine congrArg (Except.bind _) (funext fun k => ?_)
    exact ih (index + 1) (by omega) k

theorem spawnChild_eq {o : FileActions} {l : List Redirection} (h : Stands o (.live l)) (image : Image) (k : K) :
    spawnChild kernel image (some o) k = Wanted.ended kernel ⟨image, l, k⟩ := by
  unfold spawnChild Wanted.ended
  dsimp only
  rw [childLoop_eq kernel h o.count 0 (by rw [h.2.1, Nat.zero_add]), List.drop_zero]

/-! ## Whole programs -/

/-- The program is where its author thinks it is. -/
structure Agrees (w : World FileActions (Ended K) ι κ K) (s : Plan ι κ K) : Prop where
  objects : ∀ i, Stands (w.objects i) (s.objects i)
  pids : w.pids = s.pids
  k : w.k = s.k
  children : w.children = s.children.map fun c => (c.1, c.2.ended kernel)

/-- Nothing is known of the objects yet. -/
def World.plan (w : World FileActions (Ended K) ι κ K) : Plan ι κ K := ⟨fun _ => .unknown, w.pids, w.k, []⟩

namespace Agrees

variable {kernel} {w : World FileActions (Ended K) ι κ K} {s s' : Plan ι κ K} {result : Int}

omit [DecidableEq κ] in
theorem put (h : Agrees kernel w s) {i : ι} {r : Int × FileActions} {r' : Int × Recorded}
    (hr : r.1 = r'.1 ∧ Stands r.2 r'.2) :
    (w.put i r).1 = (s.put i r').1 ∧ Agrees kernel (w.put i r).2 (s.put i r').2 := by
  refine ⟨hr.1, fun j => ?_, h.pids, h.k, h.children⟩
  unfold World.put
  by_cases hj : j = i
  · subst hj
    simpa using hr.2
  · simpa [hj] using h.objects j

omit [DecidableEq κ] in
theorem init (h : Agrees kernel w s) {o : Option ι} (hs : Plan.init s o = some (result, s')) :
    (w.init o).1 = result ∧ Agrees kernel (w.init o).2 s' := by
  cases o with
  | none =>
    cases hs
    exact ⟨rfl, h⟩
  | some i =>
    cases hs
    have hinit : (0 : Int) = ((0, .live []) : Int × Recorded).1 ∧
        Stands (w.objects i).init ((0, .live []) : Int × Recorded).2 := ⟨rfl, stands_init _⟩
    exact h.put (r := (0, (w.objects i).init)) hinit

omit [DecidableEq κ] in
theorem destroy (h : Agrees kernel w s) {o : Option ι} (hs : Plan.destroy s o = some (result, s')) :
    (w.destroy o).1 = result ∧ Agrees kernel (w.destroy o).2 s' := by
  cases o with
  | none =>
    cases hs
    exact ⟨rfl, h⟩
  | some i =>
    obtain ⟨r, hr, hput⟩ := Option.map_eq_some_iff.1 hs
    have hboth := h.put (i := i) (stands_destroy (h.objects i) hr)
    rw [hput] at hboth
    exact hboth

omit [DecidableEq κ] in
theorem reserve (h : Agrees kernel w s) {a : Redirection} {o : Option ι}
    (hs : Plan.record s a o = some (result, s')) :
    (w.reserve o a.action.kind a.action.fd a.action.newfd).1 = result ∧
      Agrees kernel (w.reserve o a.action.kind a.action.fd a.action.newfd).2 s' := by
  cases o with
  | none =>
    cases hs
    exact ⟨rfl, h⟩
  | some i =>
    obtain ⟨r, hr, hput⟩ := Option.map_eq_some_iff.1 hs
    have hboth := h.put (i := i) (stands_reserve (h.objects i) hr)
    rw [hput] at hboth
    exact hboth

omit [DecidableEq ι] in
theorem forkWith (h : Agrees kernel w s) (pid : Option κ) (run : K → Ended K) (want : K → Wanted K)
    (hrun : ∀ k, run k = (want k).ended kernel) :
    (w.forkWith kernel pid run).1 = (s.forkWith kernel pid want).1 ∧
      Agrees kernel (w.forkWith kernel pid run).2 (s.forkWith kernel pid want).2 := by
  unfold World.forkWith
  rw [h.k]
  cases kernel.fork s.k with
  | error e => exact ⟨rfl, h.objects, h.pids, rfl, h.children⟩
  | ok r =>
    refine ⟨rfl, h.objects, ?_, rfl, ?_⟩
    · simp only [h.pids]
    · simp [h.children, hrun]

omit [DecidableEq ι] in
theorem posixSpawn (h : Agrees kernel w s) {pid : Option κ} {path : Option (List UInt8)} {o : Option ι} {attr : Bool}
    {argv envp : Option (List (List UInt8))}
    (hs : Plan.spawn kernel s pid path o attr argv envp = some (result, s')) :
    (w.posixSpawn kernel pid path o attr argv envp).1 = result ∧
      Agrees kernel (w.posixSpawn kernel pid path o attr argv envp).2 s' := by
  unfold Plan.spawn at hs
  unfold World.posixSpawn
  split at hs
  · rename_i path argv envp
    obtain ⟨asked, hasked, hs⟩ := Option.map_eq_some_iff.1 hs
    cases o with
    | none =>
      cases hasked
      have hboth := h.forkWith pid (spawnChild kernel ⟨path, argv, envp⟩ none)
        (⟨⟨path, argv, envp⟩, [], ·⟩) fun _ => rfl
      dsimp only at hs
      rw [hs] at hboth
      exact hboth
    | some i =>
      have hstands := h.objects i
      have hasked : (s.objects i).toSpawn = some asked := hasked
      cases hi : s.objects i with
      | unknown =>
        rw [hi] at hasked
        cases hasked
      | destroyed =>
        rw [hi] at hasked hstands
        cases hasked
        cases hs
        simp only [Option.any_some, valid_destroyed hstands]
        exact ⟨rfl, h⟩
      | live l =>
        rw [hi] at hasked hstands
        cases hasked
        have hboth := h.forkWith pid (spawnChild kernel ⟨path, argv, envp⟩ (some (w.objects i)))
          (⟨⟨path, argv, envp⟩, l, ·⟩) fun k => spawnChild_eq kernel hstands _ k
        dsimp only at hs
        rw [hs] at hboth
        simp only [Option.any_some, valid_live hstands]
        exact hboth
  · rename_i hno
    cases hs
    split
    · rename_i path argv envp
      cases attr with
      | false => exact absurd rfl (hno path argv envp rfl rfl rfl)
      | true => exact ⟨rfl, h⟩
    · exact ⟨rfl, h⟩

theorem call (h : Agrees kernel w s) {c : SpawnCall ι κ} (hs : Plan.call kernel s c = some (result, s')) :
    (w.call kernel c).1 = result ∧ Agrees kernel (w.call kernel c).2 s' := by
  cases c with
  | init o => exact h.init hs
  | destroy o => exact h.destroy hs
  | addclose o fd =>
    unfold Plan.call at hs
    unfold World.call World.addclose
    dsimp only at hs ⊢
    split_ifs at hs ⊢ with hneg
    · cases hs
      exact ⟨rfl, h⟩
    · have hboth := h.reserve hs
      simp only [Redirection.action, Int.toNat_of_nonneg (not_lt.1 hneg)] at hboth
      exact hboth
  | adddup2 o fd newfd =>
    unfold Plan.call at hs
    unfold World.call World.adddup2
    dsimp only at hs ⊢
    split_ifs at hs ⊢ with hneg
    · cases hs
      exact ⟨rfl, h⟩
    · have hboth := h.reserve hs
      rw [not_or, not_lt, not_lt] at hneg
      simp only [Redirection.action, Int.toNat_of_nonneg hneg.1, Int.toNat_of_nonneg hneg.2] at hboth
      exact hboth
  | spawn pid path o attr argv envp => exact h.posixSpawn hs

theorem calls (h : Agrees kernel w s) {cs : List (SpawnCall ι κ)} {results : List Int}
    (hs : Plan.calls kernel s cs = some (results, s')) :
    (w.calls kernel cs).1 = results ∧ Agrees kernel (w.calls kernel cs).2 s' := by
  induction cs generalizing w s results s' with
  | nil =>
    cases hs
    exact ⟨rfl, h⟩
  | cons c cs ih =>
    unfold Plan.calls at hs
    obtain ⟨r, hr, hs⟩ := Option.bind_eq_some_iff.1 hs
    obtain ⟨rest, hrest, hs⟩ := Option.bind_eq_some_iff.1 hs
    cases hs
    obtain ⟨hresult, hnext⟩ := h.call hr
    obtain ⟨hresults, hend⟩ := ih hnext hrest
    unfold World.calls
    dsimp only
    exact ⟨by rw [hresult, hresults], hend⟩

end Agrees

/-- Whatever the memory of its objects held, a program that initialises them before their
use gets, through any calls, the results that it expects: an object takes eight actions and
then says `ENOMEM`, and is refused after its destruction until it is initialised again; a
negative descriptor is refused with `EBADF`, a missing argument or an attribute with
`EINVAL`, each without a child. Every child performs the actions recorded when it was
spawned, in order, up to the first that fails, when it exits with 127, and only then becomes
the image; what is done to the object afterwards is nothing to it. -/
theorem spawn_runs (w : World FileActions (Ended K) ι κ K) (hfirst : w.children = []) {cs : List (SpawnCall ι κ)}
    {results : List Int} {s : Plan ι κ K} (h : Plan.calls kernel w.plan cs = some (results, s)) :
    (w.calls kernel cs).1 = results ∧ Agrees kernel (w.calls kernel cs).2 s := by
  have hstart : Agrees kernel w w.plan := ⟨fun _ => trivial, rfl, rfl, hfirst⟩
  exact hstart.calls h

/-! ## The descriptors of a child -/

/-- What each descriptor of a process stands for, and whether `execve` closes it. -/
abbrev Descriptors (File : Type) := Nat → Option (File × Bool)

variable {File : Type}

/-- A redirection that succeeds. A copy stays open in the image, but not one onto itself. -/
def Redirection.redirect (d : Descriptors File) : Redirection → Descriptors File
  | .close fd => Function.update d fd none
  | .dup2 fd newfd => if fd = newfd then d else Function.update d newfd ((d fd).map fun f => (f.1, false))

/-- What `execve` leaves open. -/
def inherited (d : Descriptors File) : Descriptors File := fun fd => (d fd).filter fun f => !f.2

/-- What the kernel promises, of calls that succeed and of `fork`. -/
structure Documented (d : K → Descriptors File) : Prop where
  close : ∀ {k fd}, 0 ≤ (kernel.close k (Nat.cast fd)).1 →
    d (kernel.close k (Nat.cast fd)).2 = Function.update (d k) fd none
  dup2 : ∀ {k fd newfd}, 0 ≤ (kernel.dup2 k (Nat.cast fd) (Nat.cast newfd)).1 →
    d (kernel.dup2 k (Nat.cast fd) (Nat.cast newfd)).2 =
      if fd = newfd then d k else Function.update (d k) newfd ((d k fd).map fun f => (f.1, false))
  execve : ∀ {k k' image}, kernel.execve k image = .ok k' → d k' = inherited (d k)
  fork : ∀ {k pid k' twin}, kernel.fork k = .ok (pid, k', twin) → d k' = d k ∧ d twin = d k
  noFork : ∀ {k error k'}, kernel.fork k = .error (error, k') → d k' = d k

/-- A child of a process with descriptors `d₀` did what it was asked for. -/
def Wanted.Meets (c : Wanted K) (d : K → Descriptors File) (d₀ : Descriptors File) : Ended K → Prop
  | .exited status _ => status = spawnChildFailure
  | .runs image k => image = c.image ∧ d k = inherited (c.redirections.foldl Redirection.redirect d₀)

section

variable {kernel} {d : K → Descriptors File}

theorem Documented.perform (hd : Documented kernel d) {k k' : K} {a : Redirection}
    (h : a.perform kernel k = .ok k') : d k' = a.redirect (d k) := by
  cases a with
  | close fd =>
    unfold Redirection.perform at h
    dsimp only at h
    split_ifs at h with hneg
    cases h
    exact hd.close (not_lt.1 hneg)
  | dup2 fd newfd =>
    unfold Redirection.perform at h
    dsimp only at h
    split_ifs at h with hneg
    cases h
    exact hd.dup2 (not_lt.1 hneg)

theorem Documented.performs (hd : Documented kernel d) {l : List Redirection} {k k' : K}
    (h : l.foldlM (Redirection.perform kernel) k = .ok k') : d k' = l.foldl Redirection.redirect (d k) := by
  induction l generalizing k with
  | nil =>
    cases h
    rfl
  | cons a l ih =>
    rw [List.foldlM_cons] at h
    cases ha : a.perform kernel k with
    | error e =>
      rw [ha] at h
      cases h
    | ok k₁ =>
      rw [ha] at h
      rw [ih h, hd.perform ha, List.foldl_cons]

theorem Documented.meets (hd : Documented kernel d) (c : Wanted K) : c.Meets d (d c.twin) (c.ended kernel) := by
  unfold Wanted.ended becomes
  cases hl : c.redirections.foldlM (Redirection.perform kernel) c.twin with
  | error k => rfl
  | ok k =>
    dsimp only
    cases he : kernel.execve k c.image with
    | error k' => rfl
    | ok k' =>
      refine ⟨rfl, ?_⟩
      rw [hd.execve he, hd.performs hl]

/-- The program and its children have the descriptors that the program began with. -/
def Plan.Keeps (s : Plan ι κ K) (d : K → Descriptors File) (d₀ : Descriptors File) : Prop :=
  d s.k = d₀ ∧ ∀ c ∈ s.children, d c.2.twin = d₀

omit [DecidableEq ι] in
theorem Plan.Keeps.forkWith (hd : Documented kernel d) {s : Plan ι κ K} {d₀ : Descriptors File} (h : s.Keeps d d₀)
    (pid : Option κ) (image : Image) (l : List Redirection) :
    Plan.Keeps (s.forkWith kernel pid (⟨image, l, ·⟩)).2 d d₀ := by
  obtain ⟨hk, hchildren⟩ := h
  unfold World.forkWith
  cases hf : kernel.fork s.k with
  | error e => exact ⟨(hd.noFork hf).trans hk, hchildren⟩
  | ok r =>
    obtain ⟨hparent, htwin⟩ := hd.fork hf
    refine ⟨hparent.trans hk, fun c hc => ?_⟩
    rcases List.mem_append.1 hc with hc | hc
    · exact hchildren c hc
    · rw [List.mem_singleton.1 hc]
      exact htwin.trans hk

theorem Plan.Keeps.call (hd : Documented kernel d) {s s' : Plan ι κ K} {d₀ : Descriptors File} (h : s.Keeps d d₀)
    {c : SpawnCall ι κ} {result : Int} (hs : s.call kernel c = some (result, s')) : s'.Keeps d d₀ := by
  have hrecord {a : Redirection} {o : Option ι} (hs : s.record a o = some (result, s')) : s'.Keeps d d₀ := by
    cases o with
    | none =>
      cases hs
      exact h
    | some i =>
      obtain ⟨r, -, hput⟩ := Option.map_eq_some_iff.1 hs
      cases hput
      exact h
  cases c with
  | init o =>
    cases o <;> cases hs <;> exact h
  | destroy o =>
    cases o with
    | none =>
      cases hs
      exact h
    | some i =>
      obtain ⟨r, -, hput⟩ := Option.map_eq_some_iff.1 hs
      cases hput
      exact h
  | addclose o fd =>
    unfold Plan.call at hs
    dsimp only at hs
    split_ifs at hs
    · cases hs
      exact h
    · exact hrecord hs
  | adddup2 o fd newfd =>
    unfold Plan.call at hs
    dsimp only at hs
    split_ifs at hs
    · cases hs
      exact h
    · exact hrecord hs
  | spawn pid path o attr argv envp =>
    unfold Plan.call Plan.spawn at hs
    dsimp only at hs
    split at hs
    · rename_i path argv envp
      obtain ⟨asked, -, hs⟩ := Option.map_eq_some_iff.1 hs
      cases asked with
      | none =>
        cases hs
        exact h
      | some l =>
        have hfork := h.forkWith hd pid ⟨path, argv, envp⟩ l
        dsimp only at hs
        rw [hs] at hfork
        exact hfork
    · cases hs
      exact h

theorem Plan.Keeps.calls (hd : Documented kernel d) {s s' : Plan ι κ K} {d₀ : Descriptors File} (h : s.Keeps d d₀)
    {cs : List (SpawnCall ι κ)} {results : List Int} (hs : s.calls kernel cs = some (results, s')) :
    s'.Keeps d d₀ := by
  induction cs generalizing s results s' with
  | nil =>
    cases hs
    exact h
  | cons c cs ih =>
    unfold Plan.calls at hs
    obtain ⟨r, hr, hs⟩ := Option.bind_eq_some_iff.1 hs
    obtain ⟨rest, hrest, hs⟩ := Option.bind_eq_some_iff.1 hs
    cases hs
    exact ih (h.call hd hr) hrest

end

/-- The calls leave the descriptors of the program alone, whatever its children do to theirs.
A child exits with 127, or it runs its image with the descriptors of the program after
exactly the recorded actions, less those that `execve` closes. -/
theorem spawn_descriptors {d : K → Descriptors File} (hd : Documented kernel d) (w : World FileActions (Ended K) ι κ K)
    (hfirst : w.children = []) {cs : List (SpawnCall ι κ)} {results : List Int} {s : Plan ι κ K}
    (h : Plan.calls kernel w.plan cs = some (results, s)) :
    d (w.calls kernel cs).2.k = d w.k ∧ ∀ child ∈ (w.calls kernel cs).2.children,
      ∃ c, (child.1, c) ∈ s.children ∧ c.Meets d (d w.k) child.2 := by
  have hstart : Agrees kernel w w.plan := ⟨fun _ => trivial, rfl, rfl, hfirst⟩
  have hend := (hstart.calls h).2
  have hkeeps : s.Keeps d (d w.k) := Plan.Keeps.calls hd ⟨rfl, fun _ hc => absurd hc List.not_mem_nil⟩ h
  refine ⟨(congrArg d hend.k).trans hkeeps.1, fun child hchild => ?_⟩
  rw [hend.children] at hchild
  obtain ⟨c, hc, rfl⟩ := List.mem_map.1 hchild
  refine ⟨c.2, hc, ?_⟩
  have hmeets := hd.meets c.2
  rwa [hkeeps.2 c hc] at hmeets

end Calls

/-- A process that is only its descriptors; a number without a file gives `EBADF`. -/
def demoKernel : Kernel (Descriptors Nat) where
  close k fd := if (k fd.toNat).isSome then (0, Function.update k fd.toNat none) else (-9, k)
  dup2 k fd newfd :=
    if (k fd.toNat).isSome then
      (newfd, if fd = newfd then k else Function.update k newfd.toNat ((k fd.toNat).map fun f => (f.1, false)))
    else (-9, k)
  execve k _ := .ok (inherited k)
  fork k := .ok (41, k, k)

theorem demoKernel_documented : Documented demoKernel id where
  close h := by
    simp only [demoKernel, Int.toNat_natCast] at h ⊢
    split_ifs at h ⊢
    · rfl
    · omega
  dup2 h := by
    simp only [demoKernel, Int.toNat_natCast] at h ⊢
    split_ifs at h ⊢ <;> simp_all
  execve h := by
    cases h
    rfl
  fork h := by
    cases h
    exact ⟨rfl, rfl⟩
  noFork h := by cases h

/-- Memory that no one initialised, and the write end of a pipe, closed by `execve`, as 3. -/
def demoWorld : World FileActions (Ended (Descriptors Nat)) Unit Unit (Descriptors Nat) :=
  ⟨fun _ => ⟨0xdead, 77, fun _ => ⟨5, 5, 5⟩⟩, fun _ => 0, Function.update (fun _ => none) 3 (some (7, true)), []⟩

/-- The output of the child goes to the pipe. -/
def demoCalls : List (SpawnCall Unit Unit) :=
  [.init (some ()), .adddup2 (some ()) 3 1, .addclose (some ()) 3, .addclose (some ()) (-1),
    .spawn (some ()) (some []) (some ()) false (some []) (some []), .destroy (some ()), .addclose (some ()) 4]

theorem spawn_runs_demo : ∃ s : Plan Unit Unit (Descriptors Nat),
    (demoWorld.calls demoKernel demoCalls).1 = [0, 0, 0, 9, 0, 0, 22] ∧
      Agrees demoKernel (demoWorld.calls demoKernel demoCalls).2 s :=
  ⟨_, spawn_runs demoKernel demoWorld rfl rfl⟩

theorem spawn_descriptors_demo : ∃ s : Plan Unit Unit (Descriptors Nat),
    s.children.map (fun c => c.2.redirections.length) = [2] ∧
      (demoWorld.calls demoKernel demoCalls).2.k = demoWorld.k ∧
      ∀ child ∈ (demoWorld.calls demoKernel demoCalls).2.children,
        ∃ c, (child.1, c) ∈ s.children ∧ c.Meets id demoWorld.k child.2 :=
  ⟨_, rfl, spawn_descriptors demoKernel demoKernel_documented demoWorld rfl (s := _) rfl⟩

end MiniLibc.Process
