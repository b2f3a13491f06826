import MiniLibc.Stdio.Rebuffer
import MiniLibc.Stdio.Release
/-!
# `setvbuf` in the runs of a process

The calls of `file.c` and the operations on each stream, in any order. In every
state the books are kept and every stream that has not been freed is `Held`, so
a `setvbuf` that fails takes nothing away and one that succeeds leaves nothing
behind.
-/
open MiniLibc.Memory MiniLibc.Ledger MiniLibc.Runs

namespace MiniLibc.Stdio

variable {ν κ : Type}

/-! ## New, rebound and rebuffered streams -/

/-- A stream with nothing in it, whatever its mode. -/
theorem Held.reset {f : File} (h : (f.writeBuffer = .null ↔ f.bufferSize = 0) ∧ (f.readBuffer = .null ↔ f.bufferSize = 0))
    (hstate : f.state = {}) (hw : f.writeLength = 0) (hro : f.readOffset = 0) (hrl : f.readLength = 0)
    (hpo : f.pushbackOffset = 0) (hpl : f.pushbackLength = 0) : Held f where
  directed hu := Opened.directed ⟨hu, hstate, hw, hro, hrl, hpo, hpl⟩
  bare _ := ⟨hw, hro, hrl⟩
  unread hd := by
    refine absurd ⟨?_, ?_⟩ hd
    · rw [hpo, hpl]
      exact Nat.lt_irrefl 0
    · rw [hro, hrl]
      exact Nat.lt_irrefl 0
  sync hs := by
    rw [hstate] at hs
    cases hs
  stored := h

/-- What `setvbuf` leaves of a stream whose barrier is down. -/
theorem Held.rebuffer {x : Stream κ} (hb : x.file.buffers = (.null, .null, 0))
    (hs : x.file.state.writeNeedsSync = false) (block : Option (Block × Mem)) (newOwned : Bool) {mode : Int} {size : Nat}
    (hgiven : mode ≠ ioNbf → block ≠ none ∧ size ≠ 0) : Held (x.rebuffer block newOwned mode size).file := by
  simp only [File.buffers, Prod.mk.injEq] at hb
  obtain ⟨hw, hr, hsize⟩ := hb
  have hdown : ∀ {s : State}, s = x.file.state → s.writeNeedsSync = true → ∀ {p : Prop}, p := by
    intro s h hup
    rw [h, hs] at hup
    cases hup
  by_cases hm : mode = ioNbf
  · have hfile : (x.rebuffer block newOwned mode size).file = { discardInput { x.file with mode := { x.file.mode with
        unbuffered := decide (mode = ioNbf), lineBuffered := decide (mode = ioLbf), bufferOwned := newOwned } } with
        writeLength := 0 } := by
      unfold Stream.rebuffer
      dsimp only
      split
      · rw [if_neg (by simp [hm])]
      · rfl
    rw [hfile]
    exact {
      directed := fun hu => absurd hm (of_decide_eq_false hu)
      bare := fun _ => ⟨rfl, rfl, rfl⟩
      unread := fun hd => absurd ⟨Nat.lt_irrefl 0, Nat.lt_irrefl 0⟩ hd
      sync := fun hup => hdown rfl hup
      stored := ⟨iff_of_true hw hsize, iff_of_true hr hsize⟩ }
  · obtain ⟨hblock, hsize'⟩ := hgiven hm
    obtain ⟨⟨b, bytes⟩, rfl⟩ := Option.ne_none_iff_exists'.1 hblock
    have hfile : (x.rebuffer (some (b, bytes)) newOwned mode size).file = { discardInput { x.file with
        mode := { x.file.mode with
          unbuffered := decide (mode = ioNbf), lineBuffered := decide (mode = ioLbf), bufferOwned := newOwned } } with
        writeLength := 0, writeBuffer := .custom, readBuffer := .custom, bufferSize := size, customBuffer := bytes } := by
      unfold Stream.rebuffer
      dsimp only
      rw [if_pos hm]
    rw [hfile]
    have hstored : (Storage.custom = .null ↔ size = 0) := iff_of_false (by rintro ⟨⟩) hsize'
    exact {
      directed := fun _ => {
        write_le := Nat.zero_le _
        write_stored := fun h => absurd h (Nat.lt_irrefl 0)
        read_offset_le := Nat.le_refl _
        read_le := Nat.zero_le _
        read_stored := fun h => absurd h (Nat.lt_irrefl 0)
        buffered := decide_eq_false hm
        unread := fun hd => absurd ⟨Nat.lt_irrefl 0, Nat.lt_irrefl 0⟩ hd
        pending := fun h => absurd h (Nat.lt_irrefl 0)
        writes := fun h => absurd h (Nat.lt_irrefl 0)
        oneWay := fun h => hdown rfl h.2 }
      bare := fun hu => absurd (of_decide_eq_true hu) hm
      unread := fun hd => absurd ⟨Nat.lt_irrefl 0, Nat.lt_irrefl 0⟩ hd
      sync := fun hup => hdown rfl hup
      stored := ⟨hstored, hstored⟩ }

namespace Streams

variable {r : Streams ν κ} {s : Nat}

/-! ## Runs -/

/-- The books are kept, and every stream that has not been freed is held. -/
structure Sane (r : Streams ν κ) : Prop where
  inv : Inv r
  held : ∀ t, r.Allocated t → Held (r.stream t).file

/-- A change of the stream `s` alone, which leaves it held or frees it. -/
structure Leaves (r r' : Streams ν κ) (s : Nat) : Prop where
  stream : ∀ t, t ≠ s → r'.stream t = r.stream t
  files : ∀ t, t ≠ s → t < r'.files → t < r.files
  held : r'.Allocated s → Held (r'.stream s).file

theorem Leaves.sane {r' : Streams ν κ} (h : Leaves r r' s) (hi : Sane r) (hk : Kept r r') : Sane r' where
  inv := hk.inv
  held t ht := by
    by_cases hts : t = s
    · subst hts
      exact h.held ht
    · rw [h.stream t hts]
      have hle := hk.frees_le (.file t)
      have hzero := ht.2
      exact hi.held t ⟨h.files t hts ht.1, by omega⟩

theorem setWorld_self (r : Streams ν κ) (s : Nat) : r.setWorld s (r.world s) = r := by
  simp [setWorld, setStream, world]

theorem Leaves.trans {r₁ r₂ : Streams ν κ} (h : Leaves r r₁ s) (h' : Leaves r₁ r₂ s) : Leaves r r₂ s where
  stream t ht := (h'.stream t ht).trans (h.stream t ht)
  files t ht hlt := h.files t ht (h'.files t ht hlt)
  held := h'.held

/-- Nothing of the streams changes. -/
theorem Leaves.idle {r' : Streams ν κ} (hs : r.Allocated s → Held (r.stream s).file) (h : r'.stream = r.stream)
    (hf : r'.files = r.files) (hfrees : r'.frees = r.frees) : Leaves r r' s where
  stream t _ := congrFun h t
  files t _ hlt := hf ▸ hlt
  held ha := by
    rw [h]
    refine hs ?_
    unfold Allocated at ha ⊢
    rwa [hf, hfrees] at ha

theorem Leaves.world {w : World κ} (h : Held w.file) : Leaves r (r.setWorld s w) s where
  stream t ht := Function.update_of_ne ht _ _
  files _ _ hlt := hlt
  held _ := by
    have hfile : ((r.setWorld s w).stream s).file = w.file := congrArg World.file (world_setWorld r s w)
    rw [hfile]
    exact h

/-- A release clears the pointers, and nothing else of the streams. -/
theorem releaseBuffer_streams (r : Streams ν κ) (s : Nat) :
    (∀ t, t ≠ s → (r.releaseBuffer s).stream t = r.stream t) ∧ (r.releaseBuffer s).files = r.files ∧
      (r.releaseBuffer s).stream s = { r.stream s with file := Stdio.releaseBuffer (r.stream s).file } := by
  refine ⟨fun t ht => ?_, ?_, stream_releaseBuffer r s⟩
  · unfold releaseBuffer
    dsimp only
    split <;> exact Function.update_of_ne ht _ _
  · unfold releaseBuffer
    dsimp only
    split <;> rfl

theorem discardFailedRebind_leaves (r : Streams ν κ) (s : Nat) (owned : Bool) (e : Nat) :
    Leaves r { r.discardFailedRebind s owned with errno := e } s := by
  obtain ⟨hother, hfiles, hself⟩ := releaseBuffer_streams r s
  have hreset : ∀ mode, Held { resetReboundState (Stdio.releaseBuffer (r.stream s).file) with mode } := fun mode =>
    .reset ⟨iff_of_true rfl rfl, iff_of_true rfl rfl⟩ rfl rfl rfl rfl rfl rfl
  unfold discardFailedRebind
  dsimp only
  generalize r.releaseBuffer s = r₁ at hother hfiles hself
  cases owned with
  | true =>
    rw [if_pos rfl]
    refine ⟨fun t ht => ?_, fun t _ hlt => ?_, fun _ => ?_⟩
    · exact (Function.update_of_ne ht _ _).trans (hother t ht)
    · exact hfiles ▸ hlt
    · simp only [setFile, setStream, unregister, free, Function.update_self, hself]
      exact hreset _
  | false =>
    rw [if_neg Bool.false_ne_true]
    refine ⟨fun t ht => ?_, fun t _ hlt => ?_, fun _ => ?_⟩
    · simp only [setFile, setStream, Function.update_self, Function.update_idem]
      exact (Function.update_of_ne ht _ _).trans (hother t ht)
    · exact hfiles ▸ hlt
    · simp only [setFile, setStream, Function.update_self, hself]
      exact hreset _

theorem discardClosed_leaves (r : Streams ν κ) (s : Nat) (owned : Bool) (e : Nat) :
    Leaves r { r.discardClosed s owned with errno := e } s := by
  obtain ⟨hother, hfiles, hself⟩ := releaseBuffer_streams (r.unregister s) s
  unfold discardClosed
  dsimp only
  generalize (r.unregister s).releaseBuffer s = r₁ at hother hfiles hself
  cases owned with
  | true =>
    rw [if_pos rfl]
    refine ⟨fun t ht => hother t ht, fun t _ hlt => hfiles ▸ hlt, fun ha => ?_⟩
    have hfreed : bump r₁.frees (some (.file s)) (.file s) = 0 := ha.2
    simp [bump] at hfreed
  | false =>
    rw [if_neg Bool.false_ne_true]
    refine ⟨fun t ht => ?_, fun t _ hlt => hfiles ▸ hlt, fun _ => ?_⟩
    · exact (Function.update_of_ne ht _ _).trans (hother t ht)
    · simp only [setStream, Function.update_self, hself]
      exact .reset ⟨iff_of_true rfl rfl, iff_of_true rfl rfl⟩ rfl rfl rfl rfl rfl rfl

section
variable [Kernel κ] [System ν κ]

omit [System ν κ] in
/-- The flush of a stream that is given up is a flush of that stream alone. -/
theorem flushBefore_setWorld (r : Streams ν κ) (s : Nat) :
    (r.flushBefore s).2 = r.setWorld s (flushAllStream (r.world s)).2 := by
  unfold flushBefore flushAllStream
  rw [show (r.world s).file = (r.stream s).file from rfl]
  split
  · generalize stdioFlushBuffer (r.world s) = result
    obtain ⟨_ | _, w⟩ := result <;> rfl
  · exact (setWorld_self r s).symm

/-- The flush and the close of a stream that is given up leave it held. -/
theorem flush_close_leaves (h : Held (r.stream s).file) :
    ∃ error error' r₁ r₂, r.flushBefore s = (error, r₁) ∧ r₁.closeBefore s error = (error', r₂) ∧ Leaves r r₂ s ∧
      Held (r₂.stream s).file := by
  have hflush := flushBefore_setWorld r s
  have hheld : Held (flushAllStream (r.world s)).2.file :=
    h.moved (flushAllStream_moves (r.world s)) fun hd => (flushAllStream_directed (w := r.world s) hd).1
  generalize r.flushBefore s = flushed at hflush
  obtain ⟨error, r₁⟩ := flushed
  obtain rfl : r₁ = _ := hflush
  have hfile : ((r.setWorld s (flushAllStream (r.world s)).2).stream s).file = (flushAllStream (r.world s)).2.file :=
    congrArg World.file (world_setWorld r s _)
  obtain ⟨v, hclose⟩ := closeBefore_closed (r.setWorld s (flushAllStream (r.world s)).2) s error
  rw [← hfile] at hheld
  generalize hr₁ : r.setWorld s (flushAllStream (r.world s)).2 = r₁ at hfile hheld hclose ⊢
  have hleaves : Leaves r r₁ s := by
    rw [← hr₁]
    exact .world (hfile ▸ hr₁ ▸ hheld)
  obtain ⟨⟨error', r₂⟩, hclosing⟩ : ∃ c, r₁.closeBefore s error = c := ⟨_, rfl⟩
  rw [hclosing] at hclose
  obtain rfl : r₂ = _ := hclose
  exact ⟨error, error', r₁, _, rfl, hclosing, hleaves.trans (.idle (fun _ => hheld) rfl rfl rfl), hheld⟩

/-! ## The calls -/

omit [Kernel κ] in
theorem fopenWith_leaves (r : Streams ν κ) (filename : List Char) (flags perm : Nat) (mode : Mode) :
    Leaves r (r.fopenWith filename flags perm mode).2 r.files := by
  have hnew : ¬ r.Allocated r.files := fun ha => Nat.lt_irrefl _ ha.1
  have hfiles : ∀ t, t ≠ r.files → t < r.files + 1 → t < r.files := by omega
  unfold fopenWith mallocFile
  generalize System.malloc r.system fileSize = allocated
  obtain ⟨_ | bytes, v⟩ := allocated
  · exact .idle (fun ha => absurd ha hnew) rfl rfl rfl
  dsimp only
  unfold openat
  dsimp only
  generalize System.openat v filename flags perm = opened
  obtain ⟨e | k, v'⟩ := opened
  · refine ⟨fun _ _ => rfl, hfiles, fun ha => ?_⟩
    have hfreed : bump r.frees (some (.file r.files)) (.file r.files) = 0 := ha.2
    simp [bump] at hfreed
  · refine ⟨fun t ht => Function.update_of_ne ht _ _, hfiles, fun _ => ?_⟩
    simp only [initializeOwnedStream, setStream, register, Function.update_self]
    exact .reset ⟨iff_of_true rfl rfl, iff_of_true rfl rfl⟩ rfl rfl rfl rfl rfl rfl

omit [Kernel κ] in
theorem fopen_leaves (r : Streams ν κ) (filename mode : Option (List Char)) :
    Leaves r (r.fopen filename mode).2 r.files := by
  unfold fopen
  split
  · exact fopenWith_leaves r _ _ _ _
  · exact .idle (fun ha => absurd ha.1 (Nat.lt_irrefl _)) rfl rfl rfl

theorem fclose_leaves (h : Held (r.stream s).file) : Leaves r (r.fclose s).2 s := by
  unfold fclose
  split
  · exact Leaves.world (w := { r.world s with file.state.error := true, errno := einval })
      (h.moved (.state _ id) fun hd => hd.withState rfl rfl)
  obtain ⟨error, error', r₁, r₂, hflush, hclose, hleaves, -⟩ := flush_close_leaves h
  dsimp only
  rw [hflush]
  dsimp only
  rw [hclose]
  have hgone : ∀ e, Leaves r { r₂.discardClosed s (r.stream s).file.mode.owned with errno := e } s := fun e =>
    hleaves.trans (discardClosed_leaves r₂ s _ e)
  dsimp only
  split
  · exact hgone error'
  · exact hgone _

theorem freopen_leaves (h : Held (r.stream s).file) (filename mode : Option (List Char)) :
    Leaves r (r.freopen s filename mode).2 s := by
  unfold freopen
  split
  · rename_i filename' flags parsed _ _
    obtain ⟨error, error', r₁, r₂, hflush, hclose, hleaves, hheld⟩ := flush_close_leaves h
    dsimp only
    rw [hflush]
    dsimp only
    rw [hclose]
    split
    · exact hleaves.trans (discardFailedRebind_leaves r₂ s _ error')
    · unfold openat
      dsimp only
      generalize System.openat r₂.system filename' flags 438 = opened
      obtain ⟨e | k, v⟩ := opened
      · have hidle : Leaves r₂ { r₂ with system := v } s := .idle (fun _ => hheld) rfl rfl rfl
        exact (hleaves.trans hidle).trans (discardFailedRebind_leaves { r₂ with system := v } s _ e)
      · refine hleaves.trans ⟨fun t ht => Function.update_of_ne ht _ _, fun t _ hlt => hlt, fun _ => ?_⟩
        simp only [setStream, Function.update_self]
        exact .reset hheld.stored rfl rfl rfl rfl rfl rfl
  · exact .idle (fun _ => h) rfl rfl rfl

/-- `setvbuf` refuses its arguments or gets no memory; or its flush or its seek
fails; or it replaces the buffer. -/
theorem setvbuf_cases (r : Streams ν κ) (s : Nat) (buffer : Option (Nat × Mem)) (mode : Int) (size : Nat) :
    (∃ v e, r.setvbuf s buffer mode size = (false, { r with system := v, errno := e })) ∨
    ∃ block newOwned v n, Provided r.buffers block newOwned mode n ∧ validStream (r.stream s).file = true ∧
      (mode ≠ ioNbf → size ≠ 0) ∧
      ((∃ w, (syncOutput (r.world s) = (false, w) ∨
          ∃ w₁, syncOutput (r.world s) = (true, w₁) ∧ leaveInput w₁ = (false, w)) ∧
        r.setvbuf s buffer mode size =
          (false, (setWorld { r with system := v, buffers := n } s w).freeNew block newOwned)) ∨
      ∃ w₁ w₂, syncOutput (r.world s) = (true, w₁) ∧ leaveInput w₁ = (true, w₂) ∧
        r.setvbuf s buffer mode size =
          (true, { setStream (releaseBuffer (setWorld { r with system := v, buffers := n } s w₂) s) s
            (((releaseBuffer (setWorld { r with system := v, buffers := n } s w₂) s).stream s).rebuffer
              block newOwned mode size) with errno := r.errno })) := by
  unfold setvbuf
  split
  · exact .inl ⟨_, _, rfl⟩
  rename_i hguard
  have hvalid : validStream (r.stream s).file = true := by
    by_contra hv
    exact hguard (.inl (by simpa using hv))
  have hsize : mode ≠ ioNbf → size ≠ 0 := fun hm h0 => hguard (.inr (.inr ⟨hm, h0⟩))
  dsimp only
  rcases r.newBuffer_cases buffer mode size with ⟨-, v, hnew⟩ | ⟨block, newOwned, v, n, hnew, hp⟩
  · rw [hnew]
    exact .inl ⟨_, _, rfl⟩
  rw [hnew]
  refine .inr ⟨block, newOwned, v, n, hp, hvalid, hsize, ?_⟩
  dsimp only
  have hsync : (if (r.stream s).file.mode.writable then fflush (world { r with system := v, buffers := n } s)
      else (true, world { r with system := v, buffers := n } s)) = syncOutput (r.world s) := rfl
  rw [hsync]
  obtain ⟨_ | _, w₁⟩ := syncOutput (r.world s)
  · exact .inl ⟨w₁, .inl rfl, rfl⟩
  dsimp only
  have hleave : (if w₁.file.mode.readable ∧ (w₁.file.state.readNeedsPosition ∨ w₁.file.readOffset ≠ w₁.file.readLength ∨
      w₁.file.pushbackOffset < w₁.file.pushbackLength) then fseek 0 seekCur w₁ else (true, w₁)) = leaveInput w₁ := rfl
  rw [hleave]
  obtain ⟨⟨ok, w₂⟩, hl⟩ : ∃ x, leaveInput w₁ = x := ⟨_, rfl⟩
  rw [hl]
  cases ok with
  | false => exact .inl ⟨w₂, .inr ⟨w₁, rfl, hl⟩, rfl⟩
  | true => exact .inr ⟨w₁, w₂, rfl, hl, rfl⟩

end

/-! ## A `setvbuf` that fails -/

section
variable {r : Streams ν (Logged κ)} [Kernel κ]

/-- The old buffer is in place with what it holds, and a buffer made for the call
has gone back. -/
structure Rejected (r r' : Streams ν (Logged κ)) (s : Nat) : Prop where
  undisturbed : Undisturbed (r.world s) (r'.world s)
  custom : (r'.stream s).custom = (r.stream s).custom
  returned : ∀ b, r.buffers ≤ b → b < r'.buffers → r'.frees (.buffer b) = 1
  kept : ∀ block, (∀ b, r.buffers ≤ b → block ≠ .buffer b) → r'.frees block = r.frees block

omit [Kernel κ] in
theorem freeNew_streams (r : Streams ν κ) (block : Option (Block × Mem)) (newOwned : Bool) :
    (r.freeNew block newOwned).stream = r.stream ∧ (r.freeNew block newOwned).files = r.files ∧
      (r.freeNew block newOwned).buffers = r.buffers := by
  unfold freeNew
  split <;> exact ⟨rfl, rfl, rfl⟩

omit [Kernel κ] in
theorem rejected {w : World (Logged κ)} (h : Undisturbed (r.world s) w) (hi : Inv r)
    {block : Option (Block × Mem)} {newOwned : Bool} {mode : Int} {n : Nat} (hp : Provided r.buffers block newOwned mode n)
    (v : ν) : Rejected r ((setWorld { r with system := v, buffers := n } s w).freeNew block newOwned) s := by
  obtain ⟨hstream, -, hbuffers⟩ := freeNew_streams (setWorld { r with system := v, buffers := n } s w) block newOwned
  have hworld : ((setWorld { r with system := v, buffers := n } s w).freeNew block newOwned).world s = w := by
    rw [world_freeNew, world_setWorld]
  refine ⟨by rw [hworld]; exact h, ?_, fun b hle hlt => ?_, fun block' hold => ?_⟩
  · rw [hstream]
    simp [setWorld, setStream]
  · rw [hbuffers] at hlt
    cases newOwned with
    | false => exact absurd hlt (Nat.not_lt.2 ((hp.borrowed rfl).1 ▸ hle))
    | true =>
      obtain ⟨rfl, -, bytes, rfl⟩ := hp.own rfl
      obtain rfl : b = r.buffers := Nat.le_antisymm (Nat.le_of_lt_succ hlt) hle
      have hzero := hi.buffers.unissued (Nat.le_refl r.buffers)
      show bump r.frees (some (.buffer r.buffers)) (.buffer r.buffers) = 1
      simp [bump, hzero]
  · cases newOwned with
    | false => rfl
    | true =>
      obtain ⟨rfl, -, bytes, rfl⟩ := hp.own rfl
      exact Function.update_of_ne (hold r.buffers (Nat.le_refl _)) _ _

/-! ## A `setvbuf` that succeeds -/

/-- Everything pending is delivered, the stream is empty under its new policy and
stands where it stood, and its old buffer, if `setvbuf` made it, has gone back. -/
structure Replaced (r r' : Streams ν (Logged κ)) (s : Nat) (mode : Int) (size : Nat) : Prop where
  delivered : (r'.stream s).kernel.written = (r.stream s).kernel.written ++ (r.stream s).file.pending
  pending : (r'.stream s).file.writeLength = 0
  unread : unreadInput (r'.stream s).file = 0
  policy : (r'.stream s).file.mode.unbuffered = decide (mode = ioNbf) ∧
    (r'.stream s).file.mode.lineBuffered = decide (mode = ioLbf)
  capacity : (r'.stream s).file.bufferSize = if mode = ioNbf then 0 else size
  position : ∀ {offset : Logged κ → Nat}, Tracks offset (r.stream s).file.mode.append → ∀ {p p' : Int},
    (ftell (r.world s)).1 = some p → (ftell (r'.world s)).1 = some p' → p' = p
  frees : r'.frees = freeing r.frees none (r.stream s).ownBuffer
  errno : r'.errno = r.errno

theorem lseek_written (k : Logged κ) (x whence : Int) : (Kernel.lseek k x whence).2.written = k.written := rfl

/-- The flush and the seek of a `setvbuf` that replaces the buffer. -/
theorem emptied {w w₁ w₂ : World (Logged κ)} (h : Held w.file) (hs : syncOutput w = (true, w₁))
    (hl : leaveInput w₁ = (true, w₂)) :
    w₂.kernel.written = w.kernel.written ++ w.file.pending ∧ w₂.file.state.writeNeedsSync = false ∧
      w₂.file.mode = w.file.mode ∧
      ((leaveInput w₁ = (true, w₁) ∧ Drained w₁.file ∧ w₂ = w₁) ∨
        ∃ position k, Kernel.lseek w₁.kernel (wrapLong (0 - unreadInput w₁.file)) seekCur = (.ok position, k) ∧
          unreadInput w₁.file ≤ maxLong ∧ w₂.kernel = k) := by
  obtain ⟨hsame, hdone⟩ := syncOutput_undisturbed h
  rw [hs] at hsame hdone
  obtain ⟨h0, hdown⟩ := hdone rfl
  have hnone : w₁.file.pending = [] := List.eq_nil_of_length_eq_zero (by rw [pending_length]; exact h0)
  have hout : w₁.kernel.written = w.kernel.written ++ w.file.pending := by
    have := hsame.output
    unfold World.output at this
    rwa [hnone, List.append_nil] at this
  rcases leaveInput_cases hsame.held h0 with ⟨hsk, hd⟩ | ⟨hfail, -⟩ | ⟨position, k, hk, hle, hsk⟩
  · obtain rfl := (Prod.mk.inj (hl.symm.trans hsk)).2
    exact ⟨hout, hdown, hsame.mode, .inl ⟨hsk, hd, rfl⟩⟩
  · rw [hl] at hfail
    cases hfail
  · obtain rfl := (Prod.mk.inj (hl.symm.trans hsk)).2
    refine ⟨?_, rfl, hsame.mode, .inr ⟨position, k, hk, hle, rfl⟩⟩
    rw [← hout, ← lseek_written w₁.kernel (wrapLong (0 - unreadInput w₁.file)) seekCur, hk]

omit [Kernel κ] in
/-- What a stream without a buffer is with its new one. -/
theorem rebuffer_file (x : Stream κ) (hx : x.file.bufferSize = 0) {block : Option (Block × Mem)} {mode : Int}
    (hgiven : mode ≠ ioNbf → block ≠ none) (newOwned : Bool) (size : Nat) :
    (x.rebuffer block newOwned mode size).kernel = x.kernel ∧
    (x.rebuffer block newOwned mode size).file.writeLength = 0 ∧
    unreadInput (x.rebuffer block newOwned mode size).file = 0 ∧
    (x.rebuffer block newOwned mode size).file.mode.unbuffered = decide (mode = ioNbf) ∧
    (x.rebuffer block newOwned mode size).file.mode.lineBuffered = decide (mode = ioLbf) ∧
    (x.rebuffer block newOwned mode size).file.bufferSize = if mode = ioNbf then 0 else size := by
  unfold Stream.rebuffer
  dsimp only
  by_cases hm : mode = ioNbf
  · rw [if_pos hm]
    split
    · rw [if_neg (not_not.2 hm)]
      exact ⟨rfl, rfl, rfl, rfl, rfl, hx⟩
    · exact ⟨rfl, rfl, rfl, rfl, rfl, hx⟩
  · rw [if_neg hm]
    split
    · rw [if_pos hm]
      exact ⟨rfl, rfl, rfl, rfl, rfl, rfl⟩
    · exact absurd rfl (hgiven hm)

variable [System ν (Logged κ)]

theorem setvbuf_spec (h : Sane r) (ha : r.Allocated s) (buffer : Option (Nat × Mem)) (mode : Int) (size : Nat) :
    ((r.setvbuf s buffer mode size).1 = false → Rejected r (r.setvbuf s buffer mode size).2 s) ∧
      ((r.setvbuf s buffer mode size).1 = true → Replaced r (r.setvbuf s buffer mode size).2 s mode size) ∧
      Leaves r (r.setvbuf s buffer mode size).2 s := by
  have hheld := h.held s ha
  have hfrees := (setvbuf_kept h.inv ha buffer mode size).2
  rcases setvbuf_cases r s buffer mode size with
    ⟨v, e, hr⟩ | ⟨block, newOwned, v, n, hp, hvalid, hsize, ⟨w, hfail, hr⟩ | ⟨w₁, w₂, hsync, hleave, hr⟩⟩
  · rw [hr]
    refine ⟨fun _ => ⟨⟨hheld, rfl, rfl, rfl, rfl, rfl⟩, rfl, ?_, fun _ _ => rfl⟩, nofun, .idle (fun _ => hheld) rfl rfl rfl⟩
    intro b hle hlt
    exact absurd hlt (Nat.not_lt.2 hle)
  · have hsame : Undisturbed (r.world s) w := by
      obtain ⟨hflush, hdone⟩ := syncOutput_undisturbed (w := r.world s) hheld
      rcases hfail with hs | ⟨w₁, hs, hl⟩
      · rw [hs] at hflush
        exact hflush
      · rw [hs] at hflush hdone
        rcases leaveInput_cases hflush.held (hdone rfl).1 with ⟨hsk, -⟩ | ⟨-, hseek⟩ | ⟨_, _, -, -, hsk⟩
        · cases hl.symm.trans hsk
        · rw [hl] at hseek
          exact hflush.trans hseek
        · cases hl.symm.trans hsk
    rw [hr]
    refine ⟨fun _ => rejected hsame h.inv hp v, nofun, ?_⟩
    obtain ⟨hstream, hfiles, -⟩ := freeNew_streams (setWorld { r with system := v, buffers := n } s w) block newOwned
    refine ⟨fun t ht => ?_, fun t _ hlt => ?_, fun _ => ?_⟩
    · rw [hstream]
      exact Function.update_of_ne ht _ _
    · rw [hfiles] at hlt
      exact hlt
    · rw [hstream, show ((setWorld { r with system := v, buffers := n } s w).stream s).file = w.file from
        congrArg World.file (world_setWorld { r with system := v, buffers := n } s w)]
      exact hsame.held
  · obtain ⟨hwritten, hdown, hmode, hmoved⟩ := emptied (w := r.world s) hheld hsync hleave
    rw [hr] at hfrees ⊢
    have hworld := world_setWorld { r with system := v, buffers := n } s w₂
    obtain ⟨hother, hfiles, hself⟩ := releaseBuffer_streams (setWorld { r with system := v, buffers := n } s w₂) s
    have hstream : ∀ t, t ≠ s → (setWorld { r with system := v, buffers := n } s w₂).stream t = r.stream t := fun t ht =>
      Function.update_of_ne ht _ _
    have hcount : (setWorld { r with system := v, buffers := n } s w₂).files = r.files := rfl
    generalize setWorld { r with system := v, buffers := n } s w₂ = r₁ at hworld hother hfiles hself hfrees hstream hcount ⊢
    have hfile : (r₁.stream s).file = w₂.file := congrArg World.file hworld
    have hkernel : (r₁.stream s).kernel = w₂.kernel := congrArg World.kernel hworld
    generalize r₁.releaseBuffer s = r₂ at hother hfiles hself hfrees ⊢
    generalize hx : r₂.stream s = x at hself hfrees ⊢
    have hxfile : x.file = Stdio.releaseBuffer w₂.file := by rw [hself, ← hfile]
    have hxkernel : x.kernel = w₂.kernel := by rw [hself, ← hkernel]
    obtain ⟨hk, h0, hunread, hunbuffered, hline, hcapacity⟩ :=
      rebuffer_file x (by rw [hxfile]; rfl) hp.given newOwned size
    have hnew : ({ r₂.setStream s (x.rebuffer block newOwned mode size) with errno := r.errno } : Streams ν (Logged κ)).stream
        s = x.rebuffer block newOwned mode size := Function.update_self ..
    refine ⟨nofun, fun _ => ?_, fun t ht => ?_, fun t _ hlt => ?_, fun _ => ?_⟩
    · refine ⟨?_, ?_, ?_, ?_, ?_, fun ht p p' hp hp' => ?_, (hfrees rfl).2, rfl⟩
      · rw [hnew, hk, hxkernel]
        exact hwritten
      · rw [hnew]
        exact h0
      · rw [hnew]
        exact hunread
      · rw [hnew]
        exact ⟨hunbuffered, hline⟩
      · rw [hnew]
        exact hcapacity
      · refine setvbuf_position (w := r.world s) hheld hsync hmoved ?_ ?_ ?_ ht hp hp'
        · show (Streams.stream _ s).kernel = _
          rw [hnew, hk, hxkernel]
        · show (Streams.stream _ s).file.writeLength = 0
          rw [hnew]
          exact h0
        · show unreadInput (Streams.stream _ s).file = 0
          rw [hnew]
          exact hunread
    · exact (Function.update_of_ne ht _ _).trans ((hother t ht).trans (hstream t ht))
    · have hlt' : t < r₂.files := hlt
      rwa [hfiles, hcount] at hlt'
    · rw [hnew]
      refine Held.rebuffer (by rw [hxfile]; rfl) (by rw [hxfile]; exact hdown) block newOwned fun hm => ⟨hp.given hm, hsize hm⟩

/-! ## Every reachable state -/

/-- A call of `file.c`, or an operation on one stream. -/
inductive Act where
  | call (c : Call)
  | perform (s : Nat) (op : UpdateOp)

namespace Act

/-- The stream of the act has not been freed, and `setvbuf` is a call. -/
def Usable (r : Streams ν (Logged κ)) : Act → Prop
  | .call c => c.Usable r
  | .perform s op => r.Allocated s ∧ op.Moving

def after (r : Streams ν (Logged κ)) : Act → Streams ν (Logged κ)
  | .call c => c.after r
  | .perform s op => r.setWorld s (op.after (r.world s))

/-- Every act keeps the streams sane. -/
theorem after_sane (h : Sane r) {a : Act} (ha : a.Usable r) : Sane (a.after r) := by
  cases a with
  | call c =>
    have hk := (Call.after_kept h.inv c ha).1
    cases c with
    | fopen filename mode => exact (fopen_leaves r filename mode).sane h hk
    | tmpfile => exact (fopenWith_leaves r _ _ _ _).sane h hk
    | freopen s filename mode => exact (freopen_leaves (h.held s ha) filename mode).sane h hk
    | setvbuf s buffer mode size => exact (setvbuf_spec h ha buffer mode size).2.2.sane h hk
    | fclose s => exact (fclose_leaves (h.held s ha)).sane h hk
  | perform s op =>
    have hheld : Held (r.world s).file := h.held s ha.1
    have hmoves := UpdateOp.after_moves hheld ha.2
    exact (Leaves.world (UpdateOp.after_held hheld ha.2)).sane h (h.inv.use hmoves.uses _ r.system _)

end Act

/-- One act. -/
def Acted (r r' : Streams ν (Logged κ)) : Prop := ∃ a : Act, a.Usable r ∧ r' = a.after r

omit [Kernel κ] [System ν (Logged κ)] in
theorem Start.sane (h : Start r) : Sane r where
  inv := h.inv
  held t ht := by
    have hlt : t < 3 := h.files ▸ ht.1
    obtain rfl | rfl | rfl : t = 0 ∨ t = 1 ∨ t = 2 := by omega
    · rw [h.stdin]
      exact .reset ⟨iff_of_true rfl rfl, iff_of_true rfl rfl⟩ rfl rfl rfl rfl rfl rfl
    · rw [h.stdout]
      exact .reset ⟨iff_of_true rfl rfl, iff_of_true rfl rfl⟩ rfl rfl rfl rfl rfl rfl
    · rw [h.stderr]
      exact .reset ⟨iff_of_true rfl rfl, iff_of_true rfl rfl⟩ rfl rfl rfl rfl rfl rfl

theorem reachable_sane (h : Reachable (Start (ν := ν) (κ := Logged κ)) Acted r) : Sane r :=
  h.invariant (fun _ h => h.sane) fun _ _ h ⟨_, ha, hr⟩ => hr ▸ Act.after_sane h ha

/-- In every state of every run, a `setvbuf` that fails leaves the old buffer with
what it holds and no buffer of its own, and the unread input can be read just if
none of it is pushback on an unbuffered stream; one that succeeds has delivered
what was pending, stands where `ftell` put the stream, has freed the old buffer
if that was the library's, and keeps `errno`. -/
theorem setvbuf_transactional (h : Reachable (Start (ν := ν) (κ := Logged κ)) Acted r) (ha : r.Allocated s)
    (buffer : Option (Nat × Mem)) (mode : Int) (size : Nat) :
    ((r.setvbuf s buffer mode size).1 = false → Rejected r (r.setvbuf s buffer mode size).2 s ∧
        (Readable (r.stream s).file ((r.setvbuf s buffer mode size).2.stream s).file ↔
          ((r.stream s).file.mode.unbuffered = true → (r.stream s).file.pushback = []))) ∧
      ((r.setvbuf s buffer mode size).1 = true → Replaced r (r.setvbuf s buffer mode size).2 s mode size) := by
  have hs := setvbuf_spec (reachable_sane h) ha buffer mode size
  exact ⟨fun hf => ⟨hs.1 hf, (hs.1 hf).undisturbed.readable_iff⟩, hs.2.1⟩

end

/-! ## A host with a log -/

/-- A host without files, with memory enough. -/
inductive LoggedHost where
  | bare

instance : System LoggedHost (Logged Regular) where
  openat host _ _ _ := (.error 2, host)
  close host _ := (.ok (), host)
  malloc host _ := (some fun _ => 0, host)

/-- Its standard input holds two bytes, and answers calls as `script` says. -/
def onLoggedHost (script : Nat → Response) : Streams LoggedHost (Logged Regular) :=
  { system := .bare, errno := 0, links := ⟨some 0, fun s => if s < 2 then some (s + 1) else none⟩
    stream := fun s =>
      { file := { mode := { readable := s = 0, writable := s ≠ 0, unbuffered := s = 2 } }
        kernel := ⟨{ contents := Contents.empty.write 0 [65, 66], offset := 0, script := script }, []⟩
        fd := some s, custom := none }
    files := 3, buffers := 0, openings := 3, frees := fun _ => 0, closes := fun _ => 0 }

theorem onLoggedHost_start (script : Nat → Response) : Start (onLoggedHost script) :=
  ⟨rfl, rfl, rfl, ⟨rfl, rfl, rfl, rfl⟩, rfl, rfl, rfl, fun _ _ => rfl, fun _ => rfl, fun _ => rfl⟩

/-- One byte is read, the other is cached, and the seek of `setvbuf` fails: the
buffer it allocated has gone back, and the other byte is read next. -/
theorem setvbuf_transactional_seek :
    ∃ r : Streams LoggedHost (Logged Regular), (r.setvbuf 0 none ioFbf 16).1 = false ∧
      (stdioRead ((r.setvbuf 0 none ioFbf 16).2.world 0) 1).1 = [66] ∧
      (r.setvbuf 0 none ioFbf 16).2.frees (.buffer 0) = 1 := by
  have h : Reachable Start Acted (onLoggedHost fun n => if n = 0 then .short 4 else .fail eio) :=
    .start (onLoggedHost_start _)
  have hread := h.next ⟨.perform 0 .fgetc, ⟨⟨by decide, by decide⟩, trivial⟩, rfl⟩
  obtain ⟨hfail, hreadable⟩ := (setvbuf_transactional (s := 0) hread ⟨by decide, by decide⟩ none ioFbf 16).1 (by decide)
  have hnext := hreadable.2 (fun hu => absurd hu (by decide)) (Logged Regular)
  exact ⟨_, by decide, (hnext _ _ 1 (by decide)).trans (by decide), hfail.returned 0 (by decide) (by decide)⟩

/-- An unbuffered stream on which a letter was pushed back. A `setvbuf` whose seek
fails keeps the letter, but what is read is the next byte of the file. -/
theorem setvbuf_loses_pushback :
    ∃ r : Streams LoggedHost (Logged Regular), Reachable Start Acted r ∧ r.Allocated 0 ∧
      (r.setvbuf 0 none ioFbf 16).1 = false ∧ (r.stream 0).file.pushback = [67] ∧
      (fgetc ((r.setvbuf 0 none ioFbf 16).2.world 0)).1 = some 65 ∧
      ¬Readable (r.stream 0).file ((r.setvbuf 0 none ioFbf 16).2.stream 0).file := by
  have h : Reachable Start Acted (onLoggedHost fun n => if n = 0 then .fail 29 else .short 4) :=
    .start (onLoggedHost_start _)
  have hunbuffered := h.next ⟨.call (.setvbuf 0 none ioNbf 0), ⟨by decide, by decide⟩, rfl⟩
  have hpushed := hunbuffered.next ⟨.perform 0 (.ungetc 67), ⟨⟨by decide, by decide⟩, trivial⟩, rfl⟩
  refine ⟨_, hpushed, ⟨by decide, by decide⟩, by decide, by decide, by decide, fun hread => ?_⟩
  have hfirst := hread Regular broken 0 1 (by decide)
  exact absurd hfirst (by decide)

end Streams

end MiniLibc.Stdio
