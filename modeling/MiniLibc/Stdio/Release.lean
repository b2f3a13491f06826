import MiniLibc.Stdio.Resources
import MiniLibc.Stdio.Regular
/-!
# Everything is given back once

Each call of `file.c` comes to one of the endings of `Resources`, on every exit.
A call gives up a stream in three parts, the flush, the close and the rest: the
flush is a use, and the close and the rest are one ending.
-/
open MiniLibc.Memory MiniLibc.Intrusive MiniLibc.Ledger MiniLibc.Runs

namespace MiniLibc.Stdio

variable {ν κ : Type}

/-! ## Modes -/

/-- What the modes `parse_open_mode` makes have in common. -/
structure OpenMode (mode : Mode) : Prop where
  owned : mode.owned = true
  valid : (mode.readable || mode.writable) = true
  bufferOwned : mode.bufferOwned = false

theorem parseOpenMode_mode {text : Option (List Char)} {flags : Nat} {mode : Mode}
    (h : parseOpenMode text = some (flags, mode)) : OpenMode mode := by
  unfold parseOpenMode at h
  split at h
  · cases h
  · cases h
  · rename_i kind rest
    split at h
    · cases h
    · split at h
      · cases h
      · rename_i marks _
        split at h
        · cases h
        · generalize hp : (if marks.plus then (oRdwr, ({ readable := true, writable := true, owned := true } : Mode))
            else if kind = 'r' then (oRdonly, { readable := true, owned := true })
            else (oWronly, { writable := true, owned := true })) = p at h
          have hmode : OpenMode p.2 := by
            subst hp
            split
            · exact ⟨rfl, rfl, rfl⟩
            · split <;> exact ⟨rfl, rfl, rfl⟩
          dsimp only at h
          split at h
          · cases h
            exact hmode
          · split at h
            · cases h
              exact ⟨hmode.owned, hmode.valid, hmode.bufferOwned⟩
            · cases h
              exact hmode

namespace Streams

variable {r : Streams ν κ} {s : Nat}

/-! ## Between states -/

/-- The invariant afterwards, and nothing freed comes back. -/
structure Kept (r r' : Streams ν κ) : Prop where
  inv : Inv r'
  frees_le : ∀ block, r.frees block ≤ r'.frees block

theorem Kept.trans {r₁ r₂ r₃ : Streams ν κ} (h : Kept r₁ r₂) (h' : Kept r₂ r₃) : Kept r₁ r₃ where
  inv := h'.inv
  frees_le block := (h.frees_le block).trans (h'.frees_le block)

theorem Change.kept {r r' : Streams ν κ} {file buffer : Option Nat} (h : Change r r' s file buffer) (hi : Inv r') :
    Kept r r' where
  inv := hi
  frees_le block := by
    rw [h.frees]
    exact (bump_le _ _ block).trans (bump_le _ _ block)

/-- A call has given up a stream: it is not open, and its object, unless that is
a standard one, its own buffer and its descriptor have gone back. -/
structure GivenUp (r r' : Streams ν κ) (s : Nat) : Prop where
  dead : ¬r'.Live s
  closes : r'.closes = bump r.closes (r.stream s).fd
  frees : r'.frees = freeing r.frees (if (r.stream s).file.mode.owned then some s else none) (r.stream s).ownBuffer

theorem GivenUp.kept {r r' : Streams ν κ} {s : Nat}
    (hc : Change r r' s (if (r.stream s).file.mode.owned then some s else none) (r.stream s).ownBuffer)
    (hcloses : r'.closes = bump r.closes (r.stream s).fd)
    (h : Change r r' s (if (r.stream s).file.mode.owned then some s else none) (r.stream s).ownBuffer →
      Inv r' ∧ ¬r'.Live s) : Kept r r' ∧ GivenUp r r' s :=
  ⟨hc.kept (h hc).1, (h hc).2, hcloses, hc.frees⟩

/-- The stream `s` is another, and what no ledger counts. -/
theorem change_stream (r : Streams ν κ) (s : Nat) (x : Stream κ) (v : ν) (e : Nat) :
    Change r { r.setStream s x with system := v, errno := e } s none none where
  stream _ ht := Function.update_of_ne ht _ _
  files _ _ := Iff.rfl
  frees := rfl
  file := .inl rfl

/-- A use of the stream `s`. -/
theorem Inv.use (h : Inv r) {f : File} (hu : Uses (r.stream s).file f) (k : κ) (v : ν) (e : Nat) :
    Kept r { r.setStream s { r.stream s with file := f, kernel := k } with system := v, errno := e } := by
  apply (change_stream r s _ v e).kept
  apply h.used (change_stream r s _ v e) rfl rfl rfl rfl rfl
  · simpa [setStream] using hu
  · simp [setStream]
  · simp [setStream]

theorem Inv.idle (h : Inv r) (v : ν) (e : Nat) : Kept r { r with system := v, errno := e } := by
  have := h.use (Uses.refl (r.stream 0).file) (r.stream 0).kernel v e
  simpa [setStream] using this

theorem Live.use (h : r.Live s) {f : File} (hu : Uses (r.stream s).file f) (k : κ) (v : ν) (e : Nat) :
    Live { r.setStream s { r.stream s with file := f, kernel := k } with system := v, errno := e } s := by
  refine ⟨h.1, ?_⟩
  have hv : validStream f = true := hu.valid.trans h.2
  simpa [setStream] using hv

/-! ## Giving a stream up -/

/-- The state between the close of a stream and what follows. -/
def closed (r : Streams ν κ) (s : Nat) (v : ν) (e : Nat) : Streams ν κ :=
  { r with system := v, errno := e, closes := bump r.closes (r.stream s).fd }

section
variable [Kernel κ] [System ν κ]

omit [System ν κ] in
theorem flushBefore_use (r : Streams ν κ) (s : Nat) :
    ∃ f k e, (r.flushBefore s).2 = { r.setStream s { r.stream s with file := f, kernel := k } with errno := e } ∧
      Uses (r.stream s).file f := by
  have h := stdioFlushBuffer_uses (r.world s)
  unfold flushBefore
  split
  · generalize stdioFlushBuffer (r.world s) = result at h
    obtain ⟨_ | _, w⟩ := result
    · exact ⟨w.file, w.kernel, w.errno, rfl, h⟩
    · exact ⟨w.file, w.kernel, w.errno, rfl, h⟩
  · refine ⟨(r.stream s).file, (r.stream s).kernel, r.errno, ?_, .refl _⟩
    simp [setStream]

omit [Kernel κ] in
theorem closeBefore_closed (r : Streams ν κ) (s firstError : Nat) :
    ∃ v, (r.closeBefore s firstError).2 = r.closed s v r.errno := by
  unfold closeBefore Streams.close
  dsimp only
  generalize System.close r.system (r.stream s).kernel = result
  obtain ⟨_ | _, v⟩ := result
  · exact ⟨v, rfl⟩
  · exact ⟨v, rfl⟩

end

/-- A release frees the buffer the stream has of its own, and clears its pointers. -/
theorem releaseBuffer_eq (h : Shaped s (r.stream s)) :
    r.releaseBuffer s =
      (r.free ((r.stream s).ownBuffer.map .buffer)).setFile s (Stdio.releaseBuffer (r.stream s).file) := by
  unfold releaseBuffer Stream.ownBuffer
  cases hb : (r.stream s).file.mode.bufferOwned with
  | false => simp [hb, free, bump]
  | true =>
    obtain ⟨-, hw, b, hc⟩ := h.bufferOwned hb
    simp [hb, hw, hc, pointee]

/-- The links of a registry without one stream, whose own link is cleared again
where the object stays. -/
theorem spells_unlinked {l : List Nat} (h : r.links.Spells l) (hnodup : l.Nodup) (hlen : l.length ≤ r.files) :
    (r.links.unlink s r.files none).Spells (l.erase s) ∧
      ((r.links.unlink s r.files none).set (some s) none).Spells (l.erase s) := by
  have hspells := h.unlink hnodup hlen s
  refine ⟨hspells, hspells.congr (fun t ht => ?_)⟩
  exact Function.update_of_ne ((hnodup.mem_erase_iff).1 ht).1 _ _

theorem discard_kept (h : Inv r) (hl : r.Live s) (v : ν) (e e' : Nat) :
    Kept r { (r.closed s v e).discardFailedRebind s (r.stream s).file.mode.owned with errno := e' } ∧
      GivenUp r { (r.closed s v e).discardFailedRebind s (r.stream s).file.mode.owned with errno := e' } s := by
  have hshape : Shaped s ((r.closed s v e).stream s) := (h.object s).shaped hl.1
  unfold discardFailedRebind
  rw [releaseBuffer_eq hshape]
  cases ho : (r.stream s).file.mode.owned with
  | true =>
    rw [if_pos rfl]
    refine GivenUp.kept ?_ rfl (fun hc => h.retired hl hc (.inl ?_) rfl rfl rfl rfl ?_)
    · rw [ho]
      refine ⟨fun t ht => ?_, fun _ _ => Iff.rfl, rfl, .inr rfl⟩
      simp [setFile, setStream, free, unregister, closed, ht]
    · intro l hspell hnodup hlen
      exact (spells_unlinked hspell hnodup hlen).1
    · intro hno
      rw [ho] at hno
      cases hno
  | false =>
    rw [if_neg Bool.false_ne_true]
    refine GivenUp.kept ?_ rfl (fun hc => h.retired hl hc (.inr ⟨ho, rfl⟩) rfl rfl rfl rfl ?_)
    · rw [ho]
      refine ⟨fun t ht => ?_, fun _ _ => Iff.rfl, rfl, .inl rfl⟩
      simp [setFile, setStream, free, closed, ht]
    · intro _
      simp [setFile, setStream, resetReboundState, Stdio.releaseBuffer]

theorem discardClosed_kept (h : Inv r) (hl : r.Live s) (v : ν) (e e' : Nat) :
    Kept r { (r.closed s v e).discardClosed s (r.stream s).file.mode.owned with errno := e' } ∧
      GivenUp r { (r.closed s v e).discardClosed s (r.stream s).file.mode.owned with errno := e' } s := by
  have hshape : Shaped s (((r.closed s v e).unregister s).stream s) := (h.object s).shaped hl.1
  unfold discardClosed
  rw [releaseBuffer_eq hshape]
  cases ho : (r.stream s).file.mode.owned with
  | true =>
    rw [if_pos rfl]
    refine GivenUp.kept ?_ rfl (fun hc => h.retired hl hc (.inl ?_) rfl rfl rfl rfl ?_)
    · rw [ho]
      refine ⟨fun t ht => ?_, fun _ _ => Iff.rfl, rfl, .inr rfl⟩
      simp [setFile, setStream, free, unregister, closed, ht]
    · intro l hspell hnodup hlen
      exact (spells_unlinked hspell hnodup hlen).1
    · intro hno
      rw [ho] at hno
      cases hno
  | false =>
    rw [if_neg Bool.false_ne_true]
    refine GivenUp.kept ?_ rfl (fun hc => h.retired hl hc (.inl ?_) rfl rfl rfl rfl ?_)
    · rw [ho]
      refine ⟨fun t ht => ?_, fun _ _ => Iff.rfl, rfl, .inl rfl⟩
      simp [setFile, setStream, free, unregister, closed, ht]
    · intro l hspell hnodup hlen
      exact (spells_unlinked hspell hnodup hlen).2
    · intro _
      simp [setFile, setStream, resetReboundState, Stdio.releaseBuffer]

/-! ## The calls -/

section
variable [Kernel κ] [System ν κ]

/-- A failed opening leaves no new stream; a successful one leaves it open. -/
structure Opens (r : Streams ν κ) (result : Option Nat × Streams ν κ) : Prop where
  failed : result.1 = none → ∀ t, result.2.Live t → r.Live t
  opened : ∀ n, result.1 = some n → result.2.Live n

omit [Kernel κ] in
theorem fopenWith_kept (h : Inv r) {mode : Mode} (hm : OpenMode mode) (filename : List Char) (flags perm : Nat) :
    Kept r (r.fopenWith filename flags perm mode).2 ∧ Opens r (r.fopenWith filename flags perm mode) := by
  have hn : ∀ t, t ≠ r.files → (t < r.files + 1 ↔ t < r.files) := by omega
  unfold fopenWith mallocFile
  generalize System.malloc r.system fileSize = allocated
  obtain ⟨_ | bytes, v⟩ := allocated
  · exact ⟨h.idle v enomem, fun _ _ ht => ht, by rintro _ ⟨⟩⟩
  dsimp only
  unfold openat
  dsimp only
  generalize System.openat v filename flags perm = opened
  obtain ⟨e | k, v'⟩ := opened
  · dsimp only
    have hc : Change r { free { r with system := v', files := r.files + 1 } (some (.file r.files)) with errno := e }
        r.files (some r.files) none := ⟨fun _ _ => rfl, hn, rfl, .inr rfl⟩
    obtain ⟨hi, hlive⟩ := h.burnFile hc rfl rfl rfl rfl rfl
    exact ⟨hc.kept hi, fun _ => hlive, by rintro _ ⟨⟩⟩
  · dsimp only
    have hc : Change r (initializeOwnedStream { r with system := v', files := r.files + 1, openings := r.openings + 1 }
        r.files r.openings k mode) r.files none none :=
      ⟨fun _ ht => Function.update_of_ne ht _ _, hn, rfl, .inl rfl⟩
    have hshaped : Shaped r.files ((initializeOwnedStream { r with
        system := v', files := r.files + 1, openings := r.openings + 1 } r.files r.openings k mode).stream r.files) := by
      have h3 := h.standard
      constructor
      · intro _
        simp [initializeOwnedStream, setStream, register, hm.owned, h3]
      · simp [initializeOwnedStream, setStream, register, hm.bufferOwned]
      · simp [initializeOwnedStream, setStream, register]
    obtain ⟨hi, hlive⟩ := h.opened hc rfl rfl rfl rfl rfl (by simp [initializeOwnedStream, setStream, register]) hshaped
      (by simpa [initializeOwnedStream, setStream, register, validStream] using hm.valid)
      (by simp [initializeOwnedStream, setStream, register, hm.bufferOwned])
    refine ⟨hc.kept hi, by rintro ⟨⟩, ?_⟩
    rintro n ⟨⟩
    exact hlive

omit [Kernel κ] in
theorem fopen_kept (h : Inv r) (filename mode : Option (List Char)) :
    Kept r (r.fopen filename mode).2 ∧ Opens r (r.fopen filename mode) := by
  unfold fopen
  split
  · rename_i flags mode' hp
    exact fopenWith_kept h (parseOpenMode_mode hp) _ flags _
  · exact ⟨h.idle r.system einval, fun _ _ ht => ht, nofun⟩

/-- The flush and the close of an open stream. -/
theorem Inv.flush_close (h : Inv r) (hl : r.Live s) :
    ∃ error error' r₁ v, r.flushBefore s = (error, r₁) ∧ r₁.closeBefore s error = (error', r₁.closed s v r₁.errno) ∧
      Kept r r₁ ∧ r₁.Live s ∧ r₁.frees = r.frees ∧ r₁.closes = r.closes ∧
      (r₁.stream s).file.mode = (r.stream s).file.mode ∧ (r₁.stream s).fd = (r.stream s).fd ∧
      (r₁.stream s).custom = (r.stream s).custom := by
  obtain ⟨f, k, e, hf, hu⟩ := r.flushBefore_use s
  generalize hflush : r.flushBefore s = flushed at hf
  obtain ⟨error, r₁⟩ := flushed
  obtain rfl : r₁ = _ := hf
  have hkept := h.use hu k r.system e
  have hlive := Live.use hl hu k r.system e
  obtain ⟨v, hclose⟩ := closeBefore_closed
    { r.setStream s { r.stream s with file := f, kernel := k } with errno := e } s error
  refine ⟨error, _, _, v, rfl, Prod.ext rfl hclose, hkept, hlive, rfl, rfl, ?_, ?_, ?_⟩
  · simpa [setStream] using hu.mode
  · simp [setStream]
  · simp [setStream]

omit [Kernel κ] [System ν κ] in
/-- What the flush before it does not change. -/
theorem GivenUp.flushed {r₁ r' : Streams ν κ} (h : GivenUp r₁ r' s) (hfrees : r₁.frees = r.frees)
    (hcloses : r₁.closes = r.closes) (hmode : (r₁.stream s).file.mode = (r.stream s).file.mode)
    (hfd : (r₁.stream s).fd = (r.stream s).fd) (hcustom : (r₁.stream s).custom = (r.stream s).custom) :
    GivenUp r r' s where
  dead := h.dead
  closes := by rw [h.closes, hcloses, hfd]
  frees := by
    have hown : (r₁.stream s).ownBuffer = (r.stream s).ownBuffer := by
      unfold Stream.ownBuffer
      rw [hmode, hcustom]
    rw [h.frees, hfrees, hmode, hown]

/-- A closed stream is given up on every exit. -/
theorem fclose_kept (h : Inv r) (ha : r.Allocated s) :
    Kept r (r.fclose s).2 ∧ (r.Live s → GivenUp r (r.fclose s).2 s) := by
  unfold fclose
  cases hv : validStream (r.stream s).file with
  | false =>
    rw [if_pos (by simp)]
    have hu : Uses (r.stream s).file { (r.stream s).file with state.error := true } := .of_eq rfl rfl rfl
    refine ⟨h.use hu (r.stream s).kernel r.system einval, ?_⟩
    intro hl
    rw [hl.2] at hv
    cases hv
  | true =>
    rw [if_neg (by simp)]
    obtain ⟨error, error', r₁, v, hflush, hclose, h1, hl, hfrees, hcloses, hmode, hfd, hcustom⟩ :=
      h.flush_close ⟨ha, hv⟩
    have htail := discardClosed_kept h1.inv hl v r₁.errno
    rw [hmode] at htail
    dsimp only
    rw [hflush]
    dsimp only
    rw [hclose]
    dsimp only
    split
    · exact ⟨h1.trans (htail error').1, fun _ => (htail error').2.flushed hfrees hcloses hmode hfd hcustom⟩
    · exact ⟨h1.trans (htail _).1, fun _ => (htail _).2.flushed hfrees hcloses hmode hfd hcustom⟩

omit [Kernel κ] [System ν κ] in
/-- The new opening of a rebinding. -/
theorem rebind_kept (h : Inv r) (hl : r.Live s) {parsed old : Mode} (hm : OpenMode parsed)
    (hold : old = (r.stream s).file.mode) (k : κ) (v : ν) (e e' : Nat) :
    let file := { (r.stream s).file with mode := { parsed with
      owned := old.owned
      unbuffered := parsed.unbuffered || old.unbuffered
      lineBuffered := parsed.lineBuffered || old.lineBuffered
      bufferOwned := parsed.bufferOwned || old.bufferOwned } }
    let r' := { setStream { r.closed s v e with openings := r.openings + 1 } s
      { r.stream s with file := resetReboundState file, fd := some r.openings, kernel := k } with errno := e' }
    Kept r r' ∧ r'.Live s := by
  intro file r'
  subst hold
  have hstream : r'.stream s =
      { r.stream s with file := resetReboundState file, fd := some r.openings, kernel := k } := Function.update_self ..
  have hvalid : validStream (r'.stream s).file = true := by
    rw [hstream]
    exact hm.valid
  have hc : Change r r' s none none := ⟨fun _ ht => Function.update_of_ne ht _ _, fun _ _ => Iff.rfl, rfl, .inl rfl⟩
  refine ⟨hc.kept (h.rebound hl hc rfl rfl rfl rfl rfl ?_ hvalid ?_ ?_ ?_ ?_ ?_), hl.1, hvalid⟩ <;> rw [hstream]
  · rfl
  · show (parsed.bufferOwned || (r.stream s).file.mode.bufferOwned) = (r.stream s).file.mode.bufferOwned
    rw [hm.bufferOwned, Bool.false_or]
  · rfl
  · rfl

/-- A rebinding ends in a new opening or gives the stream up. -/
theorem freopen_kept (h : Inv r) (ha : r.Allocated s) (filename mode : Option (List Char)) :
    Kept r (r.freopen s filename mode).2 ∧
      (r.Live s → filename.isSome → (parseOpenMode mode).isSome →
        ((r.freopen s filename mode).1 = false → GivenUp r (r.freopen s filename mode).2 s) ∧
        ((r.freopen s filename mode).1 = true → (r.freopen s filename mode).2.Live s ∧
          (r.freopen s filename mode).2.closes = bump r.closes (r.stream s).fd)) := by
  unfold freopen
  split
  · rename_i filename' flags parsed hv hp
    have hmode := parseOpenMode_mode hp
    obtain ⟨error, error', r₁, v, hflush, hclose, h1, hl, hfrees, hcloses, hmode₁, hfd, hcustom⟩ :=
      h.flush_close ⟨ha, hv⟩
    have htail := fun v' e => discard_kept h1.inv hl v' r₁.errno e
    rw [hmode₁] at htail
    dsimp only
    rw [hflush]
    dsimp only
    rw [hclose]
    dsimp only
    have hfail : ∀ v' e, Kept r { (r₁.closed s v' r₁.errno).discardFailedRebind s (r.stream s).file.mode.owned with
        errno := e } ∧ GivenUp r { (r₁.closed s v' r₁.errno).discardFailedRebind s (r.stream s).file.mode.owned with
        errno := e } s :=
      fun v' e => ⟨h1.trans (htail v' e).1, (htail v' e).2.flushed hfrees hcloses hmode₁ hfd hcustom⟩
    split
    · exact ⟨(hfail v error').1, fun _ _ _ => ⟨fun _ => (hfail v error').2, by rintro ⟨⟩⟩⟩
    · unfold openat
      dsimp only [closed]
      generalize System.openat v filename' flags 438 = opened
      obtain ⟨e | k, v'⟩ := opened
      · exact ⟨(hfail v' e).1, fun _ _ _ => ⟨fun _ => (hfail v' e).2, by rintro ⟨⟩⟩⟩
      · obtain ⟨hkept, hlive⟩ := rebind_kept h1.inv hl hmode hmode₁.symm k v' r₁.errno r.errno
        refine ⟨h1.trans hkept, fun _ _ _ => ⟨by rintro ⟨⟩, fun _ => ⟨hlive, ?_⟩⟩⟩
        show bump r₁.closes (r₁.stream s).fd = _
        rw [hcloses, hfd]
  · refine ⟨h.idle r.system einval, ?_⟩
    intro hl hf hp
    rename_i hno
    exfalso
    obtain ⟨name, hf⟩ := Option.isSome_iff_exists.1 hf
    obtain ⟨⟨flags, parsed⟩, hp⟩ := Option.isSome_iff_exists.1 hp
    exact hno name flags parsed hf hl.2 hp

/-! ## `setvbuf` -/

/-- What `setvbuf` has when it has a buffer: a new one of its own, the caller's,
or none for an unbuffered stream. -/
structure Provided (buffers : Nat) (block : Option (Block × Mem)) (newOwned : Bool) (mode : Int) (n : Nat) :
    Prop where
  own : newOwned = true → n = buffers + 1 ∧ mode ≠ ioNbf ∧ ∃ bytes, block = some (.buffer buffers, bytes)
  borrowed : newOwned = false → n = buffers ∧ ∀ b bytes, block = some (b, bytes) → ∃ c, b = .caller c
  given : mode ≠ ioNbf → block ≠ none

omit [Kernel κ] in
theorem newBuffer_cases (r : Streams ν κ) (buffer : Option (Nat × Mem)) (mode : Int) (size : Nat) :
    (mode ≠ ioNbf ∧ ∃ v, r.newBuffer buffer mode size = (none, { r with system := v, errno := enomem })) ∨
    ∃ block newOwned v n, r.newBuffer buffer mode size = (some (block, newOwned), { r with system := v, buffers := n }) ∧
      Provided r.buffers block newOwned mode n := by
  unfold newBuffer
  cases buffer with
  | some given =>
    right
    refine ⟨some (.caller given.1, given.2), false, r.system, r.buffers, rfl, nofun, fun _ => ⟨rfl, ?_⟩, nofun⟩
    rintro _ _ ⟨⟩
    exact ⟨given.1, rfl⟩
  | none =>
    by_cases hm : mode ≠ ioNbf
    · dsimp only
      rw [if_pos hm]
      unfold mallocBuffer
      generalize System.malloc r.system size = allocated
      obtain ⟨_ | bytes, v⟩ := allocated
      · exact .inl ⟨hm, v, rfl⟩
      · exact .inr ⟨_, true, v, r.buffers + 1, rfl, fun _ => ⟨rfl, hm, bytes, rfl⟩, nofun, nofun⟩
    · dsimp only
      rw [if_neg hm]
      exact .inr ⟨none, false, r.system, r.buffers, rfl, nofun, fun _ => ⟨rfl, nofun⟩, fun h => absurd h hm⟩

omit [Kernel κ] [System ν κ] in
/-- A refused `setvbuf` has used the stream, and gives back what it allocated. -/
theorem refuse_kept (h : Inv r) {w : World κ} (hu : Uses (r.stream s).file w.file) {block : Option (Block × Mem)}
    {newOwned : Bool} {mode : Int} {n : Nat} (hp : Provided r.buffers block newOwned mode n) (v : ν) :
    Kept r ((setWorld { r with system := v, buffers := n } s w).freeNew block newOwned) := by
  have hused := h.use hu w.kernel v w.errno
  cases newOwned with
  | false =>
    obtain ⟨rfl, -⟩ := hp.borrowed rfl
    exact hused
  | true =>
    obtain ⟨rfl, -, bytes, rfl⟩ := hp.own rfl
    have hc : Change { r.setStream s { r.stream s with file := w.file, kernel := w.kernel } with
        system := v, errno := w.errno }
        ((setWorld { r with system := v, buffers := r.buffers + 1 } s w).freeNew (some (.buffer r.buffers, bytes)) true)
        s none (some r.buffers) := ⟨fun _ _ => rfl, fun _ _ => Iff.rfl, rfl, .inl rfl⟩
    exact hused.trans (hc.kept (hused.inv.burnBuffer hc rfl rfl rfl rfl rfl rfl))

omit [Kernel κ] [System ν κ] in
/-- What a stream is after `rebuffer`. -/
theorem rebuffer_shape (x : Stream κ) (block : Option (Block × Mem)) (newOwned : Bool) (mode : Int) (size : Nat) :
    (x.rebuffer block newOwned mode size).fd = x.fd ∧
    validStream (x.rebuffer block newOwned mode size).file = validStream x.file ∧
    (x.rebuffer block newOwned mode size).file.mode.owned = x.file.mode.owned ∧
    (x.rebuffer block newOwned mode size).file.mode.bufferOwned = newOwned := by
  unfold Stream.rebuffer
  dsimp only
  split
  · split <;> exact ⟨rfl, rfl, rfl, rfl⟩
  · exact ⟨rfl, rfl, rfl, rfl⟩

omit [Kernel κ] [System ν κ] in
theorem install_kept (h : Inv r) (hl : r.Live s) {block : Option (Block × Mem)} {newOwned : Bool} {mode : Int}
    {n : Nat} (hp : Provided r.buffers block newOwned mode n) (size e : Nat) :
    let r₁ := releaseBuffer { r with buffers := n } s
    let r' := { r₁.setStream s ((r₁.stream s).rebuffer block newOwned mode size) with errno := e }
    Kept r r' ∧ r'.Live s ∧ r'.frees = freeing r.frees none (r.stream s).ownBuffer := by
  intro r₁ r'
  have hshape : Shaped s (({ r with buffers := n } : Streams ν κ).stream s) := (h.object s).shaped hl.1
  have hrelease : r₁ = _ := releaseBuffer_eq hshape
  have hstream₁ : r₁.stream s = { r.stream s with file := Stdio.releaseBuffer (r.stream s).file } := by
    rw [hrelease]
    exact Function.update_self ..
  have hstream : r'.stream s = (r₁.stream s).rebuffer block newOwned mode size := Function.update_self ..
  obtain ⟨hfd, hvalid, howned, hbufferOwned⟩ := rebuffer_shape (r₁.stream s) block newOwned mode size
  rw [← hstream] at hfd hvalid howned hbufferOwned
  rw [hstream₁] at hfd hvalid howned
  have hfrees : r'.frees = freeing r.frees none (r.stream s).ownBuffer := by
    show r₁.frees = _
    rw [hrelease]
    rfl
  have hc : Change r r' s none (r.stream s).ownBuffer := by
    refine ⟨fun t ht => ?_, fun t _ => ?_, hfrees, .inl rfl⟩
    · show Function.update r₁.stream s _ t = _
      rw [Function.update_of_ne ht, hrelease]
      exact Function.update_of_ne ht _ _
    · show t < r₁.files ↔ _
      rw [hrelease]
      rfl
  have hlive : r'.Live s := by
    refine ⟨⟨?_, ?_⟩, hvalid.trans hl.2⟩
    · show s < r₁.files
      rw [hrelease]
      exact hl.1.1
    · rw [hfrees, freeing_file]
      exact hl.1.2
  refine ⟨hc.kept (h.rebuffered hl hc ?_ ?_ ?_ ?_ hfd (hvalid.trans hl.2) howned ?_), hlive, hfrees⟩
  · show r₁.links = _
    rw [hrelease]
    rfl
  · show r₁.files = _
    rw [hrelease]
    rfl
  · show r₁.openings = _
    rw [hrelease]
    rfl
  · show r₁.closes = _
    rw [hrelease]
    rfl
  · have hbuffers : r'.buffers = n := by
      show r₁.buffers = _
      rw [hrelease]
      rfl
    cases newOwned with
    | true =>
      obtain ⟨rfl, hm, bytes, rfl⟩ := hp.own rfl
      refine .inl ⟨hbuffers, hbufferOwned, ?_, ?_⟩ <;> rw [hstream] <;> simp [Stream.rebuffer, hm]
    | false =>
      obtain ⟨rfl, hcaller⟩ := hp.borrowed rfl
      refine .inr ⟨hbuffers, hbufferOwned, ?_⟩
      rw [hstream, hstream₁]
      unfold Stream.rebuffer
      dsimp only
      split
      · rename_i b bytes
        obtain ⟨c, rfl⟩ := hcaller b bytes rfl
        split
        · exact fun _ => ⟨c, rfl⟩
        · rintro (hw | hw) <;> cases hw
      · rintro (hw | hw) <;> cases hw

/-- A `setvbuf` that succeeds frees the buffer the stream had of its own; one
that fails frees at most the one it allocated. -/
theorem setvbuf_kept (h : Inv r) (ha : r.Allocated s) (buffer : Option (Nat × Mem)) (mode : Int) (size : Nat) :
    Kept r (r.setvbuf s buffer mode size).2 ∧
      ((r.setvbuf s buffer mode size).1 = true → (r.setvbuf s buffer mode size).2.Live s ∧
        (r.setvbuf s buffer mode size).2.frees = freeing r.frees none (r.stream s).ownBuffer) := by
  unfold setvbuf
  split
  · exact ⟨h.idle r.system einval, nofun⟩
  · rename_i hvalid
    have hl : r.Live s := ⟨ha, by_contra fun hv => hvalid (.inl (by simpa using hv))⟩
    dsimp only
    rcases r.newBuffer_cases buffer mode size with ⟨-, v, hnew⟩ | ⟨block, newOwned, v, n, hnew, hp⟩
    · rw [hnew]
      exact ⟨h.idle v enomem, nofun⟩
    · rw [hnew]
      dsimp only
      have hflush : Uses (r.stream s).file (if (r.stream s).file.mode.writable then fflush (r.world s)
          else (true, r.world s)).2.file := by
        split
        · exact fflush_uses (r.world s)
        · exact .refl _
      rw [show world { r with system := v, buffers := n } s = r.world s from rfl]
      generalize (if (r.stream s).file.mode.writable then fflush (r.world s) else (true, r.world s)) = flushed at hflush ⊢
      obtain ⟨_ | _, w⟩ := flushed
      · exact ⟨refuse_kept h hflush hp v, nofun⟩
      dsimp only at hflush ⊢
      have hseek : Uses (r.stream s).file (if w.file.mode.readable ∧ (w.file.state.readNeedsPosition ∨
          w.file.readOffset ≠ w.file.readLength ∨ w.file.pushbackOffset < w.file.pushbackLength)
          then fseek 0 seekCur w else (true, w)).2.file := by
        split
        · exact hflush.trans (fseek_uses 0 seekCur w)
        · exact hflush
      generalize (if w.file.mode.readable ∧ (w.file.state.readNeedsPosition ∨ w.file.readOffset ≠ w.file.readLength ∨
          w.file.pushbackOffset < w.file.pushbackLength) then fseek 0 seekCur w else (true, w)) = sought at hseek ⊢
      obtain ⟨_ | _, w'⟩ := sought
      · exact ⟨refuse_kept h hseek hp v, nofun⟩
      dsimp only at hseek ⊢
      have hused := h.use hseek w'.kernel v w'.errno
      have hlive := hl.use hseek w'.kernel v w'.errno
      obtain ⟨hkept, hlive', hfrees⟩ := install_kept hused.inv hlive hp size r.errno
      refine ⟨hused.trans hkept, fun _ => ⟨hlive', hfrees.trans ?_⟩⟩
      have hown : Stream.ownBuffer { r.stream s with file := w'.file, kernel := w'.kernel } = (r.stream s).ownBuffer := by
        unfold Stream.ownBuffer
        rw [hseek.mode]
      simp only [setStream, Function.update_self, hown]

omit [Kernel κ] [System ν κ] in
theorem world_setWorld (r : Streams ν κ) (s : Nat) (w : World κ) : (r.setWorld s w).world s = w := by
  simp [setWorld, setStream, world]

omit [Kernel κ] [System ν κ] in
theorem world_freeNew (r : Streams ν κ) (s : Nat) (block : Option (Block × Mem)) (newOwned : Bool) :
    (r.freeNew block newOwned).world s = r.world s := by
  unfold freeNew
  split <;> rfl

omit [Kernel κ] [System ν κ] in
theorem stream_releaseBuffer (r : Streams ν κ) (s : Nat) :
    (r.releaseBuffer s).stream s = { r.stream s with file := Stdio.releaseBuffer (r.stream s).file } := by
  unfold releaseBuffer
  dsimp only
  split <;> exact Function.update_self ..

end

/-! ## What is referenced -/

theorem Inv.references (h : Inv r) {b : Nat} (href : r.References s (.buffer b)) :
    r.Live s ∧ (r.stream s).ownBuffer = some b := by
  obtain ⟨ha, hp⟩ := href
  have hshape := (h.object s).shaped ha
  have hpointee : ∀ p, r.pointee s p = some (.buffer b) → p = .custom ∧ (r.stream s).custom = some (.buffer b) := by
    intro p hp
    cases p with
    | custom => exact ⟨rfl, hp⟩
    | null | inlineWrite | inlineRead => cases hp
  have hcustom : ((r.stream s).file.writeBuffer = .custom ∨ (r.stream s).file.readBuffer = .custom) ∧
      (r.stream s).custom = some (.buffer b) := by
    rcases hp with hp | hp
    · exact ⟨.inl (hpointee _ hp).1, (hpointee _ hp).2⟩
    · exact ⟨.inr (hpointee _ hp).1, (hpointee _ hp).2⟩
  cases hb : (r.stream s).file.mode.bufferOwned with
  | false =>
    obtain ⟨c, hc⟩ := hshape.borrowed hb hcustom.1
    rw [hcustom.2] at hc
    cases hc
  | true =>
    refine ⟨⟨ha, (hshape.bufferOwned hb).1⟩, ?_⟩
    rw [Stream.ownBuffer, if_pos hb, hcustom.2]

theorem Inv.own_references (h : Inv r) {b : Nat} (hl : r.Live s) (hown : (r.stream s).ownBuffer = some b) :
    r.References s (.buffer b) := by
  unfold Stream.ownBuffer at hown
  split at hown
  · rename_i hb
    obtain ⟨-, hw, c, hc⟩ := ((h.object s).shaped hl.1).bufferOwned hb
    rw [hc] at hown
    cases hown
    refine ⟨hl.1, .inl ?_⟩
    rw [hw]
    exact hc
  · cases hown

/-- What a call gave up is gone, and has gone back exactly once. -/
structure Gone (r r' : Streams ν κ) (s : Nat) : Prop where
  dead : ¬r'.Live s
  file : 3 ≤ s → r'.frees (.file s) = 1
  buffer : ∀ b, r.References s (.buffer b) → r'.frees (.buffer b) = 1
  fd : ∀ d, (r.stream s).fd = some d → r'.closes d = 1

theorem Inv.frees_own (h : Inv r) {b : Nat} {file : Option Nat} (href : r.References s (.buffer b)) :
    freeing r.frees file (r.stream s).ownBuffer (.buffer b) = 1 := by
  obtain ⟨hl, hown⟩ := h.references href
  have hheld : r.heldBuffer s = some b := (if_pos hl).trans hown
  have hzero := h.buffers.kept hheld
  rw [freeing_buffer, hown, bump, Function.update_self, hzero]

theorem Inv.closes_own (h : Inv r) (hl : r.Live s) {d : Nat} (hd : (r.stream s).fd = some d) :
    bump r.closes (r.stream s).fd d = 1 := by
  have hheld : r.heldFd s = some d := (if_pos hl).trans hd
  rw [hd, bump, Function.update_self, h.descriptors.kept hheld]

theorem GivenUp.gone {r' : Streams ν κ} (h : GivenUp r r' s) (hi : Inv r) (hl : r.Live s) : Gone r r' s where
  dead := h.dead
  file h3 := by
    have howned := (((hi.object s).shaped hl.1).owned hl.2).2 h3
    rw [h.frees, freeing_file, if_pos howned, bump, Function.update_self, hl.1.2]
  buffer b href := by
    rw [h.frees]
    exact hi.frees_own href
  fd d hd := by
    rw [h.closes]
    exact hi.closes_own hl hd

/-! ## Runs -/

section
variable [Kernel κ] [System ν κ]

/-- The calls of `file.c`. -/
inductive Call where
  | fopen (filename mode : Option (List Char))
  | tmpfile
  | freopen (s : Nat) (filename mode : Option (List Char))
  | setvbuf (s : Nat) (buffer : Option (Nat × Mem)) (mode : Int) (size : Nat)
  | fclose (s : Nat)

namespace Call

/-- The stream of the call, if it takes one, has not been freed. -/
def Usable (r : Streams ν κ) : Call → Prop
  | .fopen .. | .tmpfile => True
  | .freopen s .. | .setvbuf s .. | .fclose s => r.Allocated s

def after (r : Streams ν κ) : Call → Streams ν κ
  | .fopen filename mode => (r.fopen filename mode).2
  | .tmpfile => r.tmpfile.2
  | .freopen s filename mode => (r.freopen s filename mode).2
  | .setvbuf s buffer mode size => (r.setvbuf s buffer mode size).2
  | .fclose s => (r.fclose s).2

/-- What a call opens is open, and what it closes, rebinds or replaces has gone
back exactly once when it returns. -/
def Exact (r : Streams ν κ) : Call → Prop
  | .fopen filename mode => Opens r (r.fopen filename mode)
  | .tmpfile => Opens r r.tmpfile
  | .freopen s filename mode =>
    r.Live s → filename.isSome → (parseOpenMode mode).isSome →
      ((r.freopen s filename mode).1 = false → Gone r (r.freopen s filename mode).2 s) ∧
      ((r.freopen s filename mode).1 = true → (r.freopen s filename mode).2.Live s ∧
        ∀ d, (r.stream s).fd = some d → (r.freopen s filename mode).2.closes d = 1)
  | .setvbuf s buffer mode size =>
    (r.setvbuf s buffer mode size).1 = true → (r.setvbuf s buffer mode size).2.Live s ∧
      ∀ b, r.References s (.buffer b) → (r.setvbuf s buffer mode size).2.frees (.buffer b) = 1
  | .fclose s => r.Live s → Gone r (r.fclose s).2 s

/-- One call keeps the books and returns what it gives up. -/
theorem after_kept (h : Inv r) (c : Call) (hc : c.Usable r) : Kept r (c.after r) ∧ c.Exact r := by
  cases c with
  | fopen filename mode => exact fopen_kept h filename mode
  | tmpfile => exact fopenWith_kept h ⟨rfl, rfl, rfl⟩ _ _ _
  | freopen s filename mode =>
    obtain ⟨hk, hexact⟩ := freopen_kept h hc filename mode
    refine ⟨hk, fun hl hf hm => ⟨fun hr => ((hexact hl hf hm).1 hr).gone h hl, fun hr => ?_⟩⟩
    obtain ⟨hlive, hcloses⟩ := (hexact hl hf hm).2 hr
    refine ⟨hlive, fun d hd => ?_⟩
    rw [hcloses]
    exact h.closes_own hl hd
  | setvbuf s buffer mode size =>
    obtain ⟨hk, hexact⟩ := setvbuf_kept h hc buffer mode size
    refine ⟨hk, fun hr => ⟨(hexact hr).1, fun b href => ?_⟩⟩
    rw [(hexact hr).2]
    exact h.frees_own href
  | fclose s =>
    obtain ⟨hk, hexact⟩ := fclose_kept h hc
    exact ⟨hk, fun hl => (hexact hl).gone h hl⟩

end Call

/-- A call, or any other operation on a stream that has not been freed. -/
inductive Step (r : Streams ν κ) : Streams ν κ → Prop where
  | call (c : Call) : c.Usable r → Step r (c.after r)
  | use {s : Nat} (w : World κ) : r.Allocated s → Uses (r.stream s).file w.file → Step r (r.setWorld s w)

/-- The streams a process starts with. -/
structure Start (r : Streams ν κ) : Prop where
  files : r.files = 3
  buffers : r.buffers = 0
  openings : r.openings = 3
  links : r.links.Spells [0, 1, 2]
  stdin : (r.stream 0).file = { mode := { readable := true } }
  stdout : (r.stream 1).file = { mode := { writable := true } }
  stderr : (r.stream 2).file = { mode := { writable := true, unbuffered := true } }
  fd : ∀ s, s < 3 → (r.stream s).fd = some s
  frees : ∀ block, r.frees block = 0
  closes : ∀ d, r.closes d = 0

omit [Kernel κ] [System ν κ] in
theorem Start.valid (h : Start r) (hs : s < 3) : validStream (r.stream s).file = true := by
  obtain rfl | rfl | rfl : s = 0 ∨ s = 1 ∨ s = 2 := by omega
  · rw [h.stdin]
    rfl
  · rw [h.stdout]
    rfl
  · rw [h.stderr]
    rfl

omit [Kernel κ] [System ν κ] in
theorem Start.plain (h : Start r) (hs : s < 3) : (r.stream s).file.mode.bufferOwned = false ∧
    (r.stream s).file.mode.owned = false ∧ (r.stream s).file.writeBuffer = .null ∧
    (r.stream s).file.readBuffer = .null := by
  obtain rfl | rfl | rfl : s = 0 ∨ s = 1 ∨ s = 2 := by omega
  · rw [h.stdin]
    exact ⟨rfl, rfl, rfl, rfl⟩
  · rw [h.stdout]
    exact ⟨rfl, rfl, rfl, rfl⟩
  · rw [h.stderr]
    exact ⟨rfl, rfl, rfl, rfl⟩

omit [Kernel κ] [System ν κ] in
theorem Start.inv (h : Start r) : Inv r := by
  have halloc : ∀ t, r.Allocated t ↔ t < 3 := by
    intro t
    simp [Allocated, h.files, h.frees]
  have hlive : ∀ t, r.Live t ↔ t < 3 := by
    intro t
    exact ⟨fun hl => (halloc t).1 hl.1, fun ht => ⟨(halloc t).2 ht, h.valid ht⟩⟩
  have hfd : ∀ t, r.heldFd t = if t < 3 then some t else none := by
    intro t
    simp only [heldFd, hlive]
    split
    · rename_i ht
      exact h.fd t ht
    · rfl
  have hbuffer : ∀ t, r.heldBuffer t = none := by
    intro t
    simp only [heldBuffer, hlive]
    split
    · rename_i ht
      simp [Stream.ownBuffer, (h.plain ht).1]
    · rfl
  constructor
  · exact h.files.ge
  · refine ⟨[0, 1, 2], h.links, by decide, ?_, ?_⟩
    · intro t ht
      refine (halloc t).2 ?_
      simp only [List.mem_cons, List.not_mem_nil, or_false] at ht
      omega
    · intro t ht
      have := (hlive t).1 ht
      simp only [List.mem_cons, List.not_mem_nil, or_false]
      omega
  · intro t
    constructor
    · intro ha
      have ht := (halloc t).1 ha
      obtain ⟨hb, ho, hw, hr⟩ := h.plain ht
      constructor
      · intro _
        simp [ho, ht]
      · simp [hb]
      · simp [hw, hr]
    · intro h3 ha
      have := (halloc t).1 ha
      omega
    · simp [h.frees]
    · simp [h.frees]
  · constructor
    · intro t n ht
      rw [hbuffer] at ht
      cases ht
    · intro t u n ht
      rw [hbuffer] at ht
      cases ht
    · intro t n ht
      rw [hbuffer] at ht
      cases ht
    · intro n hn
      rw [h.buffers] at hn
      omega
    · intro n _
      exact h.frees _
  · constructor
    · intro t n ht
      rw [hfd] at ht
      rw [h.openings]
      split at ht
      · cases ht
        assumption
      · cases ht
    · intro t u n ht hu
      rw [hfd] at ht hu
      split at ht <;> split at hu <;> simp_all
    · intro t n _
      exact h.closes n
    · intro n hn hnone
      rw [h.openings] at hn
      exact absurd ((hfd n).trans (if_pos hn)) (hnone n)
    · intro n _
      exact h.closes n
  · intro t
    exact ⟨h.frees _, h.frees _⟩
  · intro c
    exact h.frees _

theorem Step.kept {r' : Streams ν κ} (h : Inv r) (hstep : Step r r') : Kept r r' := by
  cases hstep with
  | call c hc => exact (Call.after_kept h c hc).1
  | use w _ hu => exact h.use hu w.kernel r.system w.errno

theorem run_kept {r' : Streams ν κ} (h : Inv r) (hrun : Relation.ReflTransGen Step r r') : Kept r r' := by
  induction hrun with
  | refl => exact ⟨h, fun _ => Nat.le_refl _⟩
  | tail _ hstep ih => exact ih.trans (hstep.kept ih.inv)

theorem reachable_inv (h : Reachable Start Step r) : Inv r :=
  h.invariant (fun _ h => h.inv) (fun _ _ h hstep => (hstep.kept h).inv)

/-! ## The books of every state -/

omit [Kernel κ] [System ν κ] in
theorem Inv.freed_iff (h : Inv r) (s : Nat) :
    r.frees (.file s) = if 3 ≤ s ∧ s < r.files ∧ ¬r.Live s then 1 else 0 := by
  have ho := h.object s
  split
  · rename_i hs
    have hle := ho.freed_le
    have hne : r.frees (.file s) ≠ 0 := fun h0 => hs.2.2 (ho.live hs.1 ⟨hs.2.1, h0⟩)
    omega
  · rename_i hs
    by_cases hk : s < 3 ∨ r.files ≤ s
    · exact ho.kept hk
    · have hl : r.Live s := by
        by_contra hl
        exact hs ⟨by omega, by omega, hl⟩
      exact hl.1.2

omit [Kernel κ] [System ν κ] in
theorem Inv.buffer_cases (h : Inv r) {b : Nat} (hb : b < r.buffers) :
    (r.frees (.buffer b) = 0 ∧ ∃! s, r.References s (.buffer b)) ∨
      (r.frees (.buffer b) = 1 ∧ ∀ s, ¬r.References s (.buffer b)) := by
  have hheld : ∀ s, r.References s (.buffer b) ↔ r.heldBuffer s = some b := by
    intro s
    constructor
    · intro href
      obtain ⟨hl, hown⟩ := h.references href
      exact (if_pos hl).trans hown
    · intro hs
      unfold heldBuffer at hs
      split at hs
      · rename_i hl
        exact h.own_references hl hs
      · cases hs
  rcases h.buffers.released_cases hb with ⟨h0, s, hs⟩ | ⟨h1, hnone⟩
  · exact .inl ⟨h0, s, (hheld s).2 hs, fun t ht => h.buffers.unique ((hheld t).1 ht) hs⟩
  · exact .inr ⟨h1, fun s hs => hnone s ((hheld s).1 hs)⟩

omit [Kernel κ] [System ν κ] in
theorem Inv.fd_cases (h : Inv r) {d : Nat} (hd : d < r.openings) :
    (r.closes d = 0 ∧ ∃! s, r.Live s ∧ (r.stream s).fd = some d) ∨
      (r.closes d = 1 ∧ ∀ s, r.Live s → (r.stream s).fd ≠ some d) := by
  have hheld : ∀ s, r.Live s ∧ (r.stream s).fd = some d ↔ r.heldFd s = some d := by
    intro s
    unfold heldFd
    split
    · rename_i hl
      exact ⟨fun h => h.2, fun h => ⟨hl, h⟩⟩
    · rename_i hl
      exact ⟨fun h => absurd h.1 hl, nofun⟩
  rcases h.descriptors.released_cases hd with ⟨h0, s, hs⟩ | ⟨h1, hnone⟩
  · exact .inl ⟨h0, s, (hheld s).2 hs, fun t ht => h.descriptors.unique ((hheld t).1 ht) hs⟩
  · exact .inr ⟨h1, fun s hl hs => hnone s ((hheld s).1 ⟨hl, hs⟩)⟩

omit [Kernel κ] [System ν κ] in
theorem Inv.registry (h : Inv r) :
    ∃ l, r.links.Spells l ∧ (∀ s, r.Live s → l.count s = 1) ∧ ∀ s, 0 < r.frees (.file s) → s ∉ l := by
  obtain ⟨l, hl, hnodup, ha, hm⟩ := h.registered
  refine ⟨l, hl, fun s hs => ?_, fun s hs hmem => ?_⟩
  · exact List.count_eq_one_of_mem hnodup (hm s hs)
  · have := (ha s hmem).2
    omega

omit [Kernel κ] [System ν κ] in
/-- What has been freed stays freed, and is not referenced again. -/
theorem Kept.freed {r' : Streams ν κ} (h : Kept r r') :
    (∀ s, r.frees (.file s) = 1 → r'.frees (.file s) = 1 ∧ ¬r'.Live s) ∧
      ∀ b, b < r.buffers → r.frees (.buffer b) = 1 → ∀ s, ¬r'.References s (.buffer b) := by
  constructor
  · intro s hs
    have hle := h.frees_le (.file s)
    have hle' := (h.inv.object s).freed_le
    refine ⟨by omega, fun hl => ?_⟩
    have := hl.1.2
    omega
  · intro b hb hfreed s href
    obtain ⟨hl, hown⟩ := h.inv.references href
    have hzero := h.inv.buffers.kept ((if_pos hl).trans hown)
    have := h.frees_le (.buffer b)
    omega

/-- In every state of every run the registry lists each open stream once and no
freed one; each allocated object, each allocated buffer and each descriptor is
held by one open stream or has gone back once, and for good; what the library
did not allocate is never freed; and a call has given back what it closes,
rebinds or replaces when it returns. -/
theorem resources_exact (h : Reachable (Start (ν := ν) (κ := κ)) Step r) :
    (∃ l, r.links.Spells l ∧ (∀ s, r.Live s → l.count s = 1) ∧ ∀ s, 0 < r.frees (.file s) → s ∉ l) ∧
    (∀ s, r.frees (.file s) = if 3 ≤ s ∧ s < r.files ∧ ¬r.Live s then 1 else 0) ∧
    (∀ b, b < r.buffers → (r.frees (.buffer b) = 0 ∧ ∃! s, r.References s (.buffer b)) ∨
      (r.frees (.buffer b) = 1 ∧ ∀ s, ¬r.References s (.buffer b))) ∧
    (∀ d, d < r.openings → (r.closes d = 0 ∧ ∃! s, r.Live s ∧ (r.stream s).fd = some d) ∨
      (r.closes d = 1 ∧ ∀ s, r.Live s → (r.stream s).fd ≠ some d)) ∧
    (∀ c, r.frees (.caller c) = 0) ∧ (∀ s, r.frees (.inlineWrite s) = 0 ∧ r.frees (.inlineRead s) = 0) ∧
    (∀ c : Call, c.Usable r → c.Exact r) ∧
    ∀ r', Relation.ReflTransGen Step r r' →
      (∀ s, r.frees (.file s) = 1 → r'.frees (.file s) = 1 ∧ ¬r'.Live s) ∧
      ∀ b, b < r.buffers → r.frees (.buffer b) = 1 → ∀ s, ¬r'.References s (.buffer b) := by
  have hi := reachable_inv h
  exact ⟨hi.registry, hi.freed_iff, fun _ => hi.buffer_cases, fun _ => hi.fd_cases, hi.callers, hi.inlined,
    fun c hc => (Call.after_kept hi c hc).2, fun _ hrun => (run_kept hi hrun).freed⟩

end

/-! ## A small host -/

/-- A host whose files are empty, with memory enough, and the error of its closes. -/
structure Host where
  closeError : Option Nat

/-- An empty file whose calls move up to four bytes. -/
def emptyFile : Regular := { contents := Contents.empty, offset := 0, script := fun _ => .short 4 }

instance : System Host Regular where
  openat host _ _ _ := (.ok emptyFile, host)
  close host _ := (match host.closeError with
    | none => .ok ()
    | some e => .error e, host)
  malloc host _ := (some fun _ => 0, host)

/-- The standard streams on that host. -/
def onHost (host : Host) : Streams Host Regular :=
  { system := host, errno := 0, links := ⟨some 0, fun s => if s < 2 then some (s + 1) else none⟩
    stream := fun s =>
      { file := { mode := { readable := s = 0, writable := s ≠ 0, unbuffered := s = 2 } }
        kernel := emptyFile, fd := some s, custom := none }
    files := 3, buffers := 0, openings := 3, frees := fun _ => 0, closes := fun _ => 0 }

theorem onHost_start (host : Host) : Start (onHost host) :=
  ⟨rfl, rfl, rfl, ⟨rfl, rfl, rfl, rfl⟩, rfl, rfl, rfl, fun _ _ => rfl, fun _ => rfl, fun _ => rfl⟩

/-- A file is opened, gets an allocated buffer, and is closed by a close that fails. -/
theorem resources_exact_close :
    ∃ r : Streams Host Regular, r.files = 4 ∧ r.buffers = 1 ∧ r.frees (.file 3) = 1 ∧ r.frees (.buffer 0) = 1 ∧
      r.closes 3 = 1 := by
  have h : Reachable Start Step (onHost ⟨some eio⟩) := .start (onHost_start _)
  have hopen := h.next (.call (.fopen (some ['f']) (some ['w'])) trivial)
  have hbuffer := hopen.next (.call (.setvbuf 3 none ioFbf 16) ⟨by decide, by decide⟩)
  have hclose := (resources_exact hbuffer).2.2.2.2.2.2.1 (.fclose 3) ⟨by decide, by decide⟩
    ⟨⟨by decide, by decide⟩, by decide⟩
  exact ⟨_, by decide, by decide, hclose.file (by decide), hclose.buffer 0 ⟨⟨by decide, by decide⟩, .inl (by decide)⟩,
    hclose.fd 3 (by decide)⟩

end Streams

end MiniLibc.Stdio
