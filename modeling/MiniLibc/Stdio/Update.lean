import MiniLibc.Stdio.Direction
import MiniLibc.Stdio.Regular
/-!
# Runs of an update stream

The byte operations are made of reads, writes, pushbacks and flag changes, so
each keeps a stream directed. By induction every run does, and input and output
that share a buffer do not overwrite each other.
-/
open MiniLibc.Memory MiniLibc.Runs

namespace MiniLibc.Stdio

variable {κ : Type} [Kernel κ]

/-! ## Byte operations -/

omit [Kernel κ] in
theorem requireByte_directed {w : World κ} (h : Directed w.file) : Directed (requireByte w).2.file := by
  unfold requireByte
  split
  · exact h.markError _
  split
  · exact h.withState rfl rfl
  split
  · exact h
  · exact h.markError _

omit [Kernel κ] in
theorem requireWide_directed {w : World κ} (h : Directed w.file) (localeUtf8 : Bool) :
    Directed (requireWide w localeUtf8).2.file := by
  unfold requireWide
  split
  · exact h.markError _
  split
  · exact h.withState rfl rfl
  split
  · exact h
  · exact h.markError _

omit [Kernel κ] in
theorem byteOp_directed {α : Type} {fail : α} {core : World κ → α × World κ} {w : World κ} (h : Directed w.file)
    (hcore : ∀ w, Directed w.file → Directed (core w).2.file) : Directed (byteOp fail core w).2.file := by
  have h1 := requireByte_directed h
  unfold byteOp
  generalize requireByte w = r at h1
  obtain ⟨_ | _, w1⟩ := r
  · exact h1
  · exact hcore w1 h1

theorem fgetcCore_directed {w : World κ} (h : Directed w.file) : Directed (fgetcCore w).2.file := by
  have h1 := (stdioRead_directed h 1).1
  unfold fgetcCore
  generalize stdioRead w 1 = r at h1
  obtain ⟨_ | ⟨byte, _ | _⟩, w1⟩ := r <;> exact h1

theorem fgetsLoop_directed {w : World κ} (h : Directed w.file) (room : Nat) :
    Directed (fgetsLoop room w).2.2.file := by
  induction room generalizing w with
  | zero => exact h
  | succ room ih =>
    have h1 := fgetcCore_directed h
    unfold fgetsLoop
    generalize fgetcCore w = r at h1
    obtain ⟨_ | value, w1⟩ := r
    · exact h1
    · dsimp only
      split
      · exact h1
      · exact ih h1

theorem fgetsCore_directed {w : World κ} (h : Directed w.file) (n : Int) : Directed (fgetsCore n w).2.file := by
  unfold fgetsCore
  split
  · exact h.markError _
  split
  · exact h
  have h1 := fgetsLoop_directed h (n - 1).toNat
  generalize fgetsLoop (n - 1).toNat w = r at h1
  obtain ⟨line, ok, w1⟩ := r
  dsimp only at h1 ⊢
  split
  · exact h1
  split
  · exact h1
  · exact h1

omit [Kernel κ] in
theorem ungetcCore_directed {w : World κ} (h : Directed w.file) (c : Int) : Directed (ungetcCore c w).2.file := by
  unfold ungetcCore
  split
  · exact h
  have h1 := stdioPushback_directed h [unsignedChar c]
  dsimp only
  generalize stdioPushback w [unsignedChar c] = r at h1
  obtain ⟨_ | _, w1⟩ := r <;> exact h1

theorem fputcCore_directed {w : World κ} (h : Directed w.file) (c : Int) : Directed (fputcCore c w).2.file := by
  have h1 := (stdioWrite_directed h [unsignedChar c]).1
  unfold fputcCore
  dsimp only
  generalize stdioWrite w [unsignedChar c] = r at h1
  obtain ⟨_ | _ | _, w1⟩ := r <;> exact h1

theorem fputsCore_directed {w : World κ} (h : Directed w.file) (s : List UInt8) : Directed (fputsCore s w).2.file := by
  unfold fputsCore
  split
  · exact h.markError _
  · exact (stdioWrite_directed h s).1

theorem freadCore_directed {w : World κ} (h : Directed w.file) (size nmemb : Nat) :
    Directed (freadCore size nmemb w).2.file := by
  unfold freadCore
  split
  · exact h
  split
  · exact h.markError _
  · exact (stdioRead_directed h _).1

theorem fwriteCore_directed {w : World κ} (h : Directed w.file) (data : List UInt8) (size nmemb : Nat) :
    Directed (fwriteCore data size nmemb w).2.file := by
  unfold fwriteCore
  split
  · exact h
  split
  · exact h.markError _
  split
  · exact h.markError _
  · exact (stdioWrite_directed h _).1

/-! ## Runs -/

/-- The operations on a stream. The first five are what wide and formatted input
and output are made of. -/
inductive UpdateOp where
  | read (n : Nat)
  | write (data : List UInt8)
  | pushback (bytes : List UInt8)
  | requireWide (localeUtf8 : Bool)
  | markError (error : Nat)
  | fgetc
  | fgets (n : Int)
  | ungetc (c : Int)
  | fputc (c : Int)
  | fputs (s : List UInt8)
  | fread (size nmemb : Nat)
  | fwrite (data : List UInt8) (size nmemb : Nat)
  | fflush
  | flushAll
  | fseek (offset whence : Int)
  | ftell
  | rewind
  | clearerr
  | setvbuf (buffer : NewBuffer) (mode : Int) (size : Nat)

def UpdateOp.after (w : World κ) : UpdateOp → World κ
  | .read n => (stdioRead w n).2
  | .write data => (stdioWrite w data).2
  | .pushback bytes => (stdioPushback w bytes).2
  | .requireWide localeUtf8 => (Stdio.requireWide w localeUtf8).2
  | .markError error => Stdio.markError w error
  | .fgetc => (Stdio.fgetc w).2
  | .fgets n => (Stdio.fgets n w).2
  | .ungetc c => (Stdio.ungetc c w).2
  | .fputc c => (Stdio.fputc c w).2
  | .fputs s => (Stdio.fputs s w).2
  | .fread size nmemb => (Stdio.fread size nmemb w).2
  | .fwrite data size nmemb => (Stdio.fwrite data size nmemb w).2
  | .fflush => (Stdio.fflush w).2
  | .flushAll => (flushAllStream w).2
  | .fseek offset whence => (Stdio.fseek offset whence w).2
  | .ftell => (Stdio.ftell w).2
  | .rewind => Stdio.rewind w
  | .clearerr => Stdio.clearerr w
  | .setvbuf buffer mode size => (Stdio.setvbuf buffer mode size w).2

/-- Every operation but the one that makes a stream unbuffered. -/
def UpdateOp.Buffered : UpdateOp → Prop
  | .setvbuf _ mode _ => mode ≠ ioNbf
  | _ => True

theorem UpdateOp.after_directed {w : World κ} (h : Directed w.file) {op : UpdateOp} (hop : op.Buffered) :
    Directed (op.after w).file := by
  cases op with
  | read n => exact (stdioRead_directed h n).1
  | write data => exact (stdioWrite_directed h data).1
  | pushback bytes => exact stdioPushback_directed h bytes
  | requireWide localeUtf8 => exact requireWide_directed h localeUtf8
  | markError error => exact h.markError error
  | fgetc => exact byteOp_directed h fun w h => fgetcCore_directed h
  | fgets n => exact byteOp_directed h fun w h => fgetsCore_directed h n
  | ungetc c => exact byteOp_directed h fun w h => ungetcCore_directed h c
  | fputc c => exact byteOp_directed h fun w h => fputcCore_directed h c
  | fputs s => exact byteOp_directed h fun w h => fputsCore_directed h s
  | fread size nmemb => exact byteOp_directed h fun w h => freadCore_directed h size nmemb
  | fwrite data size nmemb => exact byteOp_directed h fun w h => fwriteCore_directed h data size nmemb
  | fflush => exact fflush_directed h
  | flushAll => exact (flushAllStream_directed h).1
  | fseek offset whence => exact fseek_directed h offset whence
  | ftell => exact ftell_directed h
  | rewind => exact (fseek_directed h 0 seekSet).withState rfl rfl
  | clearerr => exact h.withState rfl rfl
  | setvbuf buffer mode size => exact setvbuf_directed h buffer hop size

/-- A stream just opened, with no buffer yet; the standard streams start so too. -/
structure Opened (f : File) : Prop where
  buffered : f.mode.unbuffered = false
  state : f.state = {}
  writeLength : f.writeLength = 0
  readOffset : f.readOffset = 0
  readLength : f.readLength = 0
  pushbackOffset : f.pushbackOffset = 0
  pushbackLength : f.pushbackLength = 0

theorem Opened.directed {f : File} (h : Opened f) : Directed f where
  write_le := by rw [h.writeLength]; exact Nat.zero_le _
  write_stored h0 := absurd h.writeLength (Nat.ne_of_gt h0)
  read_offset_le := by rw [h.readOffset]; exact Nat.zero_le _
  read_le := by rw [h.readLength]; exact Nat.zero_le _
  read_stored h0 := by rw [h.readOffset, h.readLength] at h0; exact absurd h0 (Nat.lt_irrefl 0)
  buffered := h.buffered
  unread hd := by
    refine absurd ⟨?_, ?_⟩ hd
    · rw [h.pushbackOffset, h.pushbackLength]; exact Nat.lt_irrefl 0
    · rw [h.readOffset, h.readLength]; exact Nat.lt_irrefl 0
  pending h0 := absurd h.writeLength (Nat.ne_of_gt h0)
  writes h0 := absurd h.writeLength (Nat.ne_of_gt h0)
  oneWay hb := by rw [h.state] at hb; exact Bool.false_ne_true hb.1

/-- One operation. -/
def UpdateStep (w w' : World κ) : Prop := ∃ op : UpdateOp, op.Buffered ∧ w' = op.after w

theorem reachable_directed {w : World κ} (h : Reachable (fun w : World κ => Opened w.file) UpdateStep w) :
    Directed w.file :=
  h.invariant (I := fun w => Directed w.file) (fun _ h => h.directed) fun _ _ h ⟨_, hop, hw⟩ =>
    hw ▸ UpdateOp.after_directed h hop

/-- Input that is cached or pushed back is unread. -/
theorem Directed.oneDirection {f : File} (h : Directed f) : f.cached = [] ∧ f.pushback = [] ∨ f.pending = [] := by
  by_cases hd : Drained f
  · exact .inl hd.nil
  right
  have hr := h.unread hd
  apply h.pending_nil
  cases hw : f.state.writeNeedsSync with
  | false => rfl
  | true => exact absurd ⟨hr, hw⟩ h.oneWay

/-- A flush leaves the unread input. -/
theorem stdioFlushBuffer_cached {w : World κ} (h : Directed w.file) :
    (stdioFlushBuffer w).2.file.cached = w.file.cached := by
  unfold stdioFlushBuffer
  split
  · rfl
  rename_i hm
  split
  · rfl
  rename_i h0
  have hnil : w.file.cached = [] := by
    rcases h.oneDirection with hc | hp
    · exact hc.1
    · exact absurd (by rw [← pending_length, hp]; rfl) h0
  have hf := (stdioFlushBuffer_frame (by simpa using hm) h.toSound).1.cached_nil hnil
  unfold stdioFlushBuffer at hf
  rw [if_neg hm, if_neg h0] at hf
  rw [hf, hnil]

/-- Input and output never meet. In every run of a stream that is never made
unbuffered the flags say which of the two is in the buffer and only one is, so a
read keeps the pending output and a write or flush the unread input, also where
the two share their storage. -/
theorem update_safe {w : World κ} (h : Reachable (fun w : World κ => Opened w.file) UpdateStep w) :
    (w.file.cached ≠ [] ∨ w.file.pushback ≠ [] → w.file.state.readNeedsPosition = true) ∧
      (w.file.pending ≠ [] → w.file.state.writeNeedsSync = true) ∧
      ¬ (w.file.state.readNeedsPosition = true ∧ w.file.state.writeNeedsSync = true) ∧
      w.file.readOffset ≤ w.file.readLength ∧ w.file.readLength ≤ w.file.bufferSize ∧
      w.file.writeLength ≤ w.file.bufferSize ∧
      (w.file.cached = [] ∧ w.file.pushback = [] ∨ w.file.pending = []) ∧
      (∀ n, (stdioRead w n).2.file.pending = w.file.pending) ∧
      (∀ data, (stdioWrite w data).2.file.cached = w.file.cached ∧
        (stdioWrite w data).2.file.pushback = w.file.pushback) ∧
      (stdioFlushBuffer w).2.file.cached = w.file.cached := by
  have hd := reachable_directed h
  refine ⟨fun hu => hd.unread fun hn => ?_, fun hp => hd.pending ?_, hd.oneWay, hd.read_offset_le, hd.read_le,
    hd.write_le, hd.oneDirection, fun n => (stdioRead_directed hd n).2, fun data => (stdioWrite_directed hd data).2,
    stdioFlushBuffer_cached hd⟩
  · exact hu.elim (fun hc => hc hn.nil.1) fun hp => hp hn.nil.2
  · rw [← pending_length]
    exact List.length_pos_iff.2 hp

/-- An update stream with a shared buffer of four bytes that has read one byte
of its file and not yet delivered the second. -/
theorem update_safe_shared :
    ∃ w : World Regular, w.file.readBuffer = w.file.writeBuffer ∧ w.file.cached = [66] ∧ w.file.pending = [] := by
  let c : Contents := Contents.empty.write 0 [65, 66]
  let w : World Regular :=
    { file := { mode := { readable := true, writable := true } }
      kernel := { contents := c, offset := 0, script := fun _ => .short 4 } }
  have hw : Reachable (fun w : World Regular => Opened w.file) UpdateStep w :=
    .start ⟨rfl, rfl, rfl, rfl, rfl, rfl, rfl⟩
  have h := update_safe (.next (.next hw
    ⟨.setvbuf (some (fun _ => 0, false)) ioFbf 4, (by decide : ioFbf ≠ ioNbf), rfl⟩) ⟨.fgetc, trivial, rfl⟩)
  refine ⟨_, ?_, ?_, h.2.2.2.2.2.2.1.resolve_left ?_⟩
  · decide
  · decide
  · decide

end MiniLibc.Stdio
