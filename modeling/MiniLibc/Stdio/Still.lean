import MiniLibc.Stdio.Reads
import MiniLibc.Stdio.Writes
import MiniLibc.Stdio.Wide
/-!
# Operations that read nothing

`Counted` counts the raw reads of a kernel. Output, flushes, flag changes and
the pushbacks and seeks that fail leave the input side of a stream still: the
same cursors, the same end-of-file flag and no raw read.
-/
open MiniLibc.Memory MiniLibc.Wchar

namespace MiniLibc.Stdio

/-- A kernel, and how many raw reads it has seen. -/
structure Counted (κ : Type) where
  kernel : κ
  reads : Nat

variable {κ : Type} [Kernel κ]

instance : Kernel (Counted κ) where
  read c n := ((Kernel.read c.kernel n).1, ⟨(Kernel.read c.kernel n).2, c.reads + 1⟩)
  write c data := ((Kernel.write c.kernel data).1, { c with kernel := (Kernel.write c.kernel data).2 })
  lseek c offset whence :=
    ((Kernel.lseek c.kernel offset whence).1, { c with kernel := (Kernel.lseek c.kernel offset whence).2 })

/-! ## Still streams -/

/-- The input side of a stream is as it was, and no raw read was made. -/
structure Still (w w' : World (Counted κ)) : Prop where
  mode : w'.file.mode = w.file.mode
  eof : w'.file.state.eof = w.file.state.eof
  needsPosition : w'.file.state.readNeedsPosition = w.file.state.readNeedsPosition
  readOffset : w'.file.readOffset = w.file.readOffset
  readLength : w'.file.readLength = w.file.readLength
  pushbackOffset : w'.file.pushbackOffset = w.file.pushbackOffset
  pushbackLength : w'.file.pushbackLength = w.file.pushbackLength
  reads : w'.kernel.reads = w.kernel.reads

namespace Still

variable {w w' w'' : World (Counted κ)}

omit [Kernel κ] in
theorem refl (w : World (Counted κ)) : Still w w := ⟨rfl, rfl, rfl, rfl, rfl, rfl, rfl, rfl⟩

omit [Kernel κ] in
theorem trans (h : Still w w') (h' : Still w' w'') : Still w w'' :=
  ⟨h'.1.trans h.1, h'.2.trans h.2, h'.3.trans h.3, h'.4.trans h.4, h'.5.trans h.5, h'.6.trans h.6, h'.7.trans h.7,
    h'.8.trans h.8⟩

omit [Kernel κ] in
/-- The error flag is not on the input side. -/
theorem markError (w : World (Counted κ)) (e : Nat) : Still w (markError w e) := ⟨rfl, rfl, rfl, rfl, rfl, rfl, rfl, rfl⟩

end Still

omit [Kernel κ] in
theorem requireByte_still (w : World (Counted κ)) : Still w (requireByte w).2 := by
  unfold requireByte
  split
  · exact .markError w _
  split
  · exact ⟨rfl, rfl, rfl, rfl, rfl, rfl, rfl, rfl⟩
  split
  · exact .refl w
  · exact .markError w _

omit [Kernel κ] in
theorem requireWide_still (w : World (Counted κ)) (localeUtf8 : Bool) : Still w (requireWide w localeUtf8).2 := by
  unfold requireWide
  split
  · exact .markError w _
  split
  · exact ⟨rfl, rfl, rfl, rfl, rfl, rfl, rfl, rfl⟩
  split
  · exact .refl w
  · exact .markError w _

omit [Kernel κ] in
theorem keepUnwritten_still (w : World (Counted κ)) (completed remaining e : Nat) :
    Still w (keepUnwritten w completed remaining e) := by
  constructor <;> simp [keepUnwritten, markError]

/-- Raw writes are not raw reads, and what they leave unwritten moves to the front of the
same buffer. -/
theorem flushLoop_still (fuel : Nat) (w : World (Counted κ)) (length completed : Nat) :
    Still w (flushLoop fuel w length completed).2 := by
  induction fuel generalizing w completed with
  | zero => exact ⟨rfl, rfl, rfl, rfl, rfl, rfl, rfl, rfl⟩
  | succ n ih =>
    unfold flushLoop
    dsimp only
    have hreads : (Kernel.write w.kernel (bytesAt (w.file.storage w.file.writeBuffer) completed
      (length - completed))).2.reads = w.kernel.reads := rfl
    generalize Kernel.write w.kernel _ = answer at hreads
    obtain ⟨result, k⟩ := answer
    have hk : Still w { w with kernel := k } := ⟨rfl, rfl, rfl, rfl, rfl, rfl, rfl, hreads⟩
    split
    · split
      · exact hk.trans (keepUnwritten_still _ _ _ _)
      · split
        · exact hk.trans (keepUnwritten_still _ _ _ _)
        · exact hk.trans (ih _ _)
    · exact ⟨rfl, rfl, rfl, rfl, rfl, rfl, rfl, rfl⟩

theorem stdioFlushBuffer_still (w : World (Counted κ)) : Still w (stdioFlushBuffer w).2 := by
  unfold stdioFlushBuffer
  split
  · exact .markError w _
  split
  · exact .refl w
  · have h : Still w { w with file := ensureStorage w.file } := ⟨rfl, rfl, rfl, rfl, rfl, rfl, rfl, rfl⟩
    exact h.trans (flushLoop_still _ _ _ _)

theorem fflush_still (w : World (Counted κ)) : Still w (fflush w).2 := by
  have h := stdioFlushBuffer_still w
  unfold fflush
  split
  · exact .markError w _
  split
  · generalize stdioFlushBuffer w = result at h
    obtain ⟨_ | _, w1⟩ := result
    · exact h
    · exact h.trans ⟨rfl, rfl, rfl, rfl, rfl, rfl, rfl, rfl⟩
  · exact .refl w

theorem flushAllStream_still (w : World (Counted κ)) : Still w (flushAllStream w).2 := by
  unfold flushAllStream
  split
  · exact stdioFlushBuffer_still w
  · exact .refl w

theorem writeRaw_still (fuel : Nat) (w : World (Counted κ)) (data : List UInt8) : Still w (writeRaw fuel w data).2 := by
  induction fuel generalizing w data with
  | zero => exact .refl w
  | succ n ih =>
    unfold writeRaw
    split
    · exact .refl w
    have hreads : (Kernel.write w.kernel data).2.reads = w.kernel.reads := rfl
    dsimp only
    generalize Kernel.write w.kernel data = answer at hreads
    obtain ⟨result, k⟩ := answer
    have hk : Still w { w with kernel := k } := ⟨rfl, rfl, rfl, rfl, rfl, rfl, rfl, hreads⟩
    split
    · exact hk.trans (.markError _ _)
    split
    · exact hk.trans (.markError _ _)
    split
    · exact hk.trans (.markError _ _)
    · exact hk.trans (ih _ _)

/-- A write stays still from one flush or appended chunk to the next. -/
theorem writeLoop_still (fuel : Nat) (w : World (Counted κ)) (data : List UInt8) : Still w (writeLoop fuel w data).2 := by
  induction fuel generalizing w data with
  | zero => exact .refl w
  | succ n ih =>
    unfold writeLoop
    split
    · exact .refl w
    have hfull : Still w (if w.file.writeLength = w.file.bufferSize then stdioFlushBuffer w else (true, w)).2 := by
      split
      · exact stdioFlushBuffer_still w
      · exact .refl w
    generalize (if w.file.writeLength = w.file.bufferSize then stdioFlushBuffer w else (true, w)) = full at hfull
    obtain ⟨_ | _, w1⟩ := full
    · exact hfull
    dsimp only at hfull ⊢
    generalize writeChunk w1.file data = chunk
    have happend : Still w1 { w1 with file := appendPending w1.file (data.take chunk.1) } := by
      constructor <;> simp
    have hline : Still w1 (if chunk.2 then stdioFlushBuffer { w1 with file := appendPending w1.file (data.take chunk.1) }
        else (true, { w1 with file := appendPending w1.file (data.take chunk.1) })).2 := by
      split
      · exact happend.trans (stdioFlushBuffer_still _)
      · exact happend
    generalize (if chunk.2 then stdioFlushBuffer { w1 with file := appendPending w1.file (data.take chunk.1) }
      else (true, { w1 with file := appendPending w1.file (data.take chunk.1) })) = line at hline
    obtain ⟨_ | _, w2⟩ := line
    · exact hfull.trans hline
    · exact (hfull.trans hline).trans (ih _ _)

theorem stdioWrite_still (w : World (Counted κ)) (data : List UInt8) : Still w (stdioWrite w data).2 := by
  have hstart : Still w (startWrite w) := ⟨rfl, rfl, rfl, rfl, rfl, rfl, rfl, rfl⟩
  rcases stdioWrite_cases w data with ⟨-, h⟩ | ⟨-, -, h⟩ | ⟨-, -, -, h⟩
  · rw [h]
    exact .refl w
  · rw [h]
    exact .markError w _
  · rw [h]
    split
    · exact hstart.trans (writeRaw_still _ _ _)
    · have hensure : Still w { startWrite w with file := ensureStorage (startWrite w).file } :=
        ⟨rfl, rfl, rfl, rfl, rfl, rfl, rfl, rfl⟩
      exact hensure.trans (writeLoop_still _ _ _)

omit [Kernel κ] in
/-- A byte operation is as still as its core. -/
theorem byteOp_still {α : Type} {fail : α} {core : World (Counted κ) → α × World (Counted κ)} (w : World (Counted κ))
    (hcore : ∀ w, Still w (core w).2) : Still w (byteOp fail core w).2 := by
  have hstill := requireByte_still w
  unfold byteOp
  generalize requireByte w = result at hstill
  obtain ⟨_ | _, w1⟩ := result
  · exact hstill
  · exact hstill.trans (hcore w1)

theorem fputc_still (w : World (Counted κ)) (c : Int) : Still w (fputc c w).2 := by
  refine byteOp_still w fun w => ?_
  have h := stdioWrite_still w [unsignedChar c]
  unfold fputcCore
  dsimp only
  generalize stdioWrite w [unsignedChar c] = result at h
  obtain ⟨accepted, w1⟩ := result
  split <;> rename_i heq <;> cases heq <;> exact h

theorem fputs_still (w : World (Counted κ)) (s : List UInt8) : Still w (fputs s w).2 := by
  refine byteOp_still w fun w => ?_
  unfold fputsCore
  split
  · exact .markError w _
  · exact stdioWrite_still w s

theorem fwrite_still (w : World (Counted κ)) (data : List UInt8) (size nmemb : Nat) :
    Still w (fwrite data size nmemb w).2 := by
  refine byteOp_still w fun w => ?_
  unfold fwriteCore
  split
  · exact .refl w
  split
  · exact .markError w _
  split
  · exact .markError w _
  · exact stdioWrite_still w _

/-! ## Pushback and positions -/

omit [Kernel κ] in
/-- A pushback fails, or takes the end-of-file flag down. -/
theorem stdioPushback_still (w : World (Counted κ)) (bytes : List UInt8) :
    ((stdioPushback w bytes).1 = false ∧ Still w (stdioPushback w bytes).2) ∨
      ((stdioPushback w bytes).1 = true ∧ (stdioPushback w bytes).2.file.state.eof = false) := by
  unfold stdioPushback
  split
  · exact .inl ⟨rfl, .markError w _⟩
  · exact .inr ⟨rfl, rfl⟩

/-- So does a seek, and neither reads. -/
theorem fseek_still (offset whence : Int) (w : World (Counted κ)) :
    ((fseek offset whence w).1 = false ∧ Still w (fseek offset whence w).2) ∨
      ((fseek offset whence w).1 = true ∧ (fseek offset whence w).2.file.state.eof = false ∧
        (fseek offset whence w).2.kernel.reads = w.kernel.reads) := by
  have hflush := flushAllStream_still w
  rcases fseek_cases offset whence w with ⟨-, h⟩ | ⟨-, -, ⟨w₁, hf, h⟩ | ⟨w₁, hf, ⟨-, h⟩ |
    ⟨adjusted, -, ⟨e, k, hk, h⟩ | ⟨position, k, hk, h⟩⟩⟩⟩
  · rw [h]
    exact .inl ⟨rfl, rfl, rfl, rfl, rfl, rfl, rfl, rfl, rfl⟩
  · rw [h]
    rw [hf] at hflush
    exact .inl ⟨rfl, hflush⟩
  · rw [h]
    rw [hf] at hflush
    exact .inl ⟨rfl, hflush.trans ⟨rfl, rfl, rfl, rfl, rfl, rfl, rfl, rfl⟩⟩
  · have hreads : k.reads = w₁.kernel.reads := congrArg (fun answer => answer.2.reads) hk.symm
    rw [h]
    rw [hf] at hflush
    exact .inl ⟨rfl, hflush.trans ⟨rfl, rfl, rfl, rfl, rfl, rfl, rfl, hreads⟩⟩
  · have hreads : k.reads = w₁.kernel.reads := congrArg (fun answer => answer.2.reads) hk.symm
    rw [h]
    rw [hf] at hflush
    exact .inr ⟨rfl, rfl, hreads.trans hflush.reads⟩

theorem ftell_still (w : World (Counted κ)) : Still w (ftell w).2 := by
  have hflush : Still w (if w.file.mode.append ∧ w.file.writeLength ≠ 0 then stdioFlushBuffer w else (true, w)).2 := by
    split
    · exact stdioFlushBuffer_still w
    · exact .refl w
  unfold ftell
  split
  · exact ⟨rfl, rfl, rfl, rfl, rfl, rfl, rfl, rfl⟩
  generalize (if w.file.mode.append ∧ w.file.writeLength ≠ 0 then stdioFlushBuffer w else (true, w)) = flushed at hflush
  obtain ⟨_ | _, w1⟩ := flushed
  · exact hflush
  dsimp only at hflush ⊢
  have hreads : (Kernel.lseek w1.kernel 0 seekCur).2.reads = w1.kernel.reads := rfl
  generalize Kernel.lseek w1.kernel 0 seekCur = answer at hreads
  obtain ⟨result, k⟩ := answer
  split
  · exact hflush.trans ⟨rfl, rfl, rfl, rfl, rfl, rfl, rfl, hreads⟩
  split
  · exact hflush.trans ⟨rfl, rfl, rfl, rfl, rfl, rfl, rfl, hreads⟩
  split
  · exact hflush.trans ⟨rfl, rfl, rfl, rfl, rfl, rfl, rfl, hreads⟩
  · exact hflush.trans ⟨rfl, rfl, rfl, rfl, rfl, rfl, rfl, hreads⟩

/-- The unread input and the mark that make `setvbuf` reposition first. -/
def NeedsSeek (f : File) : Prop :=
  f.mode.readable = true ∧ (f.state.readNeedsPosition = true ∨ f.readOffset ≠ f.readLength ∨
    f.pushbackOffset < f.pushbackLength)

instance (f : File) : Decidable (NeedsSeek f) := inferInstanceAs (Decidable (_ ∧ _))

/-- The file of a successful `setvbuf`, from the one after its flush and seek. -/
theorem setvbuf_file (buffer : NewBuffer) (mode : Int) (size : Nat) (w : World (Counted κ)) :
    (setvbuf buffer mode size w).2.kernel.reads = w.kernel.reads ∧
    (((setvbuf buffer mode size w).1 = false ∧ Still w (setvbuf buffer mode size w).2) ∨
      ((setvbuf buffer mode size w).1 = true ∧ Drained (setvbuf buffer mode size w).2.file ∧
        (NeedsSeek w.file ∧ (setvbuf buffer mode size w).2.file.state.eof = false ∨
          (setvbuf buffer mode size w).2.file.state.eof = w.file.state.eof))) := by
  have hflush : Still w (if w.file.mode.writable then fflush w else (true, w)).2 := by
    split
    · exact fflush_still w
    · exact .refl w
  unfold setvbuf
  split
  · exact ⟨rfl, .inl ⟨rfl, rfl, rfl, rfl, rfl, rfl, rfl, rfl, rfl⟩⟩
  split
  · exact ⟨rfl, .inl ⟨rfl, rfl, rfl, rfl, rfl, rfl, rfl, rfl, rfl⟩⟩
  generalize (if w.file.mode.writable then fflush w else (true, w)) = flushed at hflush
  obtain ⟨_ | _, w1⟩ := flushed
  · exact ⟨hflush.reads, .inl ⟨rfl, hflush⟩⟩
  dsimp only at hflush ⊢
  have hneeds : (w1.file.mode.readable ∧ (w1.file.state.readNeedsPosition ∨ w1.file.readOffset ≠ w1.file.readLength ∨
      w1.file.pushbackOffset < w1.file.pushbackLength)) ↔ NeedsSeek w.file := by
    rw [hflush.mode, hflush.needsPosition, hflush.readOffset, hflush.readLength, hflush.pushbackOffset,
      hflush.pushbackLength]
    exact Iff.rfl
  obtain ⟨⟨ok, w2⟩, hseek⟩ : ∃ r, (if w1.file.mode.readable ∧ (w1.file.state.readNeedsPosition ∨
      w1.file.readOffset ≠ w1.file.readLength ∨ w1.file.pushbackOffset < w1.file.pushbackLength) then
        fseek 0 seekCur w1 else (true, w1)) = r := ⟨_, rfl⟩
  have hw2 : (ok = false ∧ Still w w2) ∨ (ok = true ∧ w2.kernel.reads = w.kernel.reads ∧
      (NeedsSeek w.file ∧ w2.file.state.eof = false ∨ w2.file.state.eof = w.file.state.eof)) := by
    split at hseek
    · rename_i hn
      rcases fseek_still 0 seekCur w1 with ⟨hf, hstill⟩ | ⟨hf, heof, hreads⟩
      · rw [hseek] at hf hstill
        exact .inl ⟨hf, hflush.trans hstill⟩
      · rw [hseek] at hf heof hreads
        exact .inr ⟨hf, hreads.trans hflush.reads, .inl ⟨hneeds.1 hn, heof⟩⟩
    · cases hseek
      exact .inr ⟨rfl, hflush.reads, .inr hflush.eof⟩
  rw [hseek]
  rcases hw2 with ⟨rfl, hstill⟩ | ⟨rfl, hreads, heof⟩
  · exact ⟨hstill.reads, .inl ⟨rfl, hstill⟩⟩
  · refine ⟨hreads, .inr ⟨rfl, ⟨Nat.lt_irrefl 0, Nat.lt_irrefl 0⟩, ?_⟩⟩
    obtain _ | ⟨bytes, owned⟩ := buffer
    · exact heof
    · dsimp only
      split <;> exact heof

omit [Kernel κ] in
theorem ungetcCore_still (w : World (Counted κ)) (c : Int) :
    ((ungetcCore c w).1 = none ∧ Still w (ungetcCore c w).2) ∨
      ((ungetcCore c w).1 ≠ none ∧ (ungetcCore c w).2.file.state.eof = false) := by
  unfold ungetcCore
  split
  · exact .inl ⟨rfl, .refl w⟩
  · have h := stdioPushback_still w [unsignedChar c]
    dsimp only
    generalize stdioPushback w [unsignedChar c] = result at h
    obtain ⟨_ | _, w1⟩ := result
    · exact .inl ⟨rfl, h.elim (fun h => h.2) (fun h => nomatch h.1)⟩
    · exact .inr ⟨nofun, h.elim (fun h => nomatch h.1) (fun h => h.2)⟩

omit [Kernel κ] in
/-- `ungetc` fails where the orientation or the room refuses it. -/
theorem ungetc_still (w : World (Counted κ)) (c : Int) :
    ((ungetc c w).1 = none ∧ Still w (ungetc c w).2) ∨
      ((ungetc c w).1 ≠ none ∧ (ungetc c w).2.file.state.eof = false) := by
  have hstill := requireByte_still w
  unfold ungetc byteOp
  generalize requireByte w = result at hstill
  obtain ⟨_ | _, w1⟩ := result
  · exact .inl ⟨rfl, hstill⟩
  · exact (ungetcCore_still w1 c).imp_left fun h => ⟨h.1, hstill.trans h.2⟩

omit [Kernel κ] in
/-- The same of `ungetwc`, which may also have no encoding for the character. -/
theorem ungetwc_still (w : World (Counted κ)) (wc : Wint) (localeUtf8 : Bool) :
    ((ungetwc wc localeUtf8 w).1 = none ∧ Still w (ungetwc wc localeUtf8 w).2) ∨
      ((ungetwc wc localeUtf8 w).1 ≠ none ∧ (ungetwc wc localeUtf8 w).2.file.state.eof = false) := by
  have hstill := requireWide_still w localeUtf8
  unfold ungetwc
  split
  · exact .inl ⟨rfl, .refl w⟩
  generalize requireWide w localeUtf8 = result at hstill
  obtain ⟨_ | _, w1⟩ := result
  · exact .inl ⟨rfl, hstill⟩
  dsimp only at hstill ⊢
  unfold wideUngetCharacter
  split
  · exact .inl ⟨rfl, hstill.trans (.markError w1 _)⟩
  generalize wcrtombMode (toWchar wc) {} w1.file.state.wideUtf8 = encoded
  obtain ⟨_ | bytes, state⟩ := encoded
  · exact .inl ⟨rfl, hstill.trans (.markError w1 _)⟩
  have h := stdioPushback_still w1 bytes
  dsimp only
  generalize stdioPushback w1 bytes = result at h
  obtain ⟨_ | _, w2⟩ := result
  · exact .inl ⟨rfl, h.elim (fun h => hstill.trans h.2) (fun h => nomatch h.1)⟩
  · exact .inr ⟨nofun, h.elim (fun h => nomatch h.1) (fun h => h.2)⟩

/-! ## Wide orientation -/

omit [Kernel κ] in
theorem wideRequireReadable_still (w : World (Counted κ)) (localeUtf8 : Bool) :
    Still w (wideRequireReadable w localeUtf8).2 := by
  have hstill := requireWide_still w localeUtf8
  unfold wideRequireReadable
  generalize requireWide w localeUtf8 = result at hstill
  obtain ⟨_ | _, w1⟩ := result
  · exact hstill
  · dsimp only at hstill ⊢
    split
    · exact hstill.trans (.markError w1 _)
    · exact hstill

end MiniLibc.Stdio
