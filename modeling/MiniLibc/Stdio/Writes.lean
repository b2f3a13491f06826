import MiniLibc.Stdio.Steps
/-!
# Output is neither lost nor duplicated

`writeLoop_rule` is the induction over a buffered write: what flushes and
appended bytes preserve, a write preserves. From it, with the bytes a kernel was
given logged, delivered and pending output are together what was accepted.
-/
open MiniLibc.Memory

namespace MiniLibc.Stdio

variable {κ : Type} [Kernel κ]

/-! ## Flushes and appended bytes -/

/-- A file whose storage is there. -/
structure Ready (f : File) : Prop extends Sound f where
  size_pos : 0 < f.bufferSize
  write_ready : f.writeBuffer ≠ .null
  writable : f.mode.writable = true

/-- A writable stream is ready once its storage is there. -/
theorem Sound.ready {f : File} (h : Sound f) (hm : f.mode.writable = true) : Ready (ensureStorage f) where
  toSound := h.ensure
  size_pos := ensureStorage_bufferSize f
  write_ready := ensureStorage_writeBuffer f
  writable := hm

/-- What a flush keeps, and what it leaves. -/
structure FlushFrame (f f' : File) : Prop where
  sound : Sound f'
  mode : f'.mode = f.mode
  state : ∃ e, f'.state = { f.state with error := e }
  readOffset : f'.readOffset = f.readOffset
  readLength : f'.readLength = f.readLength
  pushbackOffset : f'.pushbackOffset = f.pushbackOffset
  pushbackLength : f'.pushbackLength = f.pushbackLength
  pushback : f'.pushback = f.pushback
  cached_nil : f.cached = [] → f'.cached = []
  size_le : f.bufferSize ≤ f'.bufferSize
  write_ready : f.writeBuffer ≠ .null → f'.writeBuffer ≠ .null
  length_le : f'.writeLength ≤ f.writeLength

theorem Sound.flush_frame {f : File} (h : Sound f) (n : Nat) : FlushFrame f (flushed f n) where
  sound := h.flush n
  mode := flushed_mode f n
  state := ⟨f.state.error, flushed_state f n⟩
  readOffset := flushed_readOffset f n
  readLength := flushed_readLength f n
  pushbackOffset := flushed_pushbackOffset f n
  pushbackLength := flushed_pushbackLength f n
  pushback := flushed_pushback f n
  cached_nil hc := flushed_cached_nil hc n
  size_le := by rw [flushed_bufferSize]; exact bufferSize_le_ensureStorage f
  write_ready _ := by rw [flushed_writeBuffer]; exact ensureStorage_writeBuffer f
  length_le := Nat.sub_le _ _

theorem Sound.frame_refl {f : File} (h : Sound f) : FlushFrame f f :=
  ⟨h, rfl, ⟨f.state.error, rfl⟩, rfl, rfl, rfl, rfl, rfl, id, Nat.le_refl _, id, Nat.le_refl _⟩

/-- The error flag is the one part of the state word that a flush may change. -/
theorem FlushFrame.markError {f f' : File} (h : FlushFrame f f') :
    FlushFrame f { f' with state.error := true } := by
  obtain ⟨hs, hm, ⟨e, hst⟩, h1, h2, h3, h4, h5, h6, h7, h8, h9⟩ := h
  exact ⟨⟨hs.1, hs.2, hs.3, hs.4, hs.5⟩, hm, ⟨true, by simp [hst]⟩, h1, h2, h3, h4, h5, h6, h7, h8, h9⟩

omit [Kernel κ] in
theorem afterWrites_file (w : World κ) (error : Option Nat) (k : κ) :
    (afterWrites w error k).file = w.file ∨ (afterWrites w error k).file = { w.file with state.error := true } := by
  cases error
  · exact .inl rfl
  · exact .inr rfl

omit [Kernel κ] in
theorem afterWrites_kernel (w : World κ) (error : Option Nat) (k : κ) : (afterWrites w error k).kernel = k := by
  cases error <;> rfl

omit [Kernel κ] in
theorem afterWrites_pending (w : World κ) (error : Option Nat) (k : κ) :
    (afterWrites w error k).file.pending = w.file.pending := by
  cases error <;> rfl

/-- A successful flush leaves nothing pending. -/
theorem stdioFlushBuffer_frame {w : World κ} (hm : w.file.mode.writable = true) (hs : Sound w.file) :
    FlushFrame w.file (stdioFlushBuffer w).2.file ∧
      ((stdioFlushBuffer w).1 = true → (stdioFlushBuffer w).2.file.writeLength = 0) := by
  obtain ⟨n, error, k, -, hn, herr, hf⟩ := stdioFlushBuffer_spec hm hs
  have hframe : FlushFrame w.file (if w.file.writeLength = 0 then w.file else flushed w.file n) := by
    split
    · exact hs.frame_refl
    · exact hs.flush_frame n
  rw [hf]
  constructor
  · cases error with
    | none => exact hframe
    | some e => exact hframe.markError
  · intro hok
    cases error with
    | some e => simp at hok
    | none =>
      have := herr.1 rfl
      simp only [afterWrites]
      split
      · assumption
      · rw [flushed_writeLength]; omega

theorem Ready.flush {w : World κ} (h : Ready w.file) : Ready (stdioFlushBuffer w).2.file := by
  obtain ⟨hf, -⟩ := stdioFlushBuffer_frame h.writable h.toSound
  exact { toSound := hf.sound, size_pos := h.size_pos.trans_le hf.size_le, write_ready := hf.write_ready h.write_ready,
          writable := hf.mode ▸ h.writable }

/-- Appended bytes stand behind the pending ones. -/
theorem Ready.append_pending {f : File} (h : Ready f) (bytes : List UInt8) :
    (appendPending f bytes).pending = f.pending ++ bytes := by
  have hstore : (appendPending f bytes).storage (appendPending f bytes).writeBuffer =
      fill (f.storage f.writeBuffer) f.writeLength bytes := by
    show (f.setStorage _ f.writeBuffer).storage (f.setStorage _ f.writeBuffer).writeBuffer = _
    rw [setStorage_writeBuffer, storage_setStorage _ _ h.write_ready]
  unfold File.pending
  rw [hstore, show (appendPending f bytes).writeLength = f.writeLength + bytes.length from rfl]
  have := bytesAt_append_fill (f.storage f.writeBuffer) 0 f.writeLength bytes
  rwa [Nat.zero_add] at this

section
variable (f : File) (bytes : List UInt8)

@[simp] theorem appendPending_mode : (appendPending f bytes).mode = f.mode := by simp [appendPending]
@[simp] theorem appendPending_state : (appendPending f bytes).state = f.state := by simp [appendPending]
@[simp] theorem appendPending_writeBuffer : (appendPending f bytes).writeBuffer = f.writeBuffer := by
  simp [appendPending]
@[simp] theorem appendPending_readBuffer : (appendPending f bytes).readBuffer = f.readBuffer := by
  simp [appendPending]
@[simp] theorem appendPending_bufferSize : (appendPending f bytes).bufferSize = f.bufferSize := by
  simp [appendPending]
@[simp] theorem appendPending_readOffset : (appendPending f bytes).readOffset = f.readOffset := by
  simp [appendPending]
@[simp] theorem appendPending_readLength : (appendPending f bytes).readLength = f.readLength := by
  simp [appendPending]
@[simp] theorem appendPending_pushbackOffset : (appendPending f bytes).pushbackOffset = f.pushbackOffset := by
  simp [appendPending]
@[simp] theorem appendPending_pushbackLength : (appendPending f bytes).pushbackLength = f.pushbackLength := by
  simp [appendPending]
@[simp] theorem appendPending_pushback : (appendPending f bytes).pushback = f.pushback := by
  simp [appendPending, File.pushback]
@[simp] theorem appendPending_writeLength :
    (appendPending f bytes).writeLength = f.writeLength + bytes.length := rfl
end

/-- What fits behind the pending bytes leaves the stream ready. -/
theorem Ready.append {f : File} (h : Ready f) {bytes : List UInt8}
    (hle : f.writeLength + bytes.length ≤ f.bufferSize) : Ready (appendPending f bytes) where
  write_le := by simpa using hle
  write_stored _ := by simpa using h.write_ready
  read_offset_le := by simpa using h.read_offset_le
  read_le := by simpa using h.read_le
  read_stored := by simpa using h.read_stored
  size_pos := by simpa using h.size_pos
  write_ready := by simpa using h.write_ready
  writable := by simpa using h.writable

/-- A chunk is not empty, and it fits. -/
theorem writeChunk_spec {f : File} {data : List UInt8} (hd : data ≠ []) (hs : f.writeLength < f.bufferSize) :
    0 < (writeChunk f data).1 ∧ (writeChunk f data).1 ≤ data.length ∧
      f.writeLength + (writeChunk f data).1 ≤ f.bufferSize := by
  have hlen := List.length_pos_iff.2 hd
  unfold writeChunk
  dsimp only
  split
  · split
    · rename_i i hi
      obtain ⟨hlt, -⟩ := List.idxOf?_eq_some_iff.1 hi
      rw [List.length_take] at hlt
      dsimp only
      omega
    · dsimp only; omega
  · dsimp only; omega

/-! ## The induction over a write -/

/-- What flushes and appended bytes preserve, the loop of a write preserves, and
a short count comes from a failed flush. -/
theorem writeLoop_rule {I : World κ → List UInt8 → Prop} {Q : World κ → Prop}
    (hflush : ∀ w acc, Ready w.file → I w acc → I (stdioFlushBuffer w).2 acc ∧
      ((stdioFlushBuffer w).1 = false → Q (stdioFlushBuffer w).2))
    (happend : ∀ w acc bytes, Ready w.file → I w acc → bytes ≠ [] →
      w.file.writeLength + bytes.length ≤ w.file.bufferSize →
      I { w with file := appendPending w.file bytes } (acc ++ bytes))
    {fuel : Nat} {w : World κ} {data acc : List UInt8} (hr : Ready w.file) (hi : I w acc) (hf : data.length ≤ fuel) :
    (writeLoop fuel w data).1 ≤ data.length ∧ Ready (writeLoop fuel w data).2.file ∧
      I (writeLoop fuel w data).2 (acc ++ data.take (writeLoop fuel w data).1) ∧
      ((writeLoop fuel w data).1 < data.length → Q (writeLoop fuel w data).2) := by
  induction fuel generalizing w data acc with
  | zero =>
    have : data = [] := List.eq_nil_of_length_eq_zero (by omega)
    subst this
    simpa [writeLoop] using ⟨hr, hi⟩
  | succ fuel ih =>
    unfold writeLoop
    by_cases h0 : data.length = 0
    · rw [if_pos h0]
      simpa [h0] using ⟨hr, hi⟩
    rw [if_neg h0]
    have hd : data ≠ [] := fun h => h0 (by rw [h]; rfl)
    -- First a full buffer is flushed.
    obtain ⟨⟨ok, w1⟩, hw1⟩ : ∃ r, (if w.file.writeLength = w.file.bufferSize then stdioFlushBuffer w else (true, w)) = r :=
      ⟨_, rfl⟩
    have h1 : Ready w1.file ∧ I w1 acc ∧ (ok = false → Q w1) ∧ (ok = true → w1.file.writeLength < w1.file.bufferSize) := by
      split at hw1
      · have hfl := hflush w acc hr hi
        have hlen := (stdioFlushBuffer_frame hr.writable hr.toSound).2
        have hrdy := hr.flush
        rw [hw1] at hfl hlen hrdy
        exact ⟨hrdy, hfl.1, hfl.2, fun hok => by rw [hlen hok]; exact hrdy.size_pos⟩
      · obtain ⟨rfl, rfl⟩ := Prod.mk.inj hw1
        exact ⟨hr, hi, by simp, fun _ => Nat.lt_of_le_of_ne hr.write_le ‹_›⟩
    obtain ⟨hr1, hi1, hq1, hlt1⟩ := h1
    rw [hw1]
    cases ok with
    | false => exact ⟨Nat.zero_le _, hr1, by simpa using hi1, fun _ => hq1 rfl⟩
    | true =>
      dsimp only
      obtain ⟨hpos, hle, hfit⟩ := writeChunk_spec hd (hlt1 rfl)
      obtain ⟨⟨chunk, flushLine⟩, hc⟩ : ∃ c, writeChunk w1.file data = c := ⟨_, rfl⟩
      rw [hc] at hpos hle hfit ⊢
      dsimp only at hpos hle hfit ⊢
      have htake : (data.take chunk).length = chunk := by rw [List.length_take]; omega
      have hr2 : Ready (appendPending w1.file (data.take chunk)) := hr1.append (by rw [htake]; exact hfit)
      have hi2 := happend w1 acc (data.take chunk) hr1 hi1 (fun h => by rw [h] at htake; simp at htake; omega)
        (by rw [htake]; exact hfit)
      generalize hw2 : ({ w1 with file := appendPending w1.file (data.take chunk) } : World κ) = w2 at hi2
      have hr2' : Ready w2.file := by rw [← hw2]; exact hr2
      -- Then a line is flushed, if the chunk ends one.
      obtain ⟨⟨ok, w3⟩, hw3⟩ : ∃ r, (if flushLine then stdioFlushBuffer w2 else (true, w2)) = r := ⟨_, rfl⟩
      have h3 : Ready w3.file ∧ I w3 (acc ++ data.take chunk) ∧ (ok = false → Q w3) := by
        split at hw3
        · have hfl := hflush w2 _ hr2' hi2
          have hrdy := hr2'.flush
          rw [hw3] at hfl hrdy
          exact ⟨hrdy, hfl.1, hfl.2⟩
        · obtain ⟨rfl, rfl⟩ := Prod.mk.inj hw3
          exact ⟨hr2', hi2, by simp⟩
      obtain ⟨hr3, hi3, hq3⟩ := h3
      rw [hw3]
      cases ok with
      | false => exact ⟨hle, hr3, hi3, fun _ => hq3 rfl⟩
      | true =>
        dsimp only
        obtain ⟨h4, h5, h6, h7⟩ := ih hr3 hi3
          (show (data.drop chunk).length ≤ fuel by rw [List.length_drop]; omega)
        rw [List.length_drop] at h4 h7
        refine ⟨by omega, h5, ?_, fun hlt => h7 (by omega)⟩
        rw [List.take_add, ← List.append_assoc]
        exact h6

end MiniLibc.Stdio
