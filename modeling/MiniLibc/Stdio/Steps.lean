import MiniLibc.Stdio.Position
/-!
# What the loops of a stream do

The raw writes of `write_raw` and of a flush are one run, `rawWrites`, which
stops at the first failure. A flush drops from the pending output what that run
wrote. A buffered read is a `ReadRun`: it takes from the pushback, then from the
cache, and refills an empty cache, until it has enough or there is no more.
-/
open MiniLibc.Memory

namespace MiniLibc.Stdio

variable {κ : Type} [Kernel κ]

/-! ## The guards -/

/-- The world of a write that passed its guards. -/
def startWrite (w : World κ) : World κ := { w with file.state.writeNeedsSync := true }

/-- A write is empty, refused, raw or buffered. -/
theorem stdioWrite_cases (w : World κ) (data : List UInt8) :
    (data = [] ∧ stdioWrite w data = (0, w)) ∨
    ((w.file.mode.writable = false ∨ w.file.state.readNeedsPosition = true) ∧ data ≠ [] ∧
      stdioWrite w data = (0, markError w einval)) ∨
    (w.file.mode.writable = true ∧ w.file.state.readNeedsPosition = false ∧ data ≠ [] ∧
      stdioWrite w data =
        if w.file.mode.unbuffered then writeRaw data.length (startWrite w) data
        else writeLoop data.length { startWrite w with file := ensureStorage (startWrite w).file } data) := by
  unfold stdioWrite
  by_cases hd : data = []
  · exact .inl ⟨hd, by rw [hd]; rfl⟩
  rw [if_neg fun h => hd (List.eq_nil_of_length_eq_zero h)]
  cases hm : w.file.mode.writable with
  | false => exact .inr (.inl ⟨.inl rfl, hd, rfl⟩)
  | true =>
    cases hr : w.file.state.readNeedsPosition with
    | true => exact .inr (.inl ⟨.inr rfl, hd, rfl⟩)
    | false => exact .inr (.inr ⟨rfl, rfl, hd, rfl⟩)

/-- A read is empty, refused, raw or buffered. -/
theorem stdioRead_cases (w : World κ) (length : Nat) :
    (length = 0 ∧ stdioRead w length = ([], w)) ∨
    ((w.file.mode.readable = false ∨ w.file.state.writeNeedsSync = true) ∧ length ≠ 0 ∧
      stdioRead w length = ([], markError w einval)) ∨
    (w.file.mode.readable = true ∧ w.file.state.writeNeedsSync = false ∧ length ≠ 0 ∧
      stdioRead w length =
        if w.file.mode.unbuffered then readUnbuffered length w length
        else readLoop (2 * length) { w with file := ensureStorage w.file } length) := by
  unfold stdioRead
  by_cases hd : length = 0
  · exact .inl ⟨hd, if_pos hd⟩
  rw [if_neg hd]
  cases hm : w.file.mode.readable with
  | false => exact .inr (.inl ⟨.inl rfl, hd, rfl⟩)
  | true =>
    cases hr : w.file.state.writeNeedsSync with
    | true => exact .inr (.inl ⟨.inr rfl, hd, rfl⟩)
    | false => exact .inr (.inr ⟨rfl, rfl, hd, rfl⟩)

omit [Kernel κ] in
/-- The orientation check changes only the state word and `errno`. -/
theorem requireByte_world (w : World κ) :
    ∃ s e, (requireByte w).2 = { w with file := { w.file with state := s }, errno := e } := by
  unfold requireByte markError
  split
  · exact ⟨_, _, rfl⟩
  split
  · exact ⟨_, _, rfl⟩
  split
  · exact ⟨w.file.state, w.errno, rfl⟩
  · exact ⟨_, _, rfl⟩

/-- The file after a successful `fseek`. -/
def sought (f : File) : File :=
  { discardInput f with state := { f.state with eof := false, readNeedsPosition := false, writeNeedsSync := false } }

/-- `fseek` refuses its arguments, fails to flush, or flushes and then fails its
range check, fails its `lseek` or moves. -/
theorem fseek_cases (offset whence : Int) (w : World κ) :
    ((validStream w.file = false ∨ (whence ≠ seekSet ∧ whence ≠ seekCur ∧ whence ≠ seekEnd)) ∧
      fseek offset whence w = (false, { w with errno := einval })) ∨
    (validStream w.file = true ∧ (whence = seekSet ∨ whence = seekCur ∨ whence = seekEnd) ∧
      ((∃ w₁, flushAllStream w = (false, w₁) ∧ fseek offset whence w = (false, w₁)) ∨
      ∃ w₁, flushAllStream w = (true, w₁) ∧
        ((seekOffset w₁.file offset whence = none ∧ fseek offset whence w = (false, { w₁ with errno := einval })) ∨
        ∃ adjusted, seekOffset w₁.file offset whence = some adjusted ∧
          ((∃ e k, Kernel.lseek w₁.kernel adjusted whence = (.error e, k) ∧
            fseek offset whence w = (false, { w₁ with kernel := k, errno := e })) ∨
          ∃ position k, Kernel.lseek w₁.kernel adjusted whence = (.ok position, k) ∧
            fseek offset whence w = (true, { w₁ with kernel := k, file := sought w₁.file }))))) := by
  unfold fseek
  by_cases hv : !validStream w.file ∨ (whence ≠ seekSet ∧ whence ≠ seekCur ∧ whence ≠ seekEnd)
  · exact .inl ⟨by simpa using hv, if_pos hv⟩
  right
  rw [if_neg hv]
  refine ⟨?_, ?_, ?_⟩
  · by_contra hn
    exact hv (.inl (by simpa using hn))
  · by_contra hw
    simp only [not_or] at hw
    exact hv (.inr hw)
  obtain ⟨⟨ok, w1⟩, hf⟩ : ∃ r, flushAllStream w = r := ⟨_, rfl⟩
  rw [show (if w.file.mode.writable = true then stdioFlushBuffer w else (true, w)) = (ok, w1) from hf, hf]
  cases ok with
  | false => exact .inl ⟨w1, rfl, rfl⟩
  | true =>
    right
    refine ⟨w1, rfl, ?_⟩
    dsimp only
    cases seekOffset w1.file offset whence with
    | none => exact .inl ⟨rfl, rfl⟩
    | some adjusted =>
      right
      refine ⟨adjusted, rfl, ?_⟩
      dsimp only
      obtain ⟨e | position, k⟩ := Kernel.lseek w1.kernel adjusted whence
      · exact .inl ⟨e, k, rfl, rfl⟩
      · exact .inr ⟨position, k, rfl, rfl⟩

/-- `ftell` changes a stream only by the flush of an append stream. -/
theorem ftell_cases (w : World κ) :
    ∃ e k, (ftell w).2 = { w with errno := e, kernel := k } ∨
      (w.file.mode.append = true ∧ (ftell w).2 = { (stdioFlushBuffer w).2 with errno := e, kernel := k }) := by
  unfold ftell
  split
  · exact ⟨_, _, .inl rfl⟩
  by_cases ha : w.file.mode.append ∧ w.file.writeLength ≠ 0
  · rw [if_pos ha]
    generalize stdioFlushBuffer w = r
    obtain ⟨_ | _, w1⟩ := r
    · exact ⟨w1.errno, w1.kernel, .inr ⟨ha.1, rfl⟩⟩
    · dsimp only
      generalize Kernel.lseek w1.kernel 0 seekCur = answer
      obtain ⟨e | position, k⟩ := answer
      · exact ⟨e, k, .inr ⟨ha.1, rfl⟩⟩
      · dsimp only
        split
        · exact ⟨_, k, .inr ⟨ha.1, rfl⟩⟩
        split
        · exact ⟨_, k, .inr ⟨ha.1, rfl⟩⟩
        · exact ⟨w1.errno, k, .inr ⟨ha.1, rfl⟩⟩
  · rw [if_neg ha]
    dsimp only
    generalize Kernel.lseek w.kernel 0 seekCur = answer
    obtain ⟨e | position, k⟩ := answer
    · exact ⟨e, k, .inl rfl⟩
    · dsimp only
      split
      · exact ⟨_, k, .inl rfl⟩
      split
      · exact ⟨_, k, .inl rfl⟩
      · exact ⟨w.errno, k, .inl rfl⟩

/-! ## Raw writes -/

/-- Write `data` by raw writes: how much was written, the error that stopped it,
and the kernel after it. -/
def rawWrites : (fuel : Nat) → κ → List UInt8 → Nat × Option Nat × κ
  | 0, k, _ => (0, none, k)
  | fuel + 1, k, data =>
    if data.length = 0 then (0, none, k)
    else
      match Kernel.write k data with
      | (.error e, k) => (0, some e, k)
      | (.ok count, k) =>
        if count = 0 ∨ count > data.length then (0, some eio, k)
        else
          let (n, error, k) := rawWrites fuel k (data.drop count)
          (count + n, error, k)

theorem rawWrites_le (fuel : Nat) (k : κ) (data : List UInt8) : (rawWrites fuel k data).1 ≤ data.length := by
  induction fuel generalizing k data with
  | zero => exact Nat.zero_le _
  | succ fuel ih =>
    unfold rawWrites
    split
    · exact Nat.zero_le _
    split
    · exact Nat.zero_le _
    · split
      · exact Nat.zero_le _
      · have := ih ‹κ› (data.drop ‹Nat›)
        rw [List.length_drop] at this
        simp only
        omega

/-- Without an error everything is written, with one something is left. -/
theorem rawWrites_error {fuel : Nat} {k : κ} {data : List UInt8} (h : data.length ≤ fuel) :
    (rawWrites fuel k data).2.1 = none ↔ (rawWrites fuel k data).1 = data.length := by
  induction fuel generalizing k data with
  | zero => simp [rawWrites]; omega
  | succ fuel ih =>
    unfold rawWrites
    split
    · simp [*]
    split
    · simp; omega
    · split
      · simp; omega
      · rename_i count k' _ hc
        have := @ih k' (data.drop count) (by rw [List.length_drop]; omega)
        rw [List.length_drop] at this
        simp only [this]
        omega

/-- The world after a run of raw writes. -/
def afterWrites (w : World κ) (error : Option Nat) (k : κ) : World κ :=
  match error with
  | none => { w with kernel := k }
  | some e => markError { w with kernel := k } e

theorem writeRaw_eq (fuel : Nat) (w : World κ) (data : List UInt8) :
    writeRaw fuel w data = ((rawWrites fuel w.kernel data).1,
      afterWrites w (rawWrites fuel w.kernel data).2.1 (rawWrites fuel w.kernel data).2.2) := by
  induction fuel generalizing w data with
  | zero => rfl
  | succ fuel ih =>
    unfold writeRaw rawWrites
    by_cases h : data.length = 0
    · rw [if_pos h, if_pos h]; rfl
    rw [if_neg h, if_neg h]
    rcases Kernel.write w.kernel data with ⟨e | count, k⟩
    · rfl
    · dsimp only
      by_cases h0 : count = 0
      · rw [if_pos h0, if_pos (.inl h0)]; rfl
      by_cases h1 : count > data.length
      · rw [if_neg h0, if_pos h1, if_pos (.inr h1)]; rfl
      · rw [if_neg h0, if_neg h1, if_neg (by omega), ih]
        rfl

/-! ## Flushes -/

theorem shiftLoop_out {m : Mem} {completed i n x : Nat} (h : x < i ∨ i + n ≤ x) :
    shiftLoop m completed i n x = m x := by
  induction n generalizing m i with
  | zero => rfl
  | succ n ih => rw [shiftLoop, ih (by omega), poke_other _ (by omega)]

/-- Moving down reads each byte before it is overwritten. -/
theorem shiftLoop_in {m : Mem} {completed i n : Nat} :
    ∀ j, i ≤ j → j < i + n → shiftLoop m completed i n j = m (completed + j) := by
  induction n generalizing m i with
  | zero => intro j h1 h2; omega
  | succ n ih =>
    intro j h1 h2
    rw [shiftLoop]
    rcases Nat.eq_or_lt_of_le h1 with rfl | h1
    · rw [shiftLoop_out (by omega), poke_same]
    · rw [ih j (by omega) (by omega), poke_other _ (by omega)]

theorem bytesAt_shift (m : Mem) (completed n : Nat) :
    bytesAt (shiftLoop m completed 0 n) 0 n = bytesAt m completed n :=
  bytesAt_eq_iff.2 fun i hi => by rw [Nat.zero_add, shiftLoop_in i (Nat.zero_le _) (by omega)]

theorem flushLoop_eq {fuel length completed : Nat} (w : World κ) (hf : length - completed ≤ fuel)
    (hc : completed ≤ length) :
    flushLoop fuel w length completed =
      match rawWrites fuel w.kernel (bytesAt (w.file.storage w.file.writeBuffer) completed (length - completed)) with
      | (_, none, k) => (true, { w with kernel := k, file.writeLength := 0 })
      | (n, some e, k) =>
        (false, keepUnwritten { w with kernel := k } (completed + n) (length - (completed + n)) e) := by
  induction fuel generalizing w completed with
  | zero => rfl
  | succ fuel ih =>
    unfold flushLoop rawWrites
    rw [bytesAt_length]
    by_cases h : completed < length
    · rw [if_pos h, if_neg (by omega)]
      dsimp only
      rcases Kernel.write w.kernel (bytesAt (w.file.storage w.file.writeBuffer) completed (length - completed)) with
        ⟨e | count, k⟩
      · rfl
      · dsimp only
        by_cases hbad : count = 0 ∨ count > length - completed
        · rw [if_pos hbad, if_pos hbad]; rfl
        · rw [if_neg hbad, if_neg hbad, ih _ (by omega) (by omega), bytesAt_drop _ _ (by omega), Nat.sub_sub]
          dsimp only
          rcases rawWrites fuel k (bytesAt (w.file.storage w.file.writeBuffer) (completed + count)
            (length - (completed + count))) with ⟨n, _ | e, k'⟩
          · rfl
          · dsimp only
            rw [Nat.add_assoc]
    · rw [if_neg h, if_pos (by omega)]

/-! ## Storage -/

/-- Lengths fit the buffers, and what holds bytes is not null. -/
structure Sound (f : File) : Prop where
  write_le : f.writeLength ≤ f.bufferSize
  write_stored : 0 < f.writeLength → f.writeBuffer ≠ .null
  read_offset_le : f.readOffset ≤ f.readLength
  read_le : f.readLength ≤ f.bufferSize
  read_stored : f.readOffset < f.readLength → f.readBuffer ≠ .null

theorem Sound.withState {f : File} (h : Sound f) (s : State) : Sound { f with state := s } :=
  ⟨h.1, h.2, h.3, h.4, h.5⟩

section
variable (f : File)

@[simp] theorem ensureStorage_mode : (ensureStorage f).mode = f.mode := rfl
@[simp] theorem ensureStorage_state : (ensureStorage f).state = f.state := rfl
@[simp] theorem ensureStorage_writeLength : (ensureStorage f).writeLength = f.writeLength := rfl
@[simp] theorem ensureStorage_readOffset : (ensureStorage f).readOffset = f.readOffset := rfl
@[simp] theorem ensureStorage_readLength : (ensureStorage f).readLength = f.readLength := rfl
@[simp] theorem ensureStorage_pushbackOffset : (ensureStorage f).pushbackOffset = f.pushbackOffset := rfl
@[simp] theorem ensureStorage_pushbackLength : (ensureStorage f).pushbackLength = f.pushbackLength := rfl
@[simp] theorem ensureStorage_pushback : (ensureStorage f).pushback = f.pushback := rfl
@[simp] theorem ensureStorage_storage (p : Storage) : (ensureStorage f).storage p = f.storage p := by cases p <;> rfl

theorem ensureStorage_writeBuffer : (ensureStorage f).writeBuffer ≠ .null := by
  unfold ensureStorage
  dsimp only
  split
  · decide
  · assumption

theorem ensureStorage_readBuffer : (ensureStorage f).readBuffer ≠ .null := by
  unfold ensureStorage
  dsimp only
  split
  · decide
  · assumption

theorem ensureStorage_bufferSize : 0 < (ensureStorage f).bufferSize := by
  unfold ensureStorage
  dsimp only
  split
  · decide
  · omega

theorem bufferSize_le_ensureStorage : f.bufferSize ≤ (ensureStorage f).bufferSize := by
  unfold ensureStorage
  dsimp only
  split <;> omega
end

theorem Sound.ensure {f : File} (h : Sound f) : Sound (ensureStorage f) where
  write_le := h.write_le.trans (bufferSize_le_ensureStorage f)
  write_stored _ := ensureStorage_writeBuffer f
  read_offset_le := h.read_offset_le
  read_le := h.read_le.trans (bufferSize_le_ensureStorage f)
  read_stored _ := ensureStorage_readBuffer f

theorem Sound.ensure_pending {f : File} (h : Sound f) : (ensureStorage f).pending = f.pending := by
  unfold File.pending
  rw [ensureStorage_writeLength, ensureStorage_storage]
  rcases Nat.eq_zero_or_pos f.writeLength with h0 | h0
  · rw [h0]; rfl
  · rw [show (ensureStorage f).writeBuffer = f.writeBuffer from if_neg (h.write_stored h0)]

theorem Sound.ensure_cached {f : File} (h : Sound f) : (ensureStorage f).cached = f.cached := by
  unfold File.cached
  rw [ensureStorage_readOffset, ensureStorage_readLength, ensureStorage_storage]
  rcases Nat.eq_zero_or_pos (f.readLength - f.readOffset) with h0 | h0
  · rw [h0]; rfl
  · rw [show (ensureStorage f).readBuffer = f.readBuffer from if_neg (h.read_stored (by omega))]

theorem pending_length (f : File) : f.pending.length = f.writeLength := bytesAt_length _ _ _

theorem cached_length (f : File) : f.cached.length = f.readLength - f.readOffset := bytesAt_length _ _ _

theorem pushback_length (f : File) : f.pushback.length = f.pushbackLength - f.pushbackOffset := bytesAt_length _ _ _

/-- The file after a flush that wrote `n` bytes. -/
def flushed (f : File) (n : Nat) : File :=
  let f := ensureStorage f
  { f.setStorage (shiftLoop (f.storage f.writeBuffer) n 0 (f.writeLength - n)) f.writeBuffer with
    writeLength := f.writeLength - n }

section
variable (f : File) (n : Nat)

@[simp] theorem flushed_mode : (flushed f n).mode = f.mode := by simp [flushed]
@[simp] theorem flushed_state : (flushed f n).state = f.state := by simp [flushed]
@[simp] theorem flushed_writeLength : (flushed f n).writeLength = f.writeLength - n := rfl
@[simp] theorem flushed_readOffset : (flushed f n).readOffset = f.readOffset := by simp [flushed]
@[simp] theorem flushed_readLength : (flushed f n).readLength = f.readLength := by simp [flushed]
@[simp] theorem flushed_pushbackOffset : (flushed f n).pushbackOffset = f.pushbackOffset := by simp [flushed]
@[simp] theorem flushed_pushbackLength : (flushed f n).pushbackLength = f.pushbackLength := by simp [flushed]
@[simp] theorem flushed_pushback : (flushed f n).pushback = f.pushback := by
  simp [flushed, File.pushback, ensureStorage]
theorem flushed_writeBuffer : (flushed f n).writeBuffer = (ensureStorage f).writeBuffer := by simp [flushed]
theorem flushed_readBuffer : (flushed f n).readBuffer = (ensureStorage f).readBuffer := by simp [flushed]
theorem flushed_bufferSize : (flushed f n).bufferSize = (ensureStorage f).bufferSize := by simp [flushed]
end

theorem Sound.flush {f : File} (h : Sound f) (n : Nat) : Sound (flushed f n) where
  write_le := by
    have := h.ensure.write_le
    rw [flushed_writeLength, flushed_bufferSize]
    rw [ensureStorage_writeLength] at this
    omega
  write_stored _ := by rw [flushed_writeBuffer]; exact ensureStorage_writeBuffer f
  read_offset_le := by simpa using h.read_offset_le
  read_le := by rw [flushed_bufferSize, flushed_readLength]; exact h.ensure.read_le
  read_stored _ := by rw [flushed_readBuffer]; exact ensureStorage_readBuffer f

/-- What is left is the rest of the pending output, at the front of the buffer. -/
theorem Sound.flush_pending {f : File} (h : Sound f) {n : Nat} (hn : n ≤ f.writeLength) :
    (flushed f n).pending = f.pending.drop n := by
  have hstore : (flushed f n).storage (flushed f n).writeBuffer =
      shiftLoop ((ensureStorage f).storage (ensureStorage f).writeBuffer) n 0 (f.writeLength - n) := by
    rw [flushed_writeBuffer]
    exact storage_setStorage _ _ (ensureStorage_writeBuffer f)
  rw [← h.ensure_pending]
  unfold File.pending
  rw [hstore, flushed_writeLength, bytesAt_shift, ensureStorage_writeLength, bytesAt_drop _ _ hn, Nat.zero_add]

/-- A file without unread input has none after a flush. -/
theorem flushed_cached_nil {f : File} (h : f.cached = []) (n : Nat) : (flushed f n).cached = [] := by
  have := congrArg List.length h
  rw [cached_length] at this
  apply List.eq_nil_of_length_eq_zero
  rw [cached_length, flushed_readLength, flushed_readOffset]
  exact this

theorem setStorage_self (f : File) (p : Storage) : f.setStorage (f.storage p) p = f := by cases p <;> rfl

/-- A flush of a writable stream. -/
theorem stdioFlushBuffer_spec {w : World κ} (hm : w.file.mode.writable = true) (hs : Sound w.file) :
    ∃ n error k, rawWrites w.file.writeLength w.kernel w.file.pending = (n, error, k) ∧ n ≤ w.file.writeLength ∧
      (error = none ↔ n = w.file.writeLength) ∧
      stdioFlushBuffer w = (error.isNone,
        afterWrites { w with file := if w.file.writeLength = 0 then w.file else flushed w.file n } error k) := by
  obtain ⟨⟨n, error, k⟩, hr⟩ : ∃ r, rawWrites w.file.writeLength w.kernel w.file.pending = r := ⟨_, rfl⟩
  have hle := rawWrites_le w.file.writeLength w.kernel w.file.pending
  have herr := rawWrites_error (k := w.kernel) (Nat.le_of_eq (pending_length w.file))
  rw [hr, pending_length] at hle herr
  refine ⟨n, error, k, hr, hle, herr, ?_⟩
  unfold stdioFlushBuffer
  rw [if_neg (by simp [hm])]
  by_cases h0 : w.file.writeLength = 0
  · rw [h0] at hr
    have : (0, none, w.kernel) = (n, error, k) := hr
    obtain ⟨rfl, rfl, rfl⟩ : 0 = n ∧ none = error ∧ w.kernel = k := by simpa using this
    rw [if_pos h0, if_pos h0]
    rfl
  rw [if_neg h0, if_neg h0, flushLoop_eq _ (by omega) (Nat.zero_le _)]
  have hpend : bytesAt ((ensureStorage w.file).storage (ensureStorage w.file).writeBuffer) 0 (w.file.writeLength - 0) =
      w.file.pending := hs.ensure_pending
  dsimp only
  rw [hpend, hr]
  cases error with
  | none =>
    obtain rfl := herr.1 rfl
    have : flushed w.file w.file.writeLength = { ensureStorage w.file with writeLength := 0 } := by
      unfold flushed
      dsimp only
      rw [ensureStorage_writeLength, Nat.sub_self, shiftLoop, setStorage_self]
    rw [this]
    rfl
  | some e =>
    simp only [keepUnwritten, Nat.zero_add, afterWrites, markError, Option.isNone_some, flushed,
      ensureStorage_writeLength]

end MiniLibc.Stdio
