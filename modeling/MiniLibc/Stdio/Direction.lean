import MiniLibc.Lib.Runs
import MiniLibc.Stdio.Reads
import MiniLibc.Stdio.Writes
/-!
# Input and output never meet

An update stream may share one buffer between input and output. `Directed` is
what keeps them apart: unread input and pending output each have a flag, the
flags exclude each other, and each flag refuses the other direction. Every
operation preserves it, whatever the kernel answers.
-/
open MiniLibc.Memory MiniLibc.Runs

namespace MiniLibc.Stdio

variable {κ : Type} [Kernel κ]

/-- The direction invariant of a stream that is not unbuffered. -/
structure Directed (f : File) : Prop extends Sound f where
  buffered : f.mode.unbuffered = false
  unread : ¬ Drained f → f.state.readNeedsPosition = true
  pending : 0 < f.writeLength → f.state.writeNeedsSync = true
  writes : 0 < f.writeLength → f.mode.writable = true
  oneWay : ¬ (f.state.readNeedsPosition = true ∧ f.state.writeNeedsSync = true)

/-- Changing other bits of the state word. -/
theorem Directed.withState {f : File} (h : Directed f) {s : State}
    (hr : s.readNeedsPosition = f.state.readNeedsPosition) (hw : s.writeNeedsSync = f.state.writeNeedsSync) :
    Directed { f with state := s } where
  toSound := h.toSound.withState s
  buffered := h.buffered
  unread hd := hr.trans (h.unread hd)
  pending hp := hw.trans (h.pending hp)
  writes := h.writes
  oneWay hb := h.oneWay ⟨hr ▸ hb.1, hw ▸ hb.2⟩

omit [Kernel κ] in
theorem Directed.markError {w : World κ} (h : Directed w.file) (e : Nat) : Directed (markError w e).file :=
  h.withState rfl rfl

theorem Directed.ensure {f : File} (h : Directed f) : Directed (ensureStorage f) where
  toSound := h.toSound.ensure
  buffered := h.buffered
  unread := h.unread
  pending := h.pending
  writes := h.writes
  oneWay := h.oneWay

theorem Directed.of_flush {f f' : File} (h : Directed f) (hf : FlushFrame f f') : Directed f' := by
  obtain ⟨e, hs⟩ := hf.state
  exact {
    toSound := hf.sound
    buffered := by rw [hf.mode]; exact h.buffered
    unread := fun hd => by
      rw [hs]
      refine h.unread fun hd' => hd ?_
      unfold Drained at hd' ⊢
      rwa [hf.pushbackOffset, hf.pushbackLength, hf.readOffset, hf.readLength]
    pending := fun hp => by
      rw [hs]
      exact h.pending (hp.trans_le hf.length_le)
    writes := fun hp => by
      rw [hf.mode]
      exact h.writes (hp.trans_le hf.length_le)
    oneWay := fun hb => by
      rw [hs] at hb
      exact h.oneWay hb }

/-! ## Reads -/

/-- A stream that may read: nothing is pending. -/
structure Reading (f : File) : Prop extends Directed f where
  noSync : f.state.writeNeedsSync = false
  read_ready : f.readBuffer ≠ .null

theorem Directed.reading {f : File} (h : Directed f) (hs : f.state.writeNeedsSync = false) :
    Reading (ensureStorage f) where
  toDirected := h.ensure
  noSync := hs
  read_ready := ensureStorage_readBuffer f

theorem Reading.takePushback {f : File} (h : Reading f) (chunk : Nat) : Reading (takePushback f chunk) where
  toSound := ⟨h.1.1.1, h.1.1.2, h.1.1.3, h.1.1.4, h.1.1.5⟩
  buffered := h.buffered
  unread _ := rfl
  pending := h.pending
  writes := h.writes
  oneWay hb := by
    have : f.state.writeNeedsSync = true := hb.2
    rw [h.noSync] at this
    contradiction
  noSync := h.noSync
  read_ready := h.read_ready

theorem Reading.takeCached {f : File} (h : Reading f) {chunk : Nat} (hc : chunk ≤ f.readLength - f.readOffset) :
    Reading (takeCached f chunk) where
  write_le := h.write_le
  write_stored := h.write_stored
  read_offset_le := by
    have := h.read_offset_le
    show f.readOffset + chunk ≤ f.readLength
    omega
  read_le := h.read_le
  read_stored _ := h.read_ready
  buffered := h.buffered
  unread _ := rfl
  pending := h.pending
  writes := h.writes
  oneWay hb := by
    have : f.state.writeNeedsSync = true := hb.2
    rw [h.noSync] at this
    contradiction
  noSync := h.noSync
  read_ready := h.read_ready

theorem Reading.refilled {f : File} (h : Reading f) {bytes : List UInt8} (hb : bytes.length ≤ f.bufferSize)
    {chunk : Nat} (hc : chunk ≤ bytes.length) : Reading (Stdio.takeCached (Stdio.refilled f bytes) chunk) where
  write_le := by simpa [Stdio.takeCached] using h.write_le
  write_stored := by simpa [Stdio.takeCached] using h.write_stored
  read_offset_le := by simpa [Stdio.takeCached] using hc
  read_le := by simpa [Stdio.takeCached] using hb
  read_stored _ := by simpa [Stdio.takeCached] using h.read_ready
  buffered := by simpa [Stdio.takeCached] using h.buffered
  unread _ := rfl
  pending := by simpa [Stdio.takeCached] using h.pending
  writes := by simpa [Stdio.takeCached] using h.writes
  oneWay hb := by simp [Stdio.takeCached, h.noSync] at hb
  noSync := by simpa [Stdio.takeCached] using h.noSync
  read_ready := by simpa [Stdio.takeCached] using h.read_ready

/-- The flags a read sets when it fails. -/
theorem Reading.fail {f : File} (h : Reading f) {s : State} (hr : s.readNeedsPosition = true)
    (hw : s.writeNeedsSync = false) : Reading { f with state := s } where
  toSound := h.toSound.withState s
  buffered := h.buffered
  unread _ := hr
  pending hp := by
    have := h.pending hp
    rw [h.noSync] at this
    contradiction
  writes := h.writes
  oneWay hb := by rw [hw] at hb; exact Bool.false_ne_true hb.2
  noSync := hw
  read_ready := h.read_ready

theorem Reading.setStorage {f : File} (h : Reading f) (m : Mem) (p : Storage) : Reading (f.setStorage m p) where
  write_le := by simpa using h.write_le
  write_stored := by simpa using h.write_stored
  read_offset_le := by simpa using h.read_offset_le
  read_le := by simpa using h.read_le
  read_stored := by simpa using h.read_stored
  buffered := by simpa using h.buffered
  unread hd := by
    rw [setStorage_state]
    exact h.unread fun hd' => hd (by simpa [Drained] using hd')
  pending := by simpa using h.pending
  writes := by simpa using h.writes
  oneWay := by simpa using h.oneWay
  noSync := by simpa using h.noSync
  read_ready := by simpa using h.read_ready

theorem Reading.stop {w w' : World κ} (h : Reading w.file) (hd : Drained w.file) (hr : refill w = (false, w')) :
    Reading w'.file ∧ w'.file.writeLength = w.file.writeLength := by
  rcases refill_cases w with ⟨e, k, -, hs⟩ | ⟨k, -, hs⟩ | ⟨bytes, k, m, -, -, hs⟩ | ⟨bytes, k, -, -, -, hs⟩
  · obtain ⟨-, rfl⟩ := Prod.mk.inj (hr.symm.trans hs)
    exact ⟨h.fail rfl h.noSync, rfl⟩
  · obtain ⟨-, rfl⟩ := Prod.mk.inj (hr.symm.trans hs)
    refine ⟨?_, rfl⟩
    exact {
      write_le := h.write_le
      write_stored := h.write_stored
      read_offset_le := Nat.le_refl _
      read_le := Nat.zero_le _
      read_stored := fun h0 => absurd h0 (by simp [atEof])
      buffered := h.buffered
      unread := fun hn => absurd ⟨hd.1, by simp [atEof]⟩ hn
      pending := h.pending
      writes := h.writes
      oneWay := fun hb => by simp [atEof] at hb
      noSync := h.noSync
      read_ready := h.read_ready }
  · obtain ⟨-, rfl⟩ := Prod.mk.inj (hr.symm.trans hs)
    refine ⟨(h.setStorage m w.file.readBuffer).fail rfl ?_, ?_⟩
    · simpa using h.noSync
    · exact setStorage_writeLength _ _ _
  · rw [hr] at hs
    simp at hs

/-- A read leaves a directed stream, and the pending output as it was. -/
theorem ReadRun.reading {w w' : World κ} {n : Nat} {l : List UInt8} (hr : ReadRun w n l w') (h : Reading w.file) :
    Reading w'.file ∧ w'.file.writeLength = w.file.writeLength := by
  induction hr with
  | done w => exact ⟨h, rfl⟩
  | pushback _ _ _ ih => exact ih (h.takePushback _)
  | cached _ _ _ _ ih => exact ih (h.takeCached (Nat.min_le_left _ _))
  | eof _ _ _ => exact ⟨h, rfl⟩
  | stop _ hd _ hs => exact h.stop hd hs
  | refill _ _ _ hs _ ih =>
    obtain ⟨bytes, k, -, -, hle, rfl⟩ := refill_true hs
    obtain ⟨h1, h2⟩ := ih (h.refilled hle (Nat.min_le_left _ _))
    exact ⟨h1, h2.trans (by simp [Stdio.takeCached])⟩

theorem Directed.pending_nil {f : File} (h : Directed f) (hs : f.state.writeNeedsSync = false) : f.pending = [] := by
  apply List.eq_nil_of_length_eq_zero
  rw [pending_length]
  by_contra h0
  have := h.pending (by omega)
  rw [hs] at this
  contradiction

/-- Every read keeps the invariant and the pending output. -/
theorem stdioRead_directed {w : World κ} (h : Directed w.file) (n : Nat) :
    Directed (stdioRead w n).2.file ∧ (stdioRead w n).2.file.pending = w.file.pending := by
  rcases stdioRead_cases w n with ⟨-, hr⟩ | ⟨-, -, hr⟩ | ⟨hm, hs, -, -⟩
  · rw [hr]; exact ⟨h, rfl⟩
  · rw [hr]; exact ⟨h.markError _, rfl⟩
  rcases stdioRead_run (n := n) hm hs h.buffered with hr | ⟨-, hr⟩
  · obtain ⟨h1, h2⟩ := hr.reading (h.reading hs)
    refine ⟨h1.toDirected, ?_⟩
    rw [h.pending_nil hs, h1.toDirected.pending_nil h1.noSync]
  · rw [hr]; exact ⟨h, rfl⟩

/-! ## Writes -/

/-- A stream that may write: no input is unread. -/
structure Writing (f : File) : Prop where
  buffered : f.mode.unbuffered = false
  noPosition : f.state.readNeedsPosition = false
  sync : f.state.writeNeedsSync = true
  drained : Drained f

theorem Writing.of_flush {f f' : File} (h : Writing f) (hf : FlushFrame f f') : Writing f' := by
  obtain ⟨e, hs⟩ := hf.state
  refine ⟨?_, ?_, ?_, ?_⟩
  · rw [hf.mode]; exact h.buffered
  · rw [hs]; exact h.noPosition
  · rw [hs]; exact h.sync
  · unfold Drained
    rw [hf.pushbackOffset, hf.pushbackLength, hf.readOffset, hf.readLength]
    exact h.drained

theorem Writing.directed {f : File} (h : Writing f) (hs : Ready f) : Directed f where
  toSound := hs.toSound
  buffered := h.buffered
  unread hd := absurd h.drained hd
  pending _ := h.sync
  writes _ := hs.writable
  oneWay hb := by rw [h.noPosition] at hb; exact Bool.false_ne_true hb.1

theorem Drained.nil {f : File} (h : Drained f) : f.cached = [] ∧ f.pushback = [] := by
  constructor
  · apply List.eq_nil_of_length_eq_zero
    rw [cached_length]
    have := h.2
    omega
  · apply List.eq_nil_of_length_eq_zero
    rw [pushback_length]
    have := h.1
    omega

/-- Every write keeps the invariant and the unread input. -/
theorem stdioWrite_directed {w : World κ} (h : Directed w.file) (data : List UInt8) :
    Directed (stdioWrite w data).2.file ∧ (stdioWrite w data).2.file.cached = w.file.cached ∧
      (stdioWrite w data).2.file.pushback = w.file.pushback := by
  rcases stdioWrite_cases w data with ⟨-, hw⟩ | ⟨-, -, hw⟩ | ⟨hm, hr, -, hw⟩
  · rw [hw]; exact ⟨h, rfl, rfl⟩
  · rw [hw]; exact ⟨h.markError _, rfl, rfl⟩
  have hd : Drained w.file := by
    by_contra hd
    have := h.unread hd
    rw [hr] at this
    contradiction
  rw [hw, if_neg (by simp [h.buffered])]
  have hready : Ready (ensureStorage (startWrite w).file) := (h.toSound.withState _).ready hm
  obtain ⟨-, h1, h2, -⟩ := @writeLoop_rule κ _ (fun w' _ => Writing w'.file) (fun _ => True)
    (fun w' acc hr hi => ⟨hi.of_flush (stdioFlushBuffer_frame hr.writable hr.toSound).1, fun _ => trivial⟩)
    (fun w' acc bytes hr hi _ _ => ⟨by simpa using hi.buffered, by simpa using hi.noPosition, by simpa using hi.sync,
      by simpa [Drained] using hi.drained⟩)
    data.length { startWrite w with file := ensureStorage (startWrite w).file } data [] hready
    ⟨h.buffered, hr, rfl, hd⟩ (Nat.le_refl data.length)
  exact ⟨h2.directed h1, h2.drained.nil.1.trans hd.nil.1.symm, h2.drained.nil.2.trans hd.nil.2.symm⟩

/-! ## The other operations -/

omit [Kernel κ] in
theorem stdioPushback_directed {w : World κ} (h : Directed w.file) (bytes : List UInt8) :
    Directed (stdioPushback w bytes).2.file := by
  unfold stdioPushback
  split
  · exact h.markError _
  · rename_i hg
    simp only [not_or, Bool.not_eq_true] at hg
    exact {
      toSound := ⟨h.1.1, h.1.2, h.1.3, h.1.4, h.1.5⟩
      buffered := h.buffered
      unread := fun _ => rfl
      pending := fun hp => h.pending hp
      writes := fun hp => h.writes hp
      oneWay := fun hb => by
        have : w.file.state.writeNeedsSync = true := hb.2
        rw [hg.2.2.2.1] at this
        contradiction }

theorem stdioFlushBuffer_directed {w : World κ} (h : Directed w.file) :
    Directed (stdioFlushBuffer w).2.file ∧
      ((stdioFlushBuffer w).1 = true → (stdioFlushBuffer w).2.file.writeLength = 0) := by
  cases hm : w.file.mode.writable with
  | true =>
    obtain ⟨h1, h2⟩ := stdioFlushBuffer_frame hm h.toSound
    exact ⟨h.of_flush h1, h2⟩
  | false =>
    unfold stdioFlushBuffer
    rw [if_pos (by simp [hm])]
    exact ⟨h.markError _, fun hf => absurd hf (by simp)⟩

/-- Nothing is pending, so the flag that says so may be cleared. -/
theorem Directed.clearSync {f : File} (h : Directed f) (h0 : f.writeLength = 0) :
    Directed { f with state.writeNeedsSync := false } where
  toSound := h.toSound.withState _
  buffered := h.buffered
  unread := h.unread
  pending hp := absurd h0 (Nat.ne_of_gt hp)
  writes := h.writes
  oneWay hb := Bool.false_ne_true hb.2

theorem fflush_directed {w : World κ} (h : Directed w.file) : Directed (fflush w).2.file := by
  unfold fflush
  split
  · exact h.markError _
  split
  · have hf := stdioFlushBuffer_directed h
    generalize stdioFlushBuffer w = r at hf
    obtain ⟨_ | _, w1⟩ := r
    · exact hf.1
    · exact hf.1.clearSync (hf.2 rfl)
  · exact h

theorem flushAllStream_directed {w : World κ} (h : Directed w.file) :
    Directed (flushAllStream w).2.file ∧
      ((flushAllStream w).1 = true → (flushAllStream w).2.file.writeLength = 0) ∧
      (flushAllStream w).2.file.mode = w.file.mode := by
  unfold flushAllStream
  cases hm : w.file.mode.writable with
  | true =>
    obtain ⟨h1, h2⟩ := stdioFlushBuffer_frame hm h.toSound
    exact ⟨h.of_flush h1, h2, h1.mode⟩
  | false =>
    refine ⟨h, fun _ => ?_, rfl⟩
    -- Only a writable stream has output.
    by_contra h0
    have := h.writes (Nat.pos_of_ne_zero h0)
    rw [hm] at this
    contradiction

theorem sought_directed {f : File} (h : Directed f) (h0 : f.writeLength = 0) : Directed (sought f) where
  write_le := h.write_le
  write_stored := h.write_stored
  read_offset_le := Nat.le_refl _
  read_le := Nat.zero_le _
  read_stored hr := absurd hr (by simp [sought, discardInput])
  buffered := h.buffered
  unread hd := absurd ⟨by simp [sought, discardInput], by simp [sought, discardInput]⟩ hd
  pending hp := absurd h0 (Nat.ne_of_gt hp)
  writes := h.writes
  oneWay hb := Bool.false_ne_true hb.1

theorem fseek_directed {w : World κ} (h : Directed w.file) (offset whence : Int) :
    Directed (fseek offset whence w).2.file := by
  obtain ⟨h1, h2, -⟩ := flushAllStream_directed h
  rcases fseek_cases offset whence w with ⟨-, hr⟩ | ⟨-, -, ⟨w1, hf, hr⟩ | ⟨w1, hf, ⟨-, hr⟩ | ⟨adj, -, ⟨e, k, -, hr⟩ | ⟨p, k, -, hr⟩⟩⟩⟩
  · rw [hr]; exact h
  all_goals rw [hf] at h1 h2; rw [hr]
  · exact h1
  · exact h1
  · exact h1
  · exact sought_directed h1 (h2 rfl)

theorem ftell_directed {w : World κ} (h : Directed w.file) : Directed (ftell w).2.file := by
  obtain ⟨e, k, hr | ⟨-, hr⟩⟩ := ftell_cases w
  · rw [hr]; exact h
  · rw [hr]; exact (stdioFlushBuffer_directed h).1

/-- The file `setvbuf` leaves for a buffered mode. -/
def rebuffered (f : File) (buffer : Mem × Bool) (mode : Int) (size : Nat) : File :=
  { discardInput (releaseBuffer f) with
    mode := { f.mode with unbuffered := false, lineBuffered := mode = ioLbf, bufferOwned := buffer.2 }
    writeLength := 0, writeBuffer := .custom, readBuffer := .custom, bufferSize := size, customBuffer := buffer.1 }

theorem rebuffered_directed {f : File} (h : Directed f) (buffer : Mem × Bool) (mode : Int) (size : Nat) :
    Directed (rebuffered f buffer mode size) where
  write_le := Nat.zero_le _
  write_stored h0 := absurd h0 (Nat.lt_irrefl 0)
  read_offset_le := Nat.le_refl _
  read_le := Nat.zero_le _
  read_stored h0 := absurd h0 (Nat.lt_irrefl 0)
  buffered := rfl
  unread hd := absurd ⟨Nat.lt_irrefl 0, Nat.lt_irrefl 0⟩ hd
  pending hp := absurd hp (Nat.lt_irrefl 0)
  writes hp := absurd hp (Nat.lt_irrefl 0)
  oneWay := h.oneWay

theorem setvbuf_directed {w : World κ} (h : Directed w.file) (buffer : NewBuffer) {mode : Int} (hm : mode ≠ ioNbf)
    (size : Nat) : Directed (setvbuf buffer mode size w).2.file := by
  unfold setvbuf
  split
  · exact h
  split
  · exact h
  rename_i hb
  obtain ⟨buffer, rfl⟩ : ∃ b, buffer = some b := by
    cases buffer with
    | none => exact absurd ⟨hm, rfl⟩ hb
    | some b => exact ⟨b, rfl⟩
  have h1 : Directed (if w.file.mode.writable = true then fflush w else (true, w)).2.file := by
    split
    · exact fflush_directed h
    · exact h
  dsimp only
  generalize (if w.file.mode.writable = true then fflush w else (true, w)) = r at h1
  obtain ⟨_ | _, w1⟩ := r
  · exact h1
  dsimp only at h1 ⊢
  have h2 : Directed (if w1.file.mode.readable = true ∧ (w1.file.state.readNeedsPosition = true ∨
      w1.file.readOffset ≠ w1.file.readLength ∨ w1.file.pushbackOffset < w1.file.pushbackLength) then
        fseek 0 seekCur w1 else (true, w1)).2.file := by
    split
    · exact fseek_directed h1 0 seekCur
    · exact h1
  generalize (if w1.file.mode.readable = true ∧ (w1.file.state.readNeedsPosition = true ∨
    w1.file.readOffset ≠ w1.file.readLength ∨ w1.file.pushbackOffset < w1.file.pushbackLength) then
      fseek 0 seekCur w1 else (true, w1)) = r at h2
  obtain ⟨_ | _, w2⟩ := r
  · exact h2
  have hfile : ∀ f : File, rebuffered f buffer mode size = { discardInput
      { releaseBuffer f with
        mode := { (releaseBuffer f).mode with
          unbuffered := decide (mode = ioNbf), lineBuffered := decide (mode = ioLbf), bufferOwned := buffer.2 }
        writeBuffer := .custom, readBuffer := .custom, bufferSize := size, customBuffer := buffer.1 } with
      writeLength := 0 } := by
    intro f
    simp [rebuffered, discardInput, releaseBuffer, hm]
  have h3 := rebuffered_directed h2 buffer mode size
  rw [hfile] at h3
  simpa only [if_pos hm] using h3

end MiniLibc.Stdio
