import MiniLibc.Stdio.Plain
import MiniLibc.Stdio.Update
/-!
# The file a stream stands for

`World.plain` reads the abstract file off a stream and its kernel: the contents
with the pending output laid over them, and the offset with pending output
added and cached input taken away. `Rep` is the invariant that makes this right:
cached input is what the file holds just before the offset.
-/
open MiniLibc.Memory

namespace MiniLibc.Stdio

/-- How many cached bytes are unread. -/
def File.ahead (f : File) : Nat := f.readLength - f.readOffset

/-- The file with a cursor that a stream stands for. -/
def World.plain (w : World Regular) : Plain where
  contents := w.kernel.contents.write w.kernel.offset w.file.pending
  position := w.kernel.offset + w.file.writeLength - w.file.ahead
  pushback := w.file.pushback
  reading := w.file.state.readNeedsPosition
  writing := w.file.state.writeNeedsSync

/-- The representation invariant of a byte stream over a regular file. -/
structure Rep (w : World Regular) : Prop where
  directed : Directed w.file
  valid : validStream w.file = true
  notAppend : w.file.mode.append = false
  notWide : w.file.state.wideOriented = false
  capacity : w.file.bufferSize + 4 ≤ maxLong
  kernel : w.kernel.Bounded
  ahead_le : w.file.ahead ≤ w.kernel.offset
  ahead_size : 0 < w.file.ahead → w.kernel.offset ≤ w.kernel.contents.size
  cached : w.file.cached = bytesAt w.kernel.contents.bytes (w.kernel.offset - w.file.ahead) w.file.ahead
  pushback_le : w.file.pushback.length ≤ 4
  eof : w.file.state.eof = true →
    Drained w.file ∧ w.kernel.contents.size ≤ w.kernel.offset ∧ w.file.state.readNeedsPosition = false

/-- Where input is cached the stream is reading, and nothing is pending. -/
theorem Rep.ahead_pos {w : World Regular} (h : Rep w) (h0 : 0 < w.file.ahead) :
    w.file.state.writeNeedsSync = false := by
  have hr := h.directed.unread fun hd => by
    unfold File.ahead at h0
    have := hd.2
    omega
  cases hw : w.file.state.writeNeedsSync with
  | false => rfl
  | true => exact absurd ⟨hr, hw⟩ h.directed.oneWay

theorem Rep.ahead_zero {w : World Regular} (h : Rep w) (hr : w.file.state.readNeedsPosition = false) :
    w.file.ahead = 0 ∧ w.file.pushback = [] := by
  have hd : Drained w.file := by
    by_contra hd
    have := h.directed.unread hd
    rw [hr] at this
    contradiction
  refine ⟨?_, hd.nil.2⟩
  unfold File.ahead
  have := hd.2
  omega

theorem Rep.pending_zero {w : World Regular} (h : Rep w) (hw : w.file.state.writeNeedsSync = false) :
    w.file.pending = [] ∧ w.file.writeLength = 0 := by
  have := h.directed.pending_nil hw
  exact ⟨this, by rw [← pending_length, this]; rfl⟩

/-- While nothing is pending the contents are the kernel's. -/
theorem Rep.plain_contents {w : World Regular} (h : Rep w) (hw : w.file.state.writeNeedsSync = false) :
    w.plain.contents = w.kernel.contents := by
  show w.kernel.contents.write w.kernel.offset w.file.pending = _
  rw [(h.pending_zero hw).1, Contents.write_nil]

/-! ## Flushes -/

/-- Raw writes move the front of the data into the file. -/
theorem rawWrites_regular {fuel : Nat} {k : Regular} (hk : k.Bounded) (data : List UInt8) {n : Nat} {error : Option Nat}
    {k' : Regular} (h : rawWrites fuel k data = (n, error, k')) :
    k'.contents = k.contents.write k.offset (data.take n) ∧ k'.offset = k.offset + n ∧ k'.Bounded ∧
      (error = none → k'.failures = k.failures) ∧ (error ≠ none → k.failures < k'.failures) := by
  induction fuel generalizing k data n with
  | zero =>
    obtain ⟨rfl, rfl, rfl⟩ : 0 = n ∧ none = error ∧ k = k' := by simpa [rawWrites] using h
    exact ⟨(Contents.write_nil _ _).symm, rfl, hk, fun _ => rfl, fun h => absurd rfl h⟩
  | succ fuel ih =>
    unfold rawWrites at h
    split at h
    · obtain ⟨rfl, rfl, rfl⟩ : 0 = n ∧ none = error ∧ k = k' := by simpa using h
      exact ⟨(Contents.write_nil _ _).symm, rfl, hk, fun _ => rfl, fun h => absurd rfl h⟩
    rcases Regular.write_spec k data hk with ⟨answer, ha, hw⟩ | ⟨m, k1, h0, hle, hw, hc, ho, hf, hb⟩
    · obtain ⟨e, hstop⟩ : ∃ e, (n, error, k') = (0, some e, k.failed) := by
        rw [hw] at h
        cases answer with
        | error e => exact ⟨e, h.symm⟩
        | ok m =>
          obtain rfl := ha m rfl
          exact ⟨eio, h.symm⟩
      obtain ⟨rfl, rfl, rfl⟩ : n = 0 ∧ error = some e ∧ k' = k.failed := by simpa using hstop
      exact ⟨(Contents.write_nil _ _).symm, rfl, hk.failed, by rintro ⟨⟩, fun _ => Nat.lt_succ_self _⟩
    · rw [hw] at h
      dsimp only at h
      rw [if_neg (by omega)] at h
      obtain ⟨⟨n1, e1, k2⟩, hr⟩ : ∃ r, rawWrites fuel k1 (data.drop m) = r := ⟨_, rfl⟩
      rw [hr] at h
      obtain ⟨rfl, rfl, rfl⟩ : m + n1 = n ∧ e1 = error ∧ k2 = k' := by simpa using h
      obtain ⟨h1, h2, h3, h4, h5⟩ := ih hb _ hr
      rw [hf] at h4 h5
      refine ⟨?_, by omega, h3, h4, h5⟩
      have hm : (data.take m).length = m := by rw [List.length_take]; omega
      rw [h1, hc, ho, List.take_add, Contents.write_append, hm]

theorem ensureStorage_bufferSize_le (f : File) : (ensureStorage f).bufferSize ≤ max f.bufferSize fileBufferSize := by
  unfold ensureStorage
  dsimp only
  split <;> omega

/-- A write at the offset only moves the end of the file up to the new offset. -/
theorem Contents.write_size_le (c : Contents) (a : Nat) (l : List UInt8) :
    (c.write a l).size ≤ max c.size (a + l.length) := by
  unfold Contents.write
  dsimp only
  split <;> omega

theorem Contents.le_write_size (c : Contents) (a : Nat) (l : List UInt8) : c.size ≤ (c.write a l).size := by
  unfold Contents.write
  dsimp only
  split <;> omega

/-- A flush changes nothing in the file a stream stands for. -/
theorem Rep.flush {w : World Regular} (h : Rep w) (hm : w.file.mode.writable = true) :
    Rep (stdioFlushBuffer w).2 ∧ (stdioFlushBuffer w).2.plain = w.plain ∧
      (stdioFlushBuffer w).2.file.mode = w.file.mode ∧
      ((stdioFlushBuffer w).1 = true → (stdioFlushBuffer w).2.file.writeLength = 0 ∧
        (stdioFlushBuffer w).2.kernel.failures = w.kernel.failures) ∧
      ((stdioFlushBuffer w).1 = false → w.kernel.failures < (stdioFlushBuffer w).2.kernel.failures) := by
  obtain ⟨hframe, hzero⟩ := stdioFlushBuffer_frame hm h.directed.toSound
  have hdir := (stdioFlushBuffer_directed h.directed).1
  have hcached := stdioFlushBuffer_cached h.directed
  obtain ⟨n, error, k, hr, hn, herr, hf⟩ := stdioFlushBuffer_spec hm h.directed.toSound
  obtain ⟨hc, ho, hb, hsame, hmore⟩ := rawWrites_regular h.kernel _ hr
  obtain ⟨e, hstate⟩ := hframe.state
  have hkernel : (stdioFlushBuffer w).2.kernel = k := by rw [hf]; exact afterWrites_kernel _ _ _
  have hpending : (stdioFlushBuffer w).2.file.pending = w.file.pending.drop n := by
    rw [hf]
    dsimp only
    rw [afterWrites_pending]
    dsimp only
    split
    · rename_i h0
      rw [List.drop_eq_nil_of_le (by rw [pending_length]; omega)]
      exact List.eq_nil_of_length_eq_zero (by rw [pending_length, h0])
    · exact h.directed.toSound.flush_pending hn
  have hsize : (stdioFlushBuffer w).2.file.bufferSize ≤ max w.file.bufferSize fileBufferSize := by
    rw [hf]
    dsimp only
    rcases afterWrites_file { w with file := if w.file.writeLength = 0 then w.file else flushed w.file n } error k with
      hfile | hfile <;> rw [hfile] <;> dsimp only <;> split
    · exact Nat.le_max_left _ _
    · rw [flushed_bufferSize]; exact ensureStorage_bufferSize_le _
    · exact Nat.le_max_left _ _
    · rw [flushed_bufferSize]; exact ensureStorage_bufferSize_le _
  have hok : (stdioFlushBuffer w).1 = error.isNone := by rw [hf]
  generalize stdioFlushBuffer w = r at *
  obtain ⟨ok, w'⟩ := r
  dsimp only at *
  subst hkernel
  have hahead : w'.file.ahead = w.file.ahead := by unfold File.ahead; rw [hframe.readOffset, hframe.readLength]
  have htake : (w.file.pending.take n).length = n := by rw [List.length_take, pending_length]; omega
  have hlen : w'.file.writeLength = w.file.writeLength - n := by
    rw [← pending_length, hpending, List.length_drop, pending_length]
  refine ⟨?_, ?_, hframe.mode, fun ht => ⟨hzero ht, hsame ?_⟩, fun hfalse => hmore ?_⟩
  · exact {
      directed := hdir
      valid := by unfold validStream; rw [hframe.mode]; exact h.valid
      notAppend := by rw [hframe.mode]; exact h.notAppend
      notWide := by rw [hstate]; exact h.notWide
      capacity := by
        have := h.capacity
        have : fileBufferSize + 4 ≤ maxLong := by decide
        omega
      kernel := hb
      ahead_le := by have := h.ahead_le; omega
      ahead_size := fun h0 => by
        have := h.ahead_size (by omega)
        have := Contents.le_write_size w.kernel.contents w.kernel.offset (w.file.pending.take n)
        have := (h.pending_zero (h.ahead_pos (hahead ▸ h0))).2
        rw [hc]
        omega
      cached := by
        rw [hcached, hahead, h.cached]
        rcases Nat.eq_zero_or_pos w.file.ahead with h0 | h0
        · rw [h0]; rfl
        obtain ⟨hnil, hlen0⟩ := h.pending_zero (h.ahead_pos h0)
        obtain rfl : n = 0 := by omega
        rw [hc, ho, hnil, List.take_nil, Contents.write_nil, Nat.add_zero]
      pushback_le := by rw [hframe.pushback]; exact h.pushback_le
      eof := fun he => by
        rw [hstate] at he
        obtain ⟨h1, h2, h3⟩ := h.eof he
        refine ⟨?_, ?_, by rw [hstate]; exact h3⟩
        · unfold Drained
          rw [hframe.pushbackOffset, hframe.pushbackLength, hframe.readOffset, hframe.readLength]
          exact h1
        · have := Contents.write_size_le w.kernel.contents w.kernel.offset (w.file.pending.take n)
          rw [hc, ho]
          omega }
  · unfold World.plain
    rw [hpending, hc, ho, hahead, hframe.pushback, hstate, hlen]
    congr 1
    · have := Contents.write_append w.kernel.contents w.kernel.offset (w.file.pending.take n) (w.file.pending.drop n)
      rw [List.take_append_drop, htake] at this
      exact this.symm
    · omega
  · rw [ht] at hok
    simpa using hok.symm
  · rw [hfalse] at hok
    intro hnone
    rw [hnone] at hok
    simp at hok

/-! ## Writes -/

theorem Plain.write_write (p : Plain) (l l' : List UInt8) : (p.write l).write l' = p.write (l ++ l') := by
  simp only [Plain.write, List.length_append, Nat.add_assoc, Contents.write_append]

theorem Plain.write_nil (p : Plain) : p.write [] = { p with writing := true } := by
  simp only [Plain.write, Contents.write_nil, List.length_nil, Nat.add_zero]

/-- Bytes appended to the pending output are written at the cursor. -/
theorem Rep.append {w : World Regular} (h : Rep w) (hr : Ready w.file) (hw : w.file.state.writeNeedsSync = true)
    {bytes : List UInt8} (hfit : w.file.writeLength + bytes.length ≤ w.file.bufferSize) :
    Rep { w with file := appendPending w.file bytes } ∧
      World.plain { w with file := appendPending w.file bytes } = w.plain.write bytes := by
  have hpos : w.file.state.readNeedsPosition = false := by
    cases hp : w.file.state.readNeedsPosition with
    | false => rfl
    | true => exact absurd ⟨hp, hw⟩ h.directed.oneWay
  obtain ⟨h0, hpush⟩ := h.ahead_zero hpos
  have hd : Drained w.file := by
    unfold File.ahead at h0
    have hlen := pushback_length w.file
    rw [hpush] at hlen
    have : ([] : List UInt8).length = 0 := rfl
    exact ⟨by omega, by omega⟩
  have hwriting : Writing (appendPending w.file bytes) :=
    ⟨by simpa using h.directed.buffered, by simpa using hpos, by simpa using hw, by simpa [Drained] using hd⟩
  have hahead : (appendPending w.file bytes).ahead = 0 := by simpa [File.ahead] using h0
  constructor
  · exact {
      directed := hwriting.directed (hr.append hfit)
      valid := by unfold validStream; rw [appendPending_mode]; exact h.valid
      notAppend := by rw [appendPending_mode]; exact h.notAppend
      notWide := by rw [appendPending_state]; exact h.notWide
      capacity := by rw [appendPending_bufferSize]; exact h.capacity
      kernel := h.kernel
      ahead_le := by rw [hahead]; exact Nat.zero_le _
      ahead_size := fun hlt => by rw [hahead] at hlt; exact absurd hlt (Nat.lt_irrefl 0)
      cached := by rw [hahead]; exact hwriting.drained.nil.1
      pushback_le := by rw [appendPending_pushback]; exact h.pushback_le
      eof := fun he => by
        rw [appendPending_state] at he
        obtain ⟨h1, h2, h3⟩ := h.eof he
        exact ⟨hwriting.drained, h2, by rw [appendPending_state]; exact h3⟩ }
  · unfold World.plain Plain.write
    rw [hr.append_pending, hahead, h0, appendPending_pushback, appendPending_state, hw]
    dsimp only
    rw [Contents.write_append, pending_length, appendPending_writeLength, Nat.sub_zero, Nat.sub_zero, Nat.add_assoc]

theorem Rep.ensure {w : World Regular} (h : Rep w) : Rep { w with file := ensureStorage w.file } where
  directed := h.directed.ensure
  valid := h.valid
  notAppend := h.notAppend
  notWide := h.notWide
  capacity := by
    have := h.capacity
    have := ensureStorage_bufferSize_le w.file
    have : fileBufferSize + 4 ≤ maxLong := by decide
    dsimp only
    omega
  kernel := h.kernel
  ahead_le := h.ahead_le
  ahead_size := h.ahead_size
  cached := h.directed.toSound.ensure_cached.trans h.cached
  pushback_le := h.pushback_le
  eof := h.eof

theorem Rep.ensure_plain {w : World Regular} (h : Rep w) :
    World.plain { w with file := ensureStorage w.file } = w.plain := by
  unfold World.plain
  rw [h.directed.toSound.ensure_pending]
  rfl

/-- The flags of a stream that begins to write. -/
theorem Rep.start {w : World Regular} (h : Rep w) (hpos : w.file.state.readNeedsPosition = false) :
    Rep (startWrite w) where
  directed := {
    toSound := h.directed.toSound.withState _
    buffered := h.directed.buffered
    unread := h.directed.unread
    pending := fun _ => rfl
    writes := h.directed.writes
    oneWay := fun hb => by
      have : w.file.state.readNeedsPosition = true := hb.1
      rw [hpos] at this
      contradiction }
  valid := h.valid
  notAppend := h.notAppend
  notWide := h.notWide
  capacity := h.capacity
  kernel := h.kernel
  ahead_le := h.ahead_le
  ahead_size := h.ahead_size
  cached := h.cached
  pushback_le := h.pushback_le
  eof := h.eof

/-- Changing the error flag and `errno`. -/
theorem Rep.markError {w : World Regular} (h : Rep w) (e : Nat) :
    Rep (Stdio.markError w e) ∧ (Stdio.markError w e).plain = w.plain :=
  ⟨⟨h.directed.markError e, h.valid, h.notAppend, h.notWide, h.capacity, h.kernel, h.ahead_le, h.ahead_size, h.cached,
    h.pushback_le, h.eof⟩, rfl⟩

/-- A write is a write at the cursor of what it accepts, which is everything
unless a raw write fails. -/
theorem Rep.stdioWrite {w : World Regular} (h : Rep w) (data : List UInt8) :
    Rep (stdioWrite w data).2 ∧ (stdioWrite w data).2.file.mode = w.file.mode ∧
      w.kernel.failures ≤ (stdioWrite w data).2.kernel.failures ∧
      ((data = [] ∨ ¬ w.plain.CanWrite w.file.mode) →
        (stdioWrite w data).1 = 0 ∧ (stdioWrite w data).2.plain = w.plain ∧
          (stdioWrite w data).2.kernel.failures = w.kernel.failures) ∧
      (data ≠ [] → w.plain.CanWrite w.file.mode → (stdioWrite w data).1 ≤ data.length ∧
        (stdioWrite w data).2.plain = w.plain.write (data.take (stdioWrite w data).1) ∧
        ((stdioWrite w data).2.kernel.failures = w.kernel.failures → (stdioWrite w data).1 = data.length)) := by
  rcases stdioWrite_cases w data with ⟨hd, hw⟩ | ⟨hbad, hd, hw⟩ | ⟨hm, hpos, hd, hw⟩
  · rw [hw]
    exact ⟨h, rfl, Nat.le_refl _, fun _ => ⟨rfl, rfl, rfl⟩, fun hne => absurd hd hne⟩
  · rw [hw]
    refine ⟨(h.markError _).1, rfl, Nat.le_refl _, fun _ => ⟨rfl, rfl, rfl⟩, fun _ hcan => ?_⟩
    obtain ⟨h1, h2⟩ := hcan
    rcases hbad with hb | hb
    · rw [hb] at h1; contradiction
    · exact absurd (hb.symm.trans h2) (by decide)
  have hcan : w.plain.CanWrite w.file.mode := ⟨hm, hpos⟩
  rw [hw, if_neg (by simp [h.directed.buffered])]
  have hstart := (h.start hpos).ensure
  have hplain : World.plain { startWrite w with file := ensureStorage (startWrite w).file } = w.plain.write [] := by
    rw [(h.start hpos).ensure_plain, Plain.write_nil]
    rfl
  obtain ⟨hle, -, ⟨hrep, hp, hmode, hf⟩, hshort⟩ := @writeLoop_rule Regular _
    (fun w' acc => Rep w' ∧ w'.plain = w.plain.write acc ∧ w'.file.mode = w.file.mode ∧
      w.kernel.failures ≤ w'.kernel.failures)
    (fun w' => w.kernel.failures < w'.kernel.failures)
    (fun w' acc hr ⟨h1, h2, h3, h4⟩ => by
      obtain ⟨g1, g2, g3, g4, g5⟩ := h1.flush hr.writable
      refine ⟨⟨g1, g2.trans h2, g3.trans h3, ?_⟩, fun hfalse => h4.trans_lt (g5 hfalse)⟩
      cases hok : (stdioFlushBuffer w').1 with
      | true => rw [(g4 hok).2]; exact h4
      | false => exact h4.trans (g5 hok).le)
    (fun w' acc bytes hr ⟨h1, h2, h3, h4⟩ _ hfit => by
      obtain ⟨g1, g2⟩ := h1.append hr (congrArg Plain.writing h2) hfit
      exact ⟨g1, by rw [g2, h2, Plain.write_write], by rw [← h3]; exact appendPending_mode _ _, h4⟩)
    data.length { startWrite w with file := ensureStorage (startWrite w).file } data []
    ((h.directed.toSound.withState _).ready hm) ⟨hstart, hplain, rfl, Nat.le_refl _⟩ (Nat.le_refl data.length)
  refine ⟨hrep, hmode, hf, fun hno => ?_, fun _ _ => ⟨hle, hp, fun hsame => ?_⟩⟩
  · rcases hno with rfl | hno
    · exact absurd rfl hd
    · exact absurd hcan hno
  · by_contra hne
    have := hshort (by omega)
    omega

end MiniLibc.Stdio
