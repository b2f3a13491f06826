import MiniLibc.Stdio.Refine
/-!
# Positions through a buffer

Flushes, seeks and tells of a byte stream over a regular file. The position is
spread over the kernel's offset, the unread cache, the bytes pushed back and the
pending output; the corrections for them are exact.
-/
open MiniLibc.Memory

namespace MiniLibc.Stdio


theorem Rep.withErrno {w : World Regular} (h : Rep w) (e : Nat) : Rep { w with errno := e } :=
  ⟨h.directed, h.valid, h.notAppend, h.notWide, h.capacity, h.kernel, h.ahead_le, h.ahead_size, h.cached,
    h.pushback_le, h.eof⟩

/-- A stream that does not write has nothing to synchronise. -/
theorem Rep.clearSync {w : World Regular} (h : Rep w) (h0 : w.file.writeLength = 0) :
    Rep { w with file.state.writeNeedsSync := false } :=
  ⟨h.directed.clearSync h0, h.valid, h.notAppend, h.notWide, h.capacity, h.kernel, h.ahead_le, h.ahead_size, h.cached,
    h.pushback_le, h.eof⟩

theorem Rep.fflush {w : World Regular} (h : Rep w) :
    Refines w .fflush (okReply (Stdio.fflush w).1) (Stdio.fflush w).2 := by
  unfold Stdio.fflush
  rw [if_neg (by simp [h.valid])]
  cases hm : w.file.mode.writable with
  | false =>
    refine .of_done h rfl rfl ?_
    rw [Plain.exec, hm]
    simp only [Bool.not_false, Bool.and_true]
    rfl
  | true =>
    obtain ⟨h1, h2, h3, h4, h5⟩ := h.flush hm
    rw [if_pos rfl]
    generalize stdioFlushBuffer w = r at *
    obtain ⟨ok, w1⟩ := r
    dsimp only at *
    cases ok with
    | false =>
      have hlt := h5 rfl
      exact ⟨h1, h3, hlt.le, fun hs => absurd hs hlt.ne', fun _ => ⟨rfl, h2⟩⟩
    | true =>
      obtain ⟨h0, hs⟩ := h4 rfl
      refine .of_done (h1.clearSync h0) h3 hs ?_
      rw [Plain.exec, hm]
      simp only [Bool.not_true, Bool.and_false]
      rw [← h2]
      rfl

/-- What a flush before a seek leaves. -/
theorem Rep.flushAll {w : World Regular} (h : Rep w) :
    Rep (flushAllStream w).2 ∧ (flushAllStream w).2.plain = w.plain ∧
      (flushAllStream w).2.file.mode = w.file.mode ∧
      ((flushAllStream w).1 = true → (flushAllStream w).2.file.writeLength = 0 ∧
        (flushAllStream w).2.kernel.failures = w.kernel.failures) ∧
      ((flushAllStream w).1 = false → w.kernel.failures < (flushAllStream w).2.kernel.failures) := by
  have hzero := (flushAllStream_directed h.directed).2.1
  unfold flushAllStream at hzero ⊢
  cases hm : w.file.mode.writable with
  | true => exact h.flush hm
  | false =>
    rw [hm] at hzero
    rw [if_neg Bool.false_ne_true] at hzero ⊢
    exact ⟨h, rfl, rfl, fun _ => ⟨hzero rfl, rfl⟩, fun hf => absurd hf.symm Bool.false_ne_true⟩

theorem unreadInput_eq {w : World Regular} (h : Rep w) :
    unreadInput w.file = w.file.ahead + w.file.pushback.length := by
  have := h.directed.read_offset_le
  rw [pushback_length]
  unfold unreadInput File.ahead
  split <;> split <;> omega

theorem wrapLong_eq {x : Int} (h1 : -(2 ^ 63) ≤ x) (h2 : x < 2 ^ 63) : wrapLong x = x := by
  unfold wrapLong
  rw [Int.bmod_def]
  norm_num at h1 h2 ⊢
  split <;> omega

/-- Unread input is never more than a `long` counts. -/
theorem Rep.unread_le {w : World Regular} (h : Rep w) : unreadInput w.file ≤ maxLong := by
  rw [unreadInput_eq h]
  have h1 := h.directed.read_le
  have h2 := h.capacity
  have h3 := h.pushback_le
  unfold File.ahead
  omega

/-- The correction of a relative offset is exact: it is refused, because the
position would be negative, or it subtracts the unread input. -/
theorem Rep.seekOffset_cur {w : World Regular} (h : Rep w) {offset : Int} (hlo : -(maxLong : Int) - 1 ≤ offset)
    (hhi : offset ≤ maxLong) :
    (seekOffset w.file offset seekCur = none ∧ offset - unreadInput w.file < -(maxLong : Int) - 1) ∨
      (seekOffset w.file offset seekCur = some (offset - unreadInput w.file) ∧
        -(maxLong : Int) - 1 ≤ offset - unreadInput w.file ∧ offset - unreadInput w.file ≤ maxLong) := by
  have hle := h.unread_le
  have hmax : (maxLong : Int) = 2 ^ 63 - 1 := by norm_num [maxLong]
  unfold seekOffset
  rw [if_pos rfl]
  dsimp only
  generalize unreadInput w.file = unread at *
  have hmin : wrapLong (-(maxLong : Int) - 1 + unread) = -(maxLong : Int) - 1 + unread :=
    wrapLong_eq (by omega) (by omega)
  rw [hmin]
  by_cases hr : unread > maxLong ∨ offset < -(maxLong : Int) - 1 + unread
  · left
    rw [if_pos hr]
    refine ⟨rfl, ?_⟩
    rcases hr with hr | hr <;> omega
  · right
    rw [if_neg hr, wrapLong_eq (by omega) (by omega)]
    exact ⟨rfl, by omega, by omega⟩

/-- The position a seek asks the kernel for, or that there is none. -/
theorem Rep.seek_target {w : World Regular} (h : Rep w) (h0 : w.file.writeLength = 0) {offset whence : Int}
    (hw : whence = seekSet ∨ whence = seekCur ∨ whence = seekEnd) (hlo : -(maxLong : Int) - 1 ≤ offset)
    (hhi : offset ≤ maxLong) :
    (seekOffset w.file offset whence = none ∧ w.plain.base whence + offset < 0) ∨
      ∃ adjusted, seekOffset w.file offset whence = some adjusted ∧
        w.kernel.target adjusted whence = w.plain.base whence + offset := by
  have hpos : w.plain.position = w.kernel.offset - w.file.ahead := by
    show w.kernel.offset + w.file.writeLength - w.file.ahead = _
    rw [h0, Nat.add_zero]
  have hcontents : w.plain.contents = w.kernel.contents := by
    have hnil : w.file.pending = [] := List.eq_nil_of_length_eq_zero (by rw [pending_length, h0])
    show w.kernel.contents.write w.kernel.offset w.file.pending = _
    rw [hnil, Contents.write_nil]
  have hahead := h.ahead_le
  have hoff := h.kernel.offset_le
  have hmax : maxOffset = maxLong := rfl
  rcases hw with rfl | rfl | rfl
  · right
    exact ⟨offset, rfl, by simp [Regular.target, Plain.base, seekSet]⟩
  · have hbase : w.plain.base seekCur = (w.kernel.offset : Int) - unreadInput w.file := by
      rw [Plain.base, if_neg (by decide), if_pos rfl, hpos, unreadInput_eq h]
      show ((w.kernel.offset - w.file.ahead : Nat) : Int) - (w.file.pushback.length : Int) = _
      omega
    rcases h.seekOffset_cur hlo hhi with ⟨hnone, hlt⟩ | ⟨hsome, -, -⟩
    · left
      refine ⟨hnone, ?_⟩
      rw [hbase]
      omega
    · right
      refine ⟨_, hsome, ?_⟩
      rw [Regular.target, if_neg (by decide), if_pos (by decide), hbase]
      omega
  · right
    refine ⟨offset, rfl, ?_⟩
    rw [Regular.target, if_neg (by decide), if_neg (by decide), Plain.base, if_neg (by decide), if_neg (by decide),
      hcontents]

theorem Rep.sought {w : World Regular} (h : Rep w) (h0 : w.file.writeLength = 0) {k : Regular} (hk : k.Bounded)
    (hc : k.contents = w.kernel.contents) :
    Rep { w with kernel := k, file := Stdio.sought w.file } ∧
      World.plain { w with kernel := k, file := Stdio.sought w.file } =
        { w.plain with position := k.offset, pushback := [], reading := false, writing := false } := by
  have hnil : w.file.pending = [] := List.eq_nil_of_length_eq_zero (by rw [pending_length, h0])
  have hnil' : (Stdio.sought w.file).pending = [] := hnil
  constructor
  · exact {
      directed := sought_directed h.directed h0
      valid := h.valid
      notAppend := h.notAppend
      notWide := h.notWide
      capacity := h.capacity
      kernel := hk
      ahead_le := Nat.zero_le _
      ahead_size := fun hlt => absurd hlt (Nat.lt_irrefl 0)
      cached := rfl
      pushback_le := Nat.zero_le _
      eof := fun he => absurd (show false = true from he) Bool.false_ne_true }
  · unfold World.plain
    rw [hnil', hnil, hc, Contents.write_nil, Contents.write_nil]
    show (⟨_, k.offset + w.file.writeLength - 0, _, _, _⟩ : Plain) = _
    rw [h0]
    rfl

/-- Moving only the clock of the kernel, and `errno`, moves nothing in the file. -/
theorem Rep.withKernel {w : World Regular} (h : Rep w) {k : Regular} (hb : k.Bounded)
    (hc : k.contents = w.kernel.contents) (ho : k.offset = w.kernel.offset) (e : Nat) :
    Rep { w with kernel := k, errno := e } ∧ World.plain { w with kernel := k, errno := e } = w.plain := by
  refine ⟨⟨h.directed, h.valid, h.notAppend, h.notWide, h.capacity, hb, by rw [ho]; exact h.ahead_le,
    by rw [hc, ho]; exact h.ahead_size, by rw [hc, ho]; exact h.cached, h.pushback_le,
    by rw [hc, ho]; exact h.eof⟩, ?_⟩
  unfold World.plain
  rw [hc, ho]

theorem Rep.fseek {w : World Regular} (h : Rep w) {offset : Int} (hlo : -(maxLong : Int) - 1 ≤ offset)
    (hhi : offset ≤ maxLong) (whence : Int) :
    Refines w (.fseek offset whence) (okReply (Stdio.fseek offset whence w).1) (Stdio.fseek offset whence w).2 := by
  obtain ⟨h1, h2, h3, h4, h5⟩ := h.flushAll
  rcases fseek_cases offset whence w with ⟨hbad, hr⟩ | ⟨-, hwh, ⟨w1, hf, hr⟩ | ⟨w1, hf, hrest⟩⟩
  · rw [hr]
    refine .of_done (h.withErrno _) rfl rfl ?_
    have hw : whence ≠ seekSet ∧ whence ≠ seekCur ∧ whence ≠ seekEnd := by
      rcases hbad with hb | hb
      · rw [h.valid] at hb; contradiction
      · exact hb
    rw [Plain.exec, if_pos (.inl hw)]
    rfl
  · rw [hr]
    rw [hf] at h1 h2 h3 h5
    have hlt := h5 rfl
    exact ⟨h1, h3, hlt.le, fun hs => absurd hs hlt.ne', fun _ => ⟨rfl, h2⟩⟩
  rw [hf] at h1 h2 h3 h4
  obtain ⟨h0, hs⟩ := h4 rfl
  dsimp only at h1 h2 h3 h0 hs
  have hnot : ¬ (whence ≠ seekSet ∧ whence ≠ seekCur ∧ whence ≠ seekEnd) := fun hn =>
    hwh.elim hn.1 fun hwh => hwh.elim hn.2.1 hn.2.2
  have htarget := h1.seek_target h0 hwh hlo hhi
  rw [h2] at htarget
  rcases hrest with ⟨hnone, hr⟩ | ⟨adjusted, hsome, hseek⟩
  · -- The range check refuses what would be a negative position.
    rw [hr]
    refine .of_done (h1.withErrno _) h3 hs ?_
    have hneg : w.plain.base whence + offset < 0 := by
      rcases htarget with ⟨-, hneg⟩ | ⟨a, ha, -⟩
      · exact hneg
      · rw [hnone] at ha; contradiction
    rw [Plain.exec, if_pos (.inr (.inl hneg)), ← h2]
    rfl
  have htarget' : w1.kernel.target adjusted whence = w.plain.base whence + offset := by
    rcases htarget with ⟨hn, -⟩ | ⟨a, ha, ht⟩
    · rw [hsome] at hn; contradiction
    · obtain rfl := Option.some.inj (hsome.symm.trans ha)
      exact ht
  rcases hseek with ⟨e, k, hk, hr⟩ | ⟨p, k, hk, hr⟩
  · rw [hr]
    have hrep : ∀ k' : Regular, k'.Bounded → k'.contents = w1.kernel.contents → k'.offset = w1.kernel.offset →
        Rep { w1 with kernel := k', errno := e } ∧ World.plain { w1 with kernel := k', errno := e } = w.plain := by
      intro k' hb hc ho
      rw [← h2]
      exact h1.withKernel hb hc ho e
    rcases Regular.lseek_spec w1.kernel adjusted whence h1.kernel with
      ⟨e', hfail⟩ | ⟨e', k', hout, hrefuse, hc, ho, hkf, hb⟩ | ⟨n, k', -, -, hok, -⟩
    · obtain rfl : w1.kernel.failed = k := by rw [hfail] at hk; exact (Prod.mk.inj hk).2
      obtain ⟨g1, g2⟩ := hrep w1.kernel.failed h1.kernel.failed rfl rfl
      have hlt : w.kernel.failures < w1.kernel.failed.failures := by rw [← hs]; exact Nat.lt_succ_self _
      exact ⟨g1, h3, hlt.le, fun hs => absurd hs hlt.ne', fun _ => ⟨rfl, g2⟩⟩
    · obtain rfl : k' = k := by rw [hrefuse] at hk; exact (Prod.mk.inj hk).2
      obtain ⟨g1, g2⟩ := hrep k' hb hc ho
      refine .of_done g1 h3 (hkf.trans hs) ?_
      rw [htarget'] at hout
      rw [Plain.exec, if_pos (.inr hout), g2]
      rfl
    · rw [hok] at hk
      simp at hk
  · rw [hr]
    rcases Regular.lseek_spec w1.kernel adjusted whence h1.kernel with
      ⟨e', hfail⟩ | ⟨e', k', -, hrefuse, -⟩ | ⟨n, k', hn, hmax, hok, hc, ho, hkf, hb⟩
    · rw [hfail] at hk; simp at hk
    · rw [hrefuse] at hk; simp at hk
    · obtain rfl : k' = k := by rw [hok] at hk; exact (Prod.mk.inj hk).2
      obtain ⟨g1, g2⟩ := h1.sought h0 hb hc
      refine .of_done g1 h3 (hkf.trans hs) ?_
      rw [htarget'] at hn
      rw [Plain.exec, if_neg (by
        simp only [not_or]
        exact ⟨hnot, by omega, by omega⟩), g2, h2, ho, ← hn]
      rfl

theorem Rep.ftell {w : World Regular} (h : Rep w) :
    Refines w .ftell ⟨[], (Stdio.ftell w).1⟩ (Stdio.ftell w).2 := by
  have hcore : Stdio.ftell w = (match Kernel.lseek w.kernel 0 seekCur with
      | (.error e, kernel) => (none, { w with kernel, errno := e })
      | (.ok offset, kernel) =>
        if (offset : Int) > ((maxLong : Int) - w.file.writeLength) % 2 ^ 64 then
          (none, { w with kernel, errno := einval })
        else if (unreadInput w.file : Int) > wrapLong (offset + w.file.writeLength) % 2 ^ 64 then
          (none, { w with kernel, errno := einval })
        else (some (wrapLong (wrapLong (offset + w.file.writeLength) - unreadInput w.file)), { w with kernel })) := by
    unfold Stdio.ftell
    rw [if_neg (by simp [h.valid]), if_neg (by simp [h.notAppend])]
    dsimp only
    obtain ⟨result, kernel⟩ := Kernel.lseek w.kernel 0 seekCur
    cases result <;> rfl
  rw [hcore]
  have htarget : w.kernel.target 0 seekCur = w.kernel.offset := by
    rw [Regular.target, if_neg (by decide), if_pos (by decide), Int.add_zero]
  rcases Regular.lseek_spec w.kernel 0 seekCur h.kernel with
    ⟨e, hfail⟩ | ⟨e, k, hout, -⟩ | ⟨n, k, hn, -, hok, hc, ho, hf, hb⟩
  · rw [hfail]
    obtain ⟨g1, g2⟩ := h.withKernel h.kernel.failed rfl rfl e
    have hlt : w.kernel.failures < w.kernel.failed.failures := Nat.lt_succ_self _
    exact ⟨g1, rfl, hlt.le, fun hs => absurd hs hlt.ne', fun _ => ⟨rfl, g2⟩⟩
  · -- The current offset is always one the kernel takes.
    rw [htarget] at hout
    have := h.kernel.offset_le
    omega
  obtain rfl : n = w.kernel.offset := by rw [htarget] at hn; exact_mod_cast hn
  rw [hok]
  dsimp only
  have hmax : (maxLong : Int) = 2 ^ 63 - 1 := by norm_num [maxLong]
  have hoff : (w.kernel.offset : Int) ≤ maxLong := by exact_mod_cast h.kernel.offset_le
  have hwl : (w.file.writeLength : Int) ≤ maxLong := by
    have := h.directed.write_le
    have := h.capacity
    omega
  have hunread := h.unread_le
  have heq := unreadInput_eq h
  have hahead := h.ahead_le
  have hposition : w.plain.position = w.kernel.offset + w.file.writeLength - w.file.ahead := rfl
  have hpushback : w.plain.pushback = w.file.pushback := rfl
  have hexec : w.plain.exec w.file.mode .ftell =
      if w.file.pushback.length ≤ w.plain.position ∧ w.plain.position ≤ maxLong then
        (⟨[], some ((w.plain.position - w.file.pushback.length : Nat) : Int)⟩, w.plain)
      else (⟨[], none⟩, w.plain) := rfl
  rw [Int.emod_eq_of_lt (by omega) (by omega)]
  by_cases hbig : (w.kernel.offset : Int) > maxLong - w.file.writeLength
  · rw [if_pos hbig]
    obtain ⟨g1, g2⟩ := h.withKernel hb hc ho einval
    refine .of_done g1 rfl hf ?_
    have hzero : w.file.ahead = 0 := by
      -- Output is pending, so nothing is cached.
      by_contra h0
      have := (h.pending_zero (h.ahead_pos (Nat.pos_of_ne_zero h0))).2
      omega
    rw [hexec, if_neg (by omega), g2]
  rw [if_neg hbig, wrapLong_eq (by omega) (by omega), Int.emod_eq_of_lt (by omega) (by omega)]
  by_cases hless : (unreadInput w.file : Int) > w.kernel.offset + w.file.writeLength
  · rw [if_pos hless]
    obtain ⟨g1, g2⟩ := h.withKernel hb hc ho einval
    refine .of_done g1 rfl hf ?_
    rw [hexec, if_neg (by omega), g2]
  · rw [if_neg hless, wrapLong_eq (by omega) (by omega)]
    obtain ⟨g1, g2⟩ := h.withKernel hb hc ho w.errno
    refine .of_done g1 rfl hf ?_
    have hvalue : (w.kernel.offset : Int) + w.file.writeLength - unreadInput w.file =
        ((w.plain.position - w.file.pushback.length : Nat) : Int) := by omega
    rw [hexec, if_pos (by omega), hvalue]
    exact congrArg _ g2

end MiniLibc.Stdio
