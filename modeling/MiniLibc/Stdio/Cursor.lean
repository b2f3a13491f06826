import MiniLibc.Stdio.Represent
/-!
# Reads at the cursor

Each pass of a read takes a piece of the input, whether from the pushback, the
cache or a refill, and the pieces are together the front of the input. Only a
failed raw read stops a read before it has enough or meets the end.
-/
open MiniLibc.Memory

namespace MiniLibc.Stdio

/-! ## Taking input -/

namespace Plain

theorem input_length (p : Plain) : p.input.length = p.pushback.length + (p.contents.size - p.position) := by
  rw [input, List.length_append, bytesAt_length]

/-- What is left after some of the input has been taken. -/
theorem input_taken {p : Plain} {c : List UInt8} (h : c <+: p.input) (complete : Bool) :
    (p.taken c complete).input = p.input.drop c.length := by
  have hle := h.length_le
  rw [input_length] at hle
  show p.pushback.drop c.length ++ bytesAt p.contents.bytes (p.position + (c.length - p.pushback.length))
    (p.contents.size - (p.position + (c.length - p.pushback.length))) = _
  rw [input, List.drop_append, bytesAt_drop _ _ (by omega), Nat.sub_sub]

theorem input_split {p : Plain} {c : List UInt8} (h : c <+: p.input) (complete : Bool) :
    p.input = c ++ (p.taken c complete).input := by
  obtain ⟨rest, hrest⟩ := h
  rw [input_taken ⟨rest, hrest⟩, ← hrest, List.drop_left]

theorem taken_taken (p : Plain) (c rest : List UInt8) (b complete : Bool) :
    (p.taken c b).taken rest complete = p.taken (c ++ rest) complete := by
  simp only [taken, advance, List.drop_drop, List.length_append, List.length_drop]
  congr 1
  omega

theorem taken_nil (p : Plain) (complete : Bool) : p.taken [] complete = { p with reading := complete } := by
  simp [taken, advance]

end Plain

/-! ## One pass -/

/-- A stream in the middle of a read. -/
structure RepRead (w : World Regular) : Prop extends Rep w where
  ready : Reading w.file
  size_pos : 0 < w.file.bufferSize

/-- A pass takes `c` from the front of the input and changes nothing else. -/
structure Pass (w w₁ : World Regular) (c : List UInt8) : Prop where
  rep : RepRead w₁
  mode : w₁.file.mode = w.file.mode
  failures : w₁.kernel.failures = w.kernel.failures
  front : c <+: w.plain.input
  plain : w₁.plain = w.plain.taken c true

theorem RepRead.contents {w : World Regular} (h : RepRead w) : w.plain.contents = w.kernel.contents :=
  h.plain_contents h.ready.noSync

theorem RepRead.writeLength {w : World Regular} (h : RepRead w) : w.file.writeLength = 0 :=
  (h.pending_zero h.ready.noSync).2

theorem RepRead.input {w : World Regular} (h : RepRead w) :
    w.plain.input = w.file.pushback ++ bytesAt w.kernel.contents.bytes (w.kernel.offset - w.file.ahead)
      (w.kernel.contents.size - (w.kernel.offset - w.file.ahead)) := by
  unfold Plain.input
  rw [h.contents]
  unfold World.plain
  dsimp only
  rw [h.writeLength, Nat.add_zero]

theorem RepRead.pushback_pass {w : World Regular} (h : RepRead w) {n : Nat}
    (hp : w.file.pushbackOffset < w.file.pushbackLength) :
    Pass w { w with file := takePushback w.file (pushbackChunk w.file n) }
      (bytesAt w.file.pushbackBytes w.file.pushbackOffset (pushbackChunk w.file n)) := by
  have hle : pushbackChunk w.file n ≤ w.file.pushbackLength - w.file.pushbackOffset := Nat.min_le_left _ _
  generalize pushbackChunk w.file n = chunk at hle
  have htake : bytesAt w.file.pushbackBytes w.file.pushbackOffset chunk = w.file.pushback.take chunk :=
    (bytesAt_take _ _ hle).symm
  have hpush : (takePushback w.file chunk).pushback = w.file.pushback.drop chunk := by
    by_cases hend : w.file.pushbackOffset + chunk = w.file.pushbackLength
    · rw [List.drop_eq_nil_of_le (by rw [pushback_length]; omega)]
      simp [File.pushback, takePushback, hend, bytesAt]
    · simp only [File.pushback, takePushback, if_neg hend]
      rw [bytesAt_drop _ _ hle, Nat.sub_sub]
  have heof : w.file.state.eof = false := by
    cases he : w.file.state.eof with
    | false => rfl
    | true => exact absurd hp (h.eof he).1.1
  have hplain : World.plain { w with file := takePushback w.file chunk } =
      w.plain.taken (w.file.pushback.take chunk) true := by
    unfold World.plain Plain.taken Plain.advance
    rw [hpush]
    dsimp only
    rw [List.length_take, pushback_length, Nat.min_eq_left hle]
    congr 1
    show w.kernel.offset + w.file.writeLength - w.file.ahead = _
    omega
  rw [htake]
  refine ⟨⟨⟨(h.ready.takePushback chunk).toDirected, h.valid, h.notAppend, h.notWide, h.capacity, h.kernel, h.ahead_le,
    h.ahead_size, h.cached, ?_, fun he => ?_⟩, h.ready.takePushback chunk, h.size_pos⟩, rfl, rfl, ?_, hplain⟩
  · show (takePushback w.file chunk).pushback.length ≤ 4
    rw [hpush, List.length_drop]
    have := h.pushback_le
    omega
  · exact absurd (heof.symm.trans he) (by decide)
  · rw [h.input]
    exact (List.take_prefix _ _).trans (List.prefix_append _ _)

/-- Bytes of the file from the offset on are in front of the input when nothing
is pushed back. -/
theorem RepRead.front {w : World Regular} (h : RepRead w) (hp : w.file.pushback = []) {k : Nat}
    (hk : k ≤ w.kernel.contents.size - (w.kernel.offset - w.file.ahead)) :
    bytesAt w.kernel.contents.bytes (w.kernel.offset - w.file.ahead) k <+: w.plain.input := by
  rw [h.input, hp, List.nil_append, ← bytesAt_take _ _ hk]
  exact List.take_prefix _ _

theorem RepRead.taken_plain {w : World Regular} (h : RepRead w) (hp : w.file.pushback = []) {l : List UInt8}
    (complete : Bool) : w.plain.taken l complete = ⟨w.kernel.contents, w.kernel.offset - w.file.ahead + l.length, [],
      complete, false⟩ := by
  have h1 : w.plain.pushback = [] := hp
  have h2 : w.plain.position = w.kernel.offset - w.file.ahead := by
    show w.kernel.offset + w.file.writeLength - w.file.ahead = _
    rw [h.writeLength, Nat.add_zero]
  have h3 : w.plain.writing = false := h.ready.noSync
  unfold Plain.taken Plain.advance
  rw [h1, h2, h3, h.contents]
  simp

theorem RepRead.plain_eq {w : World Regular} (h : RepRead w) : w.plain = ⟨w.kernel.contents,
    w.kernel.offset - w.file.ahead, w.file.pushback, w.file.state.readNeedsPosition, false⟩ := by
  have h2 : w.plain.position = w.kernel.offset - w.file.ahead := by
    show w.kernel.offset + w.file.writeLength - w.file.ahead = _
    rw [h.writeLength, Nat.add_zero]
  have h3 : w.plain.writing = false := h.ready.noSync
  rw [← h.contents, ← h2, ← h3]
  rfl

theorem pushback_nil {f : File} (h : ¬ f.pushbackOffset < f.pushbackLength) : f.pushback = [] := by
  apply List.eq_nil_of_length_eq_zero
  rw [pushback_length]
  omega

theorem takeCached_cached {f : File} {chunk : Nat} (h : chunk ≤ f.ahead) :
    (takeCached f chunk).cached = f.cached.drop chunk := by
  have hs : (takeCached f chunk).storage f.readBuffer = f.storage f.readBuffer := by cases f.readBuffer <;> rfl
  show bytesAt ((takeCached f chunk).storage f.readBuffer) (f.readOffset + chunk)
    (f.readLength - (f.readOffset + chunk)) = _
  unfold File.ahead at h
  rw [hs, File.cached, bytesAt_drop _ _ h, Nat.sub_sub]

theorem refilled_cached {f : File} (h : f.readBuffer ≠ .null) (bytes : List UInt8) : (refilled f bytes).cached = bytes := by
  rw [File.cached, refilled_readBuffer, refilled_storage h, refilled_readOffset, refilled_readLength]
  exact bytesAt_fill _ _ _

theorem RepRead.cached_pass {w : World Regular} (h : RepRead w) {n : Nat}
    (hp : ¬ w.file.pushbackOffset < w.file.pushbackLength) (hc : w.file.readOffset < w.file.readLength) :
    Pass w { w with file := takeCached w.file (cachedChunk w.file n) }
      (bytesAt (w.file.storage w.file.readBuffer) w.file.readOffset (cachedChunk w.file n)) := by
  have hle : cachedChunk w.file n ≤ w.file.ahead := Nat.min_le_left _ _
  generalize cachedChunk w.file n = chunk at hle
  have hnil := pushback_nil hp
  have hpos : 0 < w.file.ahead := by unfold File.ahead; omega
  have hoff := h.ahead_le
  have hsize := h.ahead_size hpos
  have hahead : (takeCached w.file chunk).ahead = w.file.ahead - chunk := by
    show w.file.readLength - (w.file.readOffset + chunk) = w.file.readLength - w.file.readOffset - chunk
    omega
  have hbytes : bytesAt (w.file.storage w.file.readBuffer) w.file.readOffset chunk =
      bytesAt w.kernel.contents.bytes (w.kernel.offset - w.file.ahead) chunk := by
    rw [← bytesAt_take _ _ hle, ← bytesAt_take w.kernel.contents.bytes _ hle, ← h.cached]
    rfl
  have heof : w.file.state.eof = false := by
    cases he : w.file.state.eof with
    | false => rfl
    | true => exact absurd hc (h.eof he).1.2
  have hread := h.ready.takeCached hle
  have hrep : RepRead { w with file := takeCached w.file chunk } := {
    directed := hread.toDirected
    valid := h.valid
    notAppend := h.notAppend
    notWide := h.notWide
    capacity := h.capacity
    kernel := h.kernel
    ahead_le := by rw [hahead]; dsimp only; omega
    ahead_size := fun _ => hsize
    cached := by
      rw [takeCached_cached hle, h.cached, bytesAt_drop _ _ hle, hahead]
      congr 1
      dsimp only
      omega
    pushback_le := h.pushback_le
    eof := fun he => absurd (heof.symm.trans he) (by decide)
    ready := hread
    size_pos := h.size_pos }
  refine ⟨hrep, rfl, rfl, ?_, ?_⟩
  · rw [hbytes]
    exact h.front hnil (by omega)
  · rw [hrep.plain_eq, h.taken_plain hnil, bytesAt_length]
    congr 1
    rw [hahead]
    dsimp only
    omega

theorem RepRead.refill_pass {w w₁ : World Regular} (h : RepRead w) {n : Nat} (hd : Drained w.file)
    (he : w.file.state.eof = false) (hr : refill w = (true, w₁)) :
    Pass w { w₁ with file := takeCached w₁.file (cachedChunk w₁.file n) }
      (bytesAt (w₁.file.storage w₁.file.readBuffer) w₁.file.readOffset (cachedChunk w₁.file n)) := by
  obtain ⟨bytes, k, hread, hne, hle, rfl⟩ := refill_true hr
  rcases Regular.read_spec h.size_pos h.kernel with ⟨e, hfail⟩ | ⟨j, k', hj, -, hjs, hok, hkc, hko, hkf, hkb⟩
  · rw [hfail] at hread
    simp at hread
  rw [hok] at hread
  obtain ⟨rfl, rfl⟩ : bytesAt w.kernel.contents.bytes w.kernel.offset j = bytes ∧ k' = k := by simpa using hread
  have hj0 : 0 < j := by
    by_contra h0
    exact hne (by rw [Nat.eq_zero_of_not_pos h0]; rfl)
  have h0 : w.file.ahead = 0 := by
    unfold File.ahead
    have := hd.2
    omega
  have hnil := pushback_nil hd.1
  have hlen : (bytesAt w.kernel.contents.bytes w.kernel.offset j).length = j := bytesAt_length _ _ _
  have hchunk : cachedChunk (refilled w.file (bytesAt w.kernel.contents.bytes w.kernel.offset j)) n = min j n := by
    simp [cachedChunk]
  dsimp only
  rw [hchunk]
  have hcj : min j n ≤ j := Nat.min_le_left _ _
  generalize min j n = chunk at hcj
  have hdelivered : bytesAt ((refilled w.file (bytesAt w.kernel.contents.bytes w.kernel.offset j)).storage
      (refilled w.file (bytesAt w.kernel.contents.bytes w.kernel.offset j)).readBuffer)
      (refilled w.file (bytesAt w.kernel.contents.bytes w.kernel.offset j)).readOffset chunk =
      bytesAt w.kernel.contents.bytes (w.kernel.offset - w.file.ahead) chunk := by
    have hall := refilled_cached h.ready.read_ready (bytesAt w.kernel.contents.bytes w.kernel.offset j)
    rw [File.cached, refilled_readLength, hlen, refilled_readOffset, Nat.sub_zero] at hall
    rw [refilled_readOffset, ← bytesAt_take _ _ hcj, hall, bytesAt_take _ _ hcj, h0, Nat.sub_zero]
  have hahead : (takeCached (refilled w.file (bytesAt w.kernel.contents.bytes w.kernel.offset j)) chunk).ahead =
      j - chunk := by
    simp [File.ahead, takeCached]
  have hready : Reading (takeCached (refilled w.file (bytesAt w.kernel.contents.bytes w.kernel.offset j)) chunk) :=
    h.ready.refilled hle (by rw [hlen]; exact hcj)
  have hpush : (takeCached (refilled w.file (bytesAt w.kernel.contents.bytes w.kernel.offset j)) chunk).pushback = [] :=
    pushback_nil (by simpa [takeCached] using hd.1)
  have hrep : RepRead ⟨takeCached (refilled w.file (bytesAt w.kernel.contents.bytes w.kernel.offset j)) chunk, k',
      w.errno⟩ := {
    directed := hready.toDirected
    valid := by unfold validStream; simpa [takeCached, validStream] using h.valid
    notAppend := by simpa [takeCached] using h.notAppend
    notWide := by simpa [takeCached] using h.notWide
    capacity := by simpa [takeCached] using h.capacity
    kernel := hkb
    ahead_le := by rw [hahead]; dsimp only; omega
    ahead_size := fun _ => by rw [hkc, hko]; omega
    cached := by
      have hcj' : chunk ≤ (refilled w.file (bytesAt w.kernel.contents.bytes w.kernel.offset j)).ahead := by
        simpa [File.ahead] using hcj
      rw [takeCached_cached hcj', refilled_cached h.ready.read_ready, bytesAt_drop _ _ hcj, hahead, hkc, hko]
      congr 1
      omega
    pushback_le := by rw [hpush]; exact Nat.zero_le _
    eof := fun he' => by
      have : w.file.state.eof = true := by simpa [takeCached] using he'
      rw [he] at this
      contradiction
    ready := hready
    size_pos := by simpa [takeCached] using h.size_pos }
  refine ⟨hrep, by simp [takeCached], hkf, ?_, ?_⟩
  · rw [hdelivered]
    exact h.front hnil (by omega)
  · rw [hdelivered, h.taken_plain hnil, bytesAt_length, hrep.plain_eq, hpush, hkc, hko, hahead, h0]
    congr 1
    omega

/-! ## Where a read stops -/

/-- A stream has no more input at its end. -/
theorem RepRead.input_eof {w : World Regular} (h : RepRead w) (hd : Drained w.file)
    (hs : w.kernel.contents.size ≤ w.kernel.offset) : w.plain.input = [] := by
  have h0 : w.file.ahead = 0 := by
    unfold File.ahead
    have := hd.2
    omega
  rw [h.input, pushback_nil hd.1, h0, Nat.sub_zero, Nat.sub_eq_zero_of_le hs]
  rfl

/-- A refill without input met the end, or a raw read failed. -/
theorem RepRead.refill_stop {w w₁ : World Regular} (h : RepRead w) (hd : Drained w.file)
    (he : w.file.state.eof = false) (hr : refill w = (false, w₁)) :
    RepRead w₁ ∧ w₁.file.mode = w.file.mode ∧
      ((w₁.kernel.failures = w.kernel.failures ∧ w.plain.input = [] ∧ w₁.file.state.eof = true ∧
          w₁.plain = w.plain.taken [] false) ∨
        (w.kernel.failures < w₁.kernel.failures ∧ w₁.file.state.eof = false ∧ w₁.plain = w.plain.taken [] true)) := by
  obtain ⟨hreading, -⟩ := h.ready.stop hd hr
  have h0 : w.file.ahead = 0 := by
    unfold File.ahead
    have := hd.2
    omega
  have hw0 := h.writeLength
  rcases Regular.read_spec h.size_pos h.kernel with ⟨e, hfail⟩ | ⟨j, k', hj, hj0, -, hok, hkc, hko, hkf, hkb⟩
  · obtain rfl : w₁ = markError { w with kernel := w.kernel.failed, file.state.readNeedsPosition := true } e := by
      rcases refill_cases w with ⟨e', k, hk, hw⟩ | ⟨k, hk, -⟩ | ⟨bytes, k, m, hk, -⟩ | ⟨bytes, k, hk, -⟩
      · rw [hfail] at hk
        obtain ⟨rfl, rfl⟩ : e = e' ∧ w.kernel.failed = k := by simpa using hk
        rw [hr] at hw
        exact (Prod.mk.inj hw).2
      all_goals rw [hfail] at hk; simp at hk
    refine ⟨⟨⟨hreading.toDirected, h.valid, h.notAppend, h.notWide, h.capacity, h.kernel.failed, h.ahead_le,
      h.ahead_size, h.cached, h.pushback_le, fun he' => absurd (he.symm.trans he') (by decide)⟩, hreading, h.size_pos⟩,
      rfl, .inr ⟨Nat.lt_succ_self _, he, ?_⟩⟩
    rw [Plain.taken_nil]
    rfl
  · have hb : j = 0 ∧ w₁ = { w with kernel := k', file := atEof w.file } := by
      rcases refill_cases w with ⟨e', k, hk, -⟩ | ⟨k, hk, hw⟩ | ⟨bytes, k, m, hk, hlt, -⟩ | ⟨bytes, k, -, -, -, hw⟩
      · rw [hok] at hk; simp at hk
      · rw [hok] at hk
        obtain ⟨h1, rfl⟩ : bytesAt w.kernel.contents.bytes w.kernel.offset j = [] ∧ k' = k := by simpa using hk
        rw [hr] at hw
        exact ⟨by rw [← bytesAt_length w.kernel.contents.bytes w.kernel.offset j, h1]; rfl, (Prod.mk.inj hw).2⟩
      · rw [hok] at hk
        obtain ⟨rfl, -⟩ : bytesAt w.kernel.contents.bytes w.kernel.offset j = bytes ∧ k' = k := by simpa using hk
        rw [bytesAt_length] at hlt
        omega
      · rw [hr] at hw
        simp at hw
    obtain ⟨rfl, rfl⟩ := hb
    have hsize := hj0.1 rfl
    have hahead : (atEof w.file).ahead = 0 := rfl
    have hdr : Drained (atEof w.file) := ⟨hd.1, Nat.lt_irrefl 0⟩
    have hrep : RepRead { w with kernel := k', file := atEof w.file } := {
      directed := hreading.toDirected
      valid := h.valid
      notAppend := h.notAppend
      notWide := h.notWide
      capacity := h.capacity
      kernel := hkb
      ahead_le := Nat.zero_le _
      ahead_size := fun hlt => absurd hlt (by rw [hahead]; exact Nat.lt_irrefl 0)
      cached := hdr.nil.1
      pushback_le := h.pushback_le
      eof := fun _ => ⟨hdr, by rw [hkc, hko]; exact hsize, rfl⟩
      ready := hreading
      size_pos := h.size_pos }
    refine ⟨hrep, rfl, .inl ⟨hkf, h.input_eof hd hsize, rfl, ?_⟩⟩
    rw [hrep.plain_eq, h.taken_plain (pushback_nil hd.1), hkc, hko, hahead, h0]
    congr 1
    exact pushback_nil hd.1

/-! ## A whole read -/

/-- What a read of `n` bytes that delivered `l` did to the file. -/
structure ReadsOn (w w' : World Regular) (n : Nat) (l : List UInt8) : Prop where
  rep : RepRead w'
  mode : w'.file.mode = w.file.mode
  failures : w.kernel.failures ≤ w'.kernel.failures
  front : l <+: w.plain.input.take n
  plain : w'.plain = w.plain.taken l w'.file.state.readNeedsPosition
  /-- Without a failure it delivers all it can, and is reading unless it met the end. -/
  complete : w'.kernel.failures = w.kernel.failures → l = w.plain.input.take n ∧
    w'.file.state.readNeedsPosition = if n = 0 then w.file.state.readNeedsPosition else decide (l.length = n)
  ended : w'.kernel.failures = w.kernel.failures → l.length < n → w'.file.state.eof = true
  failed : w.kernel.failures < w'.kernel.failures →
    w'.file.state.readNeedsPosition = true ∧ w'.file.state.eof = false ∧ l.length < n

theorem ReadsOn.pass {w w₁ w' : World Regular} {n k : Nat} {c rest : List UInt8} (hp : Pass w w₁ c) (hk : c.length = k)
    (hkn : k ≤ n) (hn : 0 < n) (h : ReadsOn w₁ w' (n - k) rest) : ReadsOn w w' n (c ++ rest) := by
  have hsplit := Plain.input_split hp.front true
  rw [← hp.plain] at hsplit
  have htake : w.plain.input.take n = c ++ w₁.plain.input.take (n - k) := by
    rw [hsplit, List.take_append, hk, List.take_of_length_le (by omega)]
  refine ⟨h.rep, h.mode.trans hp.mode, hp.failures ▸ h.failures, ?_, ?_, fun hsame => ?_, fun hsame hlt => ?_,
    fun hlt => ?_⟩
  · rw [htake]
    exact (List.prefix_append_right_inj c).2 h.front
  · rw [h.plain, hp.plain, Plain.taken_taken]
  · obtain ⟨h1, h2⟩ := h.complete (hsame.trans hp.failures.symm)
    refine ⟨by rw [htake, ← h1], ?_⟩
    rw [h2, if_neg (show ¬ n = 0 by omega), List.length_append, hk]
    split
    · have hr : w₁.file.state.readNeedsPosition = true := congrArg Plain.reading hp.plain
      have hrest : rest = [] := by rw [h1, show n - k = 0 by omega]; rfl
      rw [hr, hrest]
      refine (decide_eq_true ?_).symm
      show k + 0 = n
      omega
    · refine decide_eq_decide.2 ?_
      omega
  · refine h.ended (hsame.trans hp.failures.symm) ?_
    rw [List.length_append, hk] at hlt
    omega
  · obtain ⟨h1, h2, h3⟩ := h.failed (hp.failures ▸ hlt)
    refine ⟨h1, h2, ?_⟩
    rw [List.length_append, hk]
    omega

theorem plain_taken_nil (w : World Regular) : w.plain = w.plain.taken [] w.file.state.readNeedsPosition := by
  rw [Plain.taken_nil]
  rfl

/-- A run of a read takes the front of the input. -/
theorem ReadRun.readsOn {w w' : World Regular} {n : Nat} {l : List UInt8} (hr : ReadRun w n l w') (h : RepRead w) :
    ReadsOn w w' n l := by
  induction hr with
  | done w => exact ⟨h, rfl, Nat.le_refl _, List.nil_prefix, plain_taken_nil _, fun _ => ⟨rfl, rfl⟩,
      fun _ hlt => absurd hlt (Nat.not_lt_zero _), fun hlt => absurd hlt (Nat.lt_irrefl _)⟩
  | @pushback w w' n rest hn hp _ ih =>
    have hpass := h.pushback_pass (n := n) hp
    exact .pass hpass (bytesAt_length _ _ _) (Nat.min_le_right _ _) hn (ih hpass.rep)
  | @cached w w' n rest hn hp hc _ ih =>
    have hpass := h.cached_pass (n := n) hp hc
    exact .pass hpass (bytesAt_length _ _ _) (Nat.min_le_right _ _) hn (ih hpass.rep)
  | @eof w n hn hd he =>
    obtain ⟨-, hsize, hpos⟩ := h.eof he
    have hnil := h.input_eof hd hsize
    refine ⟨h, rfl, Nat.le_refl _, List.nil_prefix, plain_taken_nil _, fun _ => ?_, fun _ _ => he,
      fun hlt => absurd hlt (Nat.lt_irrefl _)⟩
    rw [hnil, List.take_nil, hpos, if_neg (by omega)]
    refine ⟨rfl, (decide_eq_false ?_).symm⟩
    simp
    omega
  | @stop w w' n hn hd he hr =>
    obtain ⟨hrep, hmode, ⟨hf, hnil, heof, hp⟩ | ⟨hf, heof, hp⟩⟩ := h.refill_stop hd he hr
    · have hr : w'.file.state.readNeedsPosition = false := congrArg Plain.reading hp
      refine ⟨hrep, hmode, hf.ge, List.nil_prefix, by rw [hr]; exact hp, fun _ => ?_, fun _ _ => heof,
        fun hlt => ?_⟩
      · rw [hnil, List.take_nil, hr, if_neg (by omega)]
        refine ⟨rfl, (decide_eq_false ?_).symm⟩
        simp
        omega
      · omega
    · have hr : w'.file.state.readNeedsPosition = true := congrArg Plain.reading hp
      exact ⟨hrep, hmode, hf.le, List.nil_prefix, by rw [hr]; exact hp, fun hsame => absurd hsame hf.ne',
        fun hsame => absurd hsame hf.ne', fun _ => ⟨hr, heof, hn⟩⟩
  | @refill w w₁ w' n rest hn hd he hr _ ih =>
    have hpass := h.refill_pass (n := n) hd he hr
    exact .pass hpass (bytesAt_length _ _ _) (Nat.min_le_right _ _) hn (ih hpass.rep)

end MiniLibc.Stdio
