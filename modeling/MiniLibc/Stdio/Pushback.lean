import MiniLibc.Stdio.Reads
import MiniLibc.Stdio.Regular
import MiniLibc.Stdio.Wide
import MiniLibc.Wchar.Restart
/-!
# Pushed-back input

A buffered read delivers the pushback first and then what it would have
delivered without it. An unbuffered read asks the kernel at once, so a byte
pushed back on an unbuffered stream is accepted and never read.
-/
open MiniLibc.Memory MiniLibc.Wchar

namespace MiniLibc.Stdio

variable {κ : Type} [Kernel κ]

/-! ## Reads of the same input -/

/-- Two files with the same cached input and nothing pushed back. -/
structure SameInput (f g : File) : Prop where
  none_left : ¬ f.pushbackOffset < f.pushbackLength
  none_right : ¬ g.pushbackOffset < g.pushbackLength
  readOffset : g.readOffset = f.readOffset
  readLength : g.readLength = f.readLength
  bufferSize : g.bufferSize = f.bufferSize
  readBuffer : g.readBuffer = f.readBuffer
  ready : f.readBuffer ≠ .null
  bytes : g.storage g.readBuffer = f.storage f.readBuffer
  eof : g.state.eof = f.state.eof

theorem SameInput.drained {f g : File} (h : SameInput f g) : Drained g ↔ Drained f := by
  unfold Drained
  rw [h.readOffset, h.readLength]
  exact ⟨fun hd => ⟨h.none_left, hd.2⟩, fun hd => ⟨h.none_right, hd.2⟩⟩

theorem SameInput.takeCached {f g : File} (h : SameInput f g) (n : Nat) :
    SameInput (takeCached f n) (takeCached g n) :=
  ⟨h.1, h.2, congrArg (· + n) h.3, h.4, h.5, h.6, h.7,
    (by cases hp : g.readBuffer <;> simpa [Stdio.takeCached, File.storage, hp] using h.8), h.9⟩

theorem SameInput.refilled {f g : File} (h : SameInput f g) (bytes : List UInt8) :
    SameInput (refilled f bytes) (refilled g bytes) where
  none_left := by simpa using h.none_left
  none_right := by simpa using h.none_right
  readOffset := rfl
  readLength := rfl
  bufferSize := by simpa using h.bufferSize
  readBuffer := by simpa using h.readBuffer
  ready := by simpa using h.ready
  bytes := by
    rw [refilled_readBuffer, refilled_readBuffer, refilled_storage h.ready, refilled_storage (h.readBuffer ▸ h.ready),
      h.bytes]
  eof := by simpa using h.eof

/-- A raw read goes the same way. -/
theorem SameInput.refill {w v : World κ} (h : SameInput w.file v.file) (hk : v.kernel = w.kernel) :
    (refill v).1 = (refill w).1 ∧ (refill v).2.kernel = (refill w).2.kernel ∧
      ((refill w).1 = true → SameInput (refill w).2.file (refill v).2.file) := by
  rcases refill_cases w with ⟨e, k, hr, hw⟩ | ⟨k, hr, hw⟩ | ⟨bytes, k, m, hr, hlt, hw⟩ | ⟨bytes, k, hr, hne, hle, hw⟩ <;>
  rcases refill_cases v with ⟨e', k', hr', hv⟩ | ⟨k', hr', hv⟩ | ⟨bytes', k', m', hr', hlt', hv⟩ |
      ⟨bytes', k', hr', hne', hle', hv⟩ <;>
    rw [hk, h.bufferSize, hr] at hr' <;> rw [hw, hv] <;> simp at hr'
  · exact ⟨rfl, hr'.2.symm, fun h => absurd h (by simp)⟩
  · exact ⟨rfl, hr'.symm, fun h => absurd h (by simp)⟩
  · simp [hr'.1] at hlt'
  · exact absurd hr'.1 hne'
  · simp [hr'.1] at hlt
  · exact ⟨rfl, hr'.2.symm, fun h => absurd h (by simp)⟩
  · rw [h.bufferSize, ← hr'.1] at hle'; omega
  · exact absurd hr'.1 hne
  · rw [h.bufferSize, ← hr'.1] at hlt'; omega
  · obtain ⟨rfl, rfl⟩ := hr'
    exact ⟨rfl, rfl, fun _ => h.refilled bytes⟩

/-- Files with the same input deliver the same bytes. -/
theorem ReadRun.same {w w' v : World κ} {n : Nat} {l : List UInt8} (h : ReadRun w n l w')
    (hs : SameInput w.file v.file) (hk : v.kernel = w.kernel) :
    ∃ v', ReadRun v n l v' ∧ v'.kernel = w'.kernel := by
  induction h generalizing v with
  | done w => exact ⟨v, .done v, hk⟩
  | pushback _ hp => exact absurd hp hs.none_left
  | @cached w w' n rest hn _ hc _ ih =>
    obtain ⟨v', hr, hk'⟩ := ih (v := { v with file := takeCached v.file (cachedChunk w.file n) })
      (hs.takeCached _) hk
    have hchunk : cachedChunk v.file n = cachedChunk w.file n := by
      unfold cachedChunk
      rw [hs.readOffset, hs.readLength]
    refine ⟨v', ?_, hk'⟩
    rw [← hchunk, ← hs.readOffset, ← hs.bytes]
    rw [← hchunk] at hr
    exact .cached hn hs.none_right (by rwa [hs.readOffset, hs.readLength]) hr
  | eof hn hd he => exact ⟨v, .eof hn (hs.drained.2 hd) (hs.eof.trans he), hk⟩
  | stop hn hd he hr =>
    obtain ⟨h1, h2, -⟩ := hs.refill hk
    rw [hr] at h1 h2
    exact ⟨(Stdio.refill v).2, .stop hn (hs.drained.2 hd) (hs.eof.trans he) (Prod.ext h1 rfl), h2⟩
  | @refill w w₁ w' n rest hn hd he hr _ ih =>
    obtain ⟨h1, h2, h3⟩ := hs.refill hk
    rw [hr] at h1 h2 h3
    replace h3 := h3 rfl
    obtain ⟨⟨ok, v₁⟩, hv⟩ : ∃ r, Stdio.refill v = r := ⟨_, rfl⟩
    rw [hv] at h1 h2 h3
    dsimp only at h1 h2 h3
    subst h1
    obtain ⟨v', hr', hk'⟩ := ih (v := { v₁ with file := takeCached v₁.file (cachedChunk w₁.file n) })
      (h3.takeCached _) h2
    have hchunk : cachedChunk v₁.file n = cachedChunk w₁.file n := by
      unfold cachedChunk
      rw [h3.readOffset, h3.readLength]
    refine ⟨v', ?_, hk'⟩
    rw [← hchunk, ← h3.readOffset, ← h3.bytes]
    rw [← hchunk] at hr'
    exact .refill hn (hs.drained.2 hd) (hs.eof.trans he) hv hr'

/-! ## Reading on -/

/-- What a stream would deliver if it had not met the end of its input. -/
def unended (w : World κ) : World κ := { w with file.state.eof := false }

/-- Reading `w'` goes on with the input that was pending in `w`: every read
delivers the same bytes and leaves the kernel the same. -/
def Continues (w w' : World κ) : Prop :=
  ∀ n, (stdioRead w' n).1 = (stdioRead (unended w) n).1 ∧
    (stdioRead w' n).2.kernel = (stdioRead (unended w) n).2.kernel

/-- A file that may read and is not unbuffered. -/
structure BufferedInput (f : File) : Prop where
  readable : f.mode.readable = true
  noSync : f.state.writeNeedsSync = false
  buffered : f.mode.unbuffered = false

theorem continues_of_same {w w' : World κ} (h : BufferedInput w.file) (h' : BufferedInput w'.file)
    (hk : w'.kernel = w.kernel) (hs : SameInput (ensureStorage (unended w).file) (ensureStorage w'.file)) :
    Continues w w' := by
  intro n
  rcases Nat.eq_zero_or_pos n with rfl | hn
  · exact ⟨rfl, hk⟩
  rcases stdioRead_run (w := unended w) (n := n) h.readable h.noSync h.buffered with hr | ⟨h0, -⟩
  · obtain ⟨v', hv, hk'⟩ := hr.same (v := { w' with file := ensureStorage w'.file }) hs hk
    rw [hv.stdioRead_eq h'.readable h'.noSync h'.buffered hn]
    exact ⟨rfl, hk'⟩
  · omega

/-! ## Reading the pushback -/

/-- The file with `bytes` pushed back. -/
def pushed (f : File) (bytes : List UInt8) : File :=
  { f with
    pushbackBytes := fill f.pushbackBytes 0 bytes
    pushbackOffset := 0
    pushbackLength := bytes.length
    state := { f.state with eof := false, readNeedsPosition := true } }

/-- The file when its pushback has been read. -/
def popped (f : File) : File := takePushback (ensureStorage f) (f.pushbackLength - f.pushbackOffset)

omit [Kernel κ] in
/-- A pushback that is taken was allowed, and changes only the slots and flags. -/
theorem stdioPushback_true {w u : World κ} {bytes : List UInt8} (h : stdioPushback w bytes = (true, u)) :
    w.file.mode.readable = true ∧ w.file.state.writeNeedsSync = false ∧
      ¬ w.file.pushbackOffset < w.file.pushbackLength ∧ 0 < bytes.length ∧
      u = { w with file := pushed w.file bytes } := by
  unfold stdioPushback at h
  split at h
  · simp at h
  · rename_i hg
    simp only [not_or, Bool.not_eq_true, Bool.not_eq_false'] at hg
    exact ⟨hg.1, hg.2.2.2.1, hg.2.2.2.2, Nat.pos_of_ne_zero hg.2.1, ((Prod.mk.inj h).2).symm⟩

theorem pushed_pushback (f : File) (bytes : List UInt8) : (pushed f bytes).pushback = bytes :=
  bytesAt_fill f.pushbackBytes 0 bytes

/-- The first pass of a read takes from the pushback. -/
theorem stdioRead_pushback {w w' : World κ} {n : Nat} {rest : List UInt8} (h : BufferedInput w.file)
    (hp : w.file.pushbackOffset < w.file.pushbackLength) (hn : 0 < n)
    (hr : ReadRun { w with file := takePushback (ensureStorage w.file) (pushbackChunk w.file n) }
      (n - pushbackChunk w.file n) rest w') :
    stdioRead w n = (bytesAt w.file.pushbackBytes w.file.pushbackOffset (pushbackChunk w.file n) ++ rest, w') :=
  ReadRun.stdioRead_eq h.readable h.noSync h.buffered hn (.pushback hn hp hr)

/-- One byte of the pushback. -/
theorem stdioRead_pushback_one {w : World κ} (h : BufferedInput w.file)
    (hp : w.file.pushbackOffset < w.file.pushbackLength) :
    stdioRead w 1 = ([w.file.pushbackBytes w.file.pushbackOffset],
      { w with file := takePushback (ensureStorage w.file) 1 }) := by
  have hchunk : pushbackChunk w.file 1 = 1 := by unfold pushbackChunk; omega
  have := @stdioRead_pushback κ _ w _ 1 [] h hp (by decide) (by rw [hchunk]; exact .done _)
  rwa [hchunk] at this

theorem ensureStorage_idem (f : File) : ensureStorage (ensureStorage f) = ensureStorage f := by
  have h1 := ensureStorage_writeBuffer f
  have h2 := ensureStorage_readBuffer f
  have h3 := ensureStorage_bufferSize f
  generalize ensureStorage f = g at h1 h2 h3
  simp [ensureStorage, h1, h2, Nat.ne_of_gt h3]

theorem takePushback_takePushback {f : File} {i j : Nat} (h : f.pushbackOffset + i < f.pushbackLength) :
    takePushback (takePushback f i) j = takePushback f (i + j) := by
  simp [takePushback, Nat.ne_of_lt h, Nat.add_assoc]

theorem takePushback_pushback {f : File} {i : Nat} (h : f.pushbackOffset + i < f.pushbackLength) :
    (takePushback f i).pushback = f.pushback.drop i := by
  unfold File.pushback takePushback
  dsimp only
  rw [if_neg (Nat.ne_of_lt h), if_neg (Nat.ne_of_lt h), bytesAt_drop _ _ (by omega), Nat.sub_sub]

theorem popped_take_one {f : File} (h : f.pushbackOffset + 1 < f.pushbackLength) :
    popped (takePushback (ensureStorage f) 1) = popped f := by
  have hlen : (takePushback (ensureStorage f) 1).pushbackLength - (takePushback (ensureStorage f) 1).pushbackOffset =
      f.pushbackLength - (f.pushbackOffset + 1) := by
    simp [takePushback, Nat.ne_of_lt h]
  unfold popped
  rw [hlen, show ensureStorage (takePushback (ensureStorage f) 1) =
      takePushback (ensureStorage (ensureStorage f)) 1 from rfl, ensureStorage_idem,
    @takePushback_takePushback (ensureStorage f) 1 _ h]
  congr 1
  omega

/-- A wide character is read from a pushback that encodes it. -/
theorem wideReadLoop_pushback {utf8 : Bool} {state : MbState} {bytes : List UInt8} {v : Int}
    (hf : Feeds utf8 state bytes v) {w : World κ} (h : BufferedInput w.file) (hp : w.file.pushback = bytes) {fuel : Nat}
    (hfuel : bytes.length ≤ fuel) :
    wideReadLoop utf8 fuel state w = (some (toWint v), { w with file := popped w.file }) := by
  have hlen := pushback_length w.file
  rw [hp] at hlen
  induction hf generalizing w fuel with
  | @last state final b v n hd =>
    have h1 : w.file.pushbackLength - w.file.pushbackOffset = 1 := hlen.symm
    obtain ⟨fuel, rfl⟩ : ∃ k, fuel = k + 1 := ⟨fuel - 1, by simp at hfuel; omega⟩
    have hb : w.file.pushbackBytes w.file.pushbackOffset = b := by
      unfold File.pushback at hp
      rw [h1] at hp
      exact (List.cons.inj hp).1
    unfold wideReadLoop
    rw [stdioRead_pushback_one h (by omega), hb]
    dsimp only
    rw [hd, popped, h1]
    rfl
  | @more state next b rest v pwc hd hf ih =>
    obtain ⟨fuel, rfl⟩ : ∃ k, fuel = k + 1 := ⟨fuel - 1, by simp at hfuel; omega⟩
    have hpos : 0 < rest.length := by cases hf <;> simp
    rw [List.length_cons] at hlen hfuel
    have hb : w.file.pushbackBytes w.file.pushbackOffset = b := by
      unfold File.pushback at hp
      rw [← hlen] at hp
      exact (List.cons.inj hp).1
    have hrest : (takePushback (ensureStorage w.file) 1).pushback = rest := by
      rw [@takePushback_pushback (ensureStorage w.file) 1 (show w.file.pushbackOffset + 1 < w.file.pushbackLength by omega),
        ensureStorage_pushback, hp]
      rfl
    have := @ih { w with file := takePushback (ensureStorage w.file) 1 } ⟨h.1, h.2, h.3⟩ hrest fuel (by omega)
      ((congrArg List.length hrest).symm.trans (pushback_length _))
    unfold wideReadLoop
    rw [stdioRead_pushback_one h (by omega), hb]
    dsimp only
    rw [hd]
    dsimp only
    rw [this, popped_take_one (by omega)]

/-! ## After the pushback -/

theorem pushed_buffered {f : File} {bytes : List UInt8} (hm : f.mode.readable = true)
    (hs : f.state.writeNeedsSync = false) (hu : f.mode.unbuffered = false) : BufferedInput (pushed f bytes) :=
  ⟨hm, hs, hu⟩

theorem popped_pushed (f : File) (bytes : List UInt8) :
    popped (pushed f bytes) = { ensureStorage (pushed f bytes) with
      pushbackOffset := 0, pushbackLength := 0, state.readNeedsPosition := true } := by
  simp [popped, takePushback, pushed]

theorem popped_ensure (f : File) : ensureStorage (popped f) = popped f :=
  congrArg (takePushback · (f.pushbackLength - f.pushbackOffset)) (ensureStorage_idem f)

/-- What is left is the input from before the pushback. -/
theorem popped_sameInput {f : File} (hp : ¬ f.pushbackOffset < f.pushbackLength) (bytes : List UInt8) {s s' : State}
    (he : s.eof = false) :
    SameInput (ensureStorage { f with state := s }) (popped (pushed { f with state := s' } bytes)) where
  none_left := hp
  none_right := by
    rw [popped_pushed]
    exact Nat.lt_irrefl 0
  readOffset := rfl
  readLength := rfl
  bufferSize := rfl
  readBuffer := rfl
  ready := ensureStorage_readBuffer _
  bytes := by
    rw [popped_pushed]
    generalize hq : (ensureStorage { f with state := s }).readBuffer = q
    show File.storage _ (ensureStorage { f with state := s }).readBuffer = _
    rw [hq]
    cases q <;> rfl
  eof := he.symm

/-- A buffered stream delivers what was pushed back and goes on from there. -/
theorem read_pushed {w u : World κ} {bytes : List UInt8} (h : stdioPushback w bytes = (true, u))
    (hu : w.file.mode.unbuffered = false) (n : Nat) :
    (stdioRead u (bytes.length + n)).1 = bytes ++ (stdioRead (unended w) n).1 ∧
      (stdioRead u (bytes.length + n)).2.kernel = (stdioRead (unended w) n).2.kernel := by
  obtain ⟨hm, hs, hp, hpos, rfl⟩ := stdioPushback_true h
  have hin : BufferedInput (pushed w.file bytes) := pushed_buffered hm hs hu
  have hchunk : pushbackChunk (pushed w.file bytes) (bytes.length + n) = bytes.length := by
    simp only [pushbackChunk, pushed]
    omega
  have hrun : ∃ v', ReadRun { w with file := popped (pushed w.file bytes) } n (stdioRead (unended w) n).1 v' ∧
      v'.kernel = (stdioRead (unended w) n).2.kernel := by
    rcases stdioRead_run (w := unended w) (n := n) hm hs hu with hr | ⟨rfl, hr⟩
    · exact hr.same (v := { w with file := popped (pushed w.file bytes) }) (popped_sameInput hp bytes rfl) rfl
    · rw [hr]
      exact ⟨_, .done _, rfl⟩
  obtain ⟨v', hr, hk⟩ := hrun
  have := @stdioRead_pushback κ _ { w with file := pushed w.file bytes } v' (bytes.length + n) _ hin hpos
    (by omega) (by
      rw [show pushbackChunk _ (bytes.length + n) = bytes.length from hchunk, Nat.add_sub_cancel_left]
      exact hr)
  rw [this, show pushbackChunk _ (bytes.length + n) = bytes.length from hchunk]
  exact ⟨congrArg (· ++ _) (bytesAt_fill w.file.pushbackBytes 0 bytes), hk⟩

/-! ## Orientation -/

/-- A stream that byte operations accept. -/
def ByteStream (f : File) : Prop :=
  validStream f = true ∧ f.state.byteOriented = true ∧ f.state.wideOriented = false

/-- A stream that wide operations accept. -/
def WideStream (f : File) : Prop :=
  validStream f = true ∧ f.state.wideOriented = true ∧ f.state.byteOriented = false

omit [Kernel κ] in
theorem requireByte_ready {w : World κ} (h : ByteStream w.file) : requireByte w = (true, w) := by
  simp [requireByte, h.1, h.2.1, h.2.2]

omit [Kernel κ] in
theorem requireWide_ready {w : World κ} (h : WideStream w.file) (localeUtf8 : Bool) :
    requireWide w localeUtf8 = (true, w) := by
  simp [requireWide, h.1, h.2.1, h.2.2]

omit [Kernel κ] in
theorem requireByte_true {w w' : World κ} (h : requireByte w = (true, w')) :
    ByteStream w'.file ∧ ∃ s, s.writeNeedsSync = w.file.state.writeNeedsSync ∧
      w' = ⟨{ w.file with state := s }, w.kernel, w.errno⟩ := by
  unfold requireByte at h
  split at h
  · simp at h
  rename_i hv
  rw [Bool.not_eq_true, Bool.not_eq_false'] at hv
  split at h
  · rename_i ho
    obtain rfl := (Prod.mk.inj h).2
    exact ⟨⟨hv, rfl, by simpa using ho.2⟩, { w.file.state with byteOriented := true }, rfl, rfl⟩
  split at h
  · rename_i ho
    obtain rfl := (Prod.mk.inj h).2
    exact ⟨⟨hv, ho.1, by simpa using ho.2⟩, w.file.state, rfl, rfl⟩
  · simp at h

omit [Kernel κ] in
theorem requireWide_true {w w' : World κ} {localeUtf8 : Bool} (h : requireWide w localeUtf8 = (true, w')) :
    WideStream w'.file ∧ ∃ s, s.writeNeedsSync = w.file.state.writeNeedsSync ∧
      w' = ⟨{ w.file with state := s }, w.kernel, w.errno⟩ := by
  unfold requireWide at h
  split at h
  · simp at h
  rename_i hv
  rw [Bool.not_eq_true, Bool.not_eq_false'] at hv
  split at h
  · rename_i ho
    obtain rfl := (Prod.mk.inj h).2
    exact ⟨⟨hv, rfl, by simpa using ho.1⟩,
      { w.file.state with wideOriented := true, wideUtf8 := localeUtf8 }, rfl, rfl⟩
  split at h
  · rename_i ho
    obtain rfl := (Prod.mk.inj h).2
    exact ⟨⟨hv, ho.1, by simpa using ho.2⟩, w.file.state, rfl, rfl⟩
  · simp at h

omit [Kernel κ] in
/-- A successful `ungetc` is a pushback on a stream that byte operations accept. -/
theorem ungetc_some {w u : World κ} {c : Int} {byte : UInt8} (h : ungetc c w = (some byte, u)) :
    byte = unsignedChar c ∧ ∃ w', requireByte w = (true, w') ∧ stdioPushback w' [byte] = (true, u) := by
  unfold ungetc byteOp at h
  obtain ⟨⟨ok, w'⟩, hr⟩ : ∃ r, requireByte w = r := ⟨_, rfl⟩
  rw [hr] at h
  cases ok with
  | false => simp at h
  | true =>
    dsimp only at h
    unfold ungetcCore at h
    split at h
    · simp at h
    dsimp only at h
    obtain ⟨⟨ok, u'⟩, hp⟩ : ∃ r, stdioPushback w' [unsignedChar c] = r := ⟨_, rfl⟩
    rw [hp] at h
    cases ok with
    | false => simp at h
    | true =>
      obtain ⟨h1, rfl⟩ := Prod.mk.inj h
      obtain rfl := Option.some.inj h1
      exact ⟨rfl, w', hr, hp⟩

omit [Kernel κ] in
/-- A successful `ungetwc` is a pushback of an encoding. -/
theorem ungetwc_some {w u : World κ} {wc wc' : Wint} {localeUtf8 : Bool}
    (h : ungetwc wc localeUtf8 w = (some wc', u)) :
    wc' = wc ∧ ∃ w' bytes, requireWide w localeUtf8 = (true, w') ∧
      encodeValue (toWchar wc) w'.file.state.wideUtf8 = some bytes ∧ stdioPushback w' bytes = (true, u) := by
  unfold ungetwc at h
  split at h
  · simp at h
  obtain ⟨⟨ok, w'⟩, hr⟩ : ∃ r, requireWide w localeUtf8 = r := ⟨_, rfl⟩
  rw [hr] at h
  cases ok with
  | false => simp at h
  | true =>
    dsimp only at h
    unfold wideUngetCharacter at h
    split at h
    · simp at h
    unfold wcrtombMode at h
    obtain ⟨e, he⟩ : ∃ e, encodeValue (toWchar wc) w'.file.state.wideUtf8 = e := ⟨_, rfl⟩
    rw [he] at h
    cases e with
    | none => simp at h
    | some bytes =>
      dsimp only at h
      obtain ⟨⟨ok, u'⟩, hp⟩ : ∃ r, stdioPushback w' bytes = r := ⟨_, rfl⟩
      rw [hp] at h
      cases ok with
      | false => simp at h
      | true =>
        obtain ⟨h1, rfl⟩ := Prod.mk.inj h
        obtain rfl := Option.some.inj h1
        exact ⟨rfl, w', bytes, hr, he, hp⟩

/-! ## The law of pushback -/

/-- After `ungetc(c)` succeeds on the file the next byte input delivers `c`
first, whichever operation it is, and then what was pending before. -/
def ByteLaw (f : File) (c : Int) : Prop :=
  ∀ (κ : Type) [Kernel κ] (k : κ) (errno : Nat) (byte : UInt8) (u : World κ),
    ungetc c ⟨f, k, errno⟩ = (some byte, u) →
      byte = unsignedChar c ∧
      (fgetc u).1 = some byte ∧ Continues ⟨f, k, errno⟩ (fgetc u).2 ∧
      (∀ n, 2 ≤ n → (fgets n u).1.1.head? = some byte) ∧
      (∀ size nmemb, 0 < size → 0 < nmemb → nmemb ≤ sizeMax / size →
        (fread size nmemb u).1.1.head? = some byte) ∧
      ∀ n, (stdioRead u (1 + n)).1 = byte :: (stdioRead (unended ⟨f, k, errno⟩) n).1

/-- After `ungetwc(wc)` succeeds on the file the next `fgetwc` delivers `wc`,
and reading goes on with what was pending before. -/
def WideLaw (f : File) (wc : Wint) : Prop :=
  ∀ (κ : Type) [Kernel κ] (k : κ) (errno : Nat) (localeUtf8 localeUtf8' : Bool) (wc' : Wint) (u : World κ),
    ungetwc wc localeUtf8 ⟨f, k, errno⟩ = (some wc', u) →
      wc' = wc ∧ (fgetwc localeUtf8' u).1 = some wc ∧ Continues ⟨f, k, errno⟩ (fgetwc localeUtf8' u).2

theorem fgetc_of_read {w w' : World κ} {byte : UInt8} (h : ByteStream w.file) (hr : stdioRead w 1 = ([byte], w')) :
    fgetc w = (some byte, w') := by
  rw [fgetc, byteOp, requireByte_ready h]
  dsimp only
  rw [fgetcCore, hr]

/-- The first byte of a line is the first byte read. -/
theorem fgets_head {w w' : World κ} {byte : UInt8} (h : ByteStream w.file) (hm : w.file.mode.readable = true)
    (hs : w.file.state.writeNeedsSync = false) (hr : stdioRead w 1 = ([byte], w')) {n : Int} (hn : 2 ≤ n) :
    (fgets n w).1.1.head? = some byte := by
  have hcore : fgetcCore w = (some byte, w') := by rw [fgetcCore, hr]
  obtain ⟨room, hroom⟩ : ∃ room, (n - 1).toNat = room + 1 := ⟨(n - 1).toNat - 1, by omega⟩
  obtain ⟨rest, ok, v, hl⟩ : ∃ rest ok v, fgetsLoop (room + 1) w = (byte :: rest, ok, v) := by
    unfold fgetsLoop
    rw [hcore]
    dsimp only
    split
    · exact ⟨_, _, _, rfl⟩
    · exact ⟨_, _, _, rfl⟩
  rw [fgets, byteOp, requireByte_ready h]
  dsimp only
  rw [fgetsCore, if_neg (by simp [hm, hs]; omega), if_neg (by omega), hroom, hl]
  dsimp only
  split
  · rfl
  split
  · rename_i hnil
    simp at hnil
  · rfl

section
variable {f : File} {s : State} (hm : f.mode.readable = true) (hu : f.mode.unbuffered = false)
  (hf : f.state.writeNeedsSync = false) (hs : s.writeNeedsSync = false)
include hm hu hf hs

/-- The orientation of a stream does not matter to its input. -/
theorem continues_oriented (k : κ) (errno : Nat) (hp : ¬ f.pushbackOffset < f.pushbackLength) :
    Continues ⟨f, k, errno⟩ (unended ⟨{ f with state := s }, k, errno⟩) :=
  continues_of_same ⟨hm, hf, hu⟩ ⟨hm, hs, hu⟩ rfl
    ⟨hp, hp, rfl, rfl, rfl, rfl, ensureStorage_readBuffer _, rfl, rfl⟩

/-- Nor does a pushback that has been read. -/
theorem continues_popped (k : κ) (errno : Nat) (hp : ¬ f.pushbackOffset < f.pushbackLength) (bytes : List UInt8) :
    Continues ⟨f, k, errno⟩ ⟨popped (pushed { f with state := s } bytes), k, errno⟩ :=
  continues_of_same ⟨hm, hf, hu⟩ ⟨hm, hs, hu⟩ rfl (by
    rw [popped_ensure]
    exact popped_sameInput hp bytes rfl)

end

theorem byteLaw_of_buffered {f : File} (hu : f.mode.unbuffered = false) (c : Int) : ByteLaw f c := by
  intro κ _ k errno byte u h
  obtain ⟨hb, w, hr, hp⟩ := ungetc_some h
  obtain ⟨hbs, s, hsync, rfl⟩ := requireByte_true hr
  obtain ⟨hm, hs, hnone, -, rfl⟩ := stdioPushback_true hp
  replace hm : f.mode.readable = true := hm
  replace hs : s.writeNeedsSync = false := hs
  replace hnone : ¬ f.pushbackOffset < f.pushbackLength := hnone
  replace hsync : f.state.writeNeedsSync = false := hsync.symm.trans hs
  have hin : BufferedInput (pushed { f with state := s } [byte]) := pushed_buffered hm hs hu
  have hone : stdioRead (⟨pushed { f with state := s } [byte], k, errno⟩ : World κ) 1 =
      ([byte], ⟨popped (pushed { f with state := s } [byte]), k, errno⟩) :=
    stdioRead_pushback_one hin Nat.zero_lt_one
  have hread : ∀ n, (stdioRead (⟨pushed { f with state := s } [byte], k, errno⟩ : World κ) (1 + n)).1 =
      byte :: (stdioRead (unended (⟨f, k, errno⟩ : World κ)) n).1 := fun n =>
    (read_pushed hp hu n).1.trans (congrArg (byte :: ·) (continues_oriented hm hu hsync hs k errno hnone n).1)
  have hstream : ByteStream (pushed { f with state := s } [byte]) := hbs
  have hget := fgetc_of_read (w := ⟨pushed { f with state := s } [byte], k, errno⟩) hstream hone
  refine ⟨hb, congrArg Prod.fst hget, ?_, fun n hn => fgets_head hstream hin.readable hin.noSync hone hn, ?_, hread⟩
  · rw [hget]
    exact continues_popped hm hu hsync hs k errno hnone [byte]
  · intro size nmemb h1 h2 h3
    obtain ⟨n, hn⟩ : ∃ n, size * nmemb = 1 + n := ⟨size * nmemb - 1, by have := Nat.mul_pos h1 h2; omega⟩
    rw [fread, byteOp, requireByte_ready hstream]
    dsimp only
    rw [freadCore, if_neg (by omega), if_neg (by omega), hn]
    exact congrArg List.head? (hread n)

theorem wideLaw_of_buffered {f : File} (hu : f.mode.unbuffered = false) (wc : Wint) : WideLaw f wc := by
  intro κ _ k errno localeUtf8 localeUtf8' wc' u h
  obtain ⟨rfl, w, bytes, hr, he, hp⟩ := ungetwc_some h
  obtain ⟨hws, s, hsync, rfl⟩ := requireWide_true hr
  obtain ⟨hm, hs, hnone, -, rfl⟩ := stdioPushback_true hp
  replace hm : f.mode.readable = true := hm
  replace hs : s.writeNeedsSync = false := hs
  replace hnone : ¬ f.pushbackOffset < f.pushbackLength := hnone
  replace hsync : f.state.writeNeedsSync = false := hsync.symm.trans hs
  obtain ⟨hfeeds, hlen⟩ := feeds_encode he
  have hstream : WideStream (pushed { f with state := s } bytes) := hws
  have hget : fgetwc localeUtf8' (⟨pushed { f with state := s } bytes, k, errno⟩ : World κ) =
      (some wc', ⟨popped (pushed { f with state := s } bytes), k, errno⟩) := by
    rw [fgetwc, wideRequireReadable, requireWide_ready hstream]
    dsimp only
    have hok : ¬ ((!(pushed { f with state := s } bytes).mode.readable) = true ∨
        (pushed { f with state := s } bytes).state.writeNeedsSync = true) := by
      simpa [pushed] using ⟨hm, hs⟩
    rw [if_neg hok]
    dsimp only
    have := @wideReadLoop_pushback κ _ _ _ _ _ hfeeds ⟨pushed { f with state := s } bytes, k, errno⟩
      (pushed_buffered hm hs hu) (pushed_pushback _ bytes) 4 hlen
    rw [toWint_toWchar] at this
    exact this
  refine ⟨rfl, congrArg Prod.fst hget, ?_⟩
  rw [hget]
  exact continues_popped hm hu hsync hs k errno hnone bytes

/-! ## Unbuffered streams -/

/-- A file on which every raw call fails. -/
def broken : Regular := { contents := .empty, offset := 0, script := fun _ => .fail eio }

/-- An unbuffered read goes to the kernel, whatever is pushed back. -/
theorem stdioRead_broken {f : File} (hm : f.mode.readable = true) (hs : f.state.writeNeedsSync = false)
    (hu : f.mode.unbuffered = true) (errno : Nat) : (stdioRead (⟨f, broken, errno⟩ : World Regular) 1).1 = [] := by
  rw [stdioRead, if_neg (by decide), if_neg (by simp [hm]), if_neg (by simp [hs]), if_pos hu]
  rfl

theorem not_byteLaw_of_unbuffered {f : File} (hu : f.mode.unbuffered = true) {c : Int} {byte : UInt8}
    (h : (ungetc c ⟨f, broken, 0⟩).1 = some byte) : ¬ ByteLaw f c := by
  intro hlaw
  obtain ⟨⟨_, u⟩, hu'⟩ : ∃ r, ungetc c (⟨f, broken, 0⟩ : World Regular) = r := ⟨_, rfl⟩
  rw [hu'] at h
  dsimp only at h
  subst h
  obtain ⟨-, hget, -⟩ := hlaw Regular broken 0 byte u hu'
  obtain ⟨-, w, hr, hp⟩ := ungetc_some hu'
  obtain ⟨hbs, s, -, rfl⟩ := requireByte_true hr
  obtain ⟨hm, hs, -, -, rfl⟩ := stdioPushback_true hp
  have hnil := stdioRead_broken (f := pushed { f with state := s } [byte]) hm hs hu 0
  have hstream : ByteStream (pushed { f with state := s } [byte]) := hbs
  rw [fgetc, byteOp, requireByte_ready hstream] at hget
  dsimp only at hget hnil
  unfold fgetcCore at hget
  generalize stdioRead (⟨pushed { f with state := s } [byte], broken, 0⟩ : World Regular) 1 = r at hget hnil
  obtain ⟨_, w⟩ := r
  dsimp only at hnil
  subst hnil
  simp at hget

theorem not_wideLaw_of_unbuffered {f : File} (hu : f.mode.unbuffered = true) {wc wc' : Wint} {localeUtf8 : Bool}
    (h : (ungetwc wc localeUtf8 ⟨f, broken, 0⟩).1 = some wc') : ¬ WideLaw f wc := by
  intro hlaw
  obtain ⟨⟨_, u⟩, hu'⟩ : ∃ r, ungetwc wc localeUtf8 (⟨f, broken, 0⟩ : World Regular) = r := ⟨_, rfl⟩
  rw [hu'] at h
  dsimp only at h
  subst h
  obtain ⟨-, hget, -⟩ := hlaw Regular broken 0 localeUtf8 localeUtf8 wc' u hu'
  obtain ⟨-, w, bytes, hr, -, hp⟩ := ungetwc_some hu'
  obtain ⟨hws, s, -, rfl⟩ := requireWide_true hr
  obtain ⟨hm, hs, -, -, rfl⟩ := stdioPushback_true hp
  have hnil := stdioRead_broken (f := pushed { f with state := s } bytes) hm hs hu 0
  have hstream : WideStream (pushed { f with state := s } bytes) := hws
  have hok : ¬ ((!(pushed { f with state := s } bytes).mode.readable) = true ∨
      (pushed { f with state := s } bytes).state.writeNeedsSync = true) := by
    simpa [pushed] using ⟨hm, hs⟩
  rw [fgetwc, wideRequireReadable, requireWide_ready hstream] at hget
  dsimp only at hget hnil
  rw [if_neg hok] at hget
  dsimp only at hget
  unfold wideReadCharacter wideReadLoop at hget
  generalize stdioRead (⟨pushed { f with state := s } bytes, broken, 0⟩ : World Regular) 1 = r at hget hnil
  obtain ⟨_, w⟩ := r
  dsimp only at hnil
  subst hnil
  simp [mbsinit] at hget

/-- Whether a pushback is taken does not depend on the kernel. -/
theorem stdioPushback_fst {κ κ' : Type} (w : World κ) (w' : World κ') (h : w'.file = w.file) (bytes : List UInt8) :
    (stdioPushback w' bytes).1 = (stdioPushback w bytes).1 := by
  unfold stdioPushback
  rw [h]
  split <;> rfl

theorem requireByte_fst {κ κ' : Type} (w : World κ) (w' : World κ') (h : w'.file = w.file) :
    (requireByte w').1 = (requireByte w).1 ∧ (requireByte w').2.file = (requireByte w).2.file := by
  unfold requireByte markError
  rw [h]
  split
  · exact ⟨rfl, rfl⟩
  split
  · exact ⟨rfl, rfl⟩
  split
  · exact ⟨rfl, h⟩
  · exact ⟨rfl, rfl⟩

theorem requireWide_fst {κ κ' : Type} (w : World κ) (w' : World κ') (h : w'.file = w.file) (localeUtf8 : Bool) :
    (requireWide w' localeUtf8).1 = (requireWide w localeUtf8).1 ∧
      (requireWide w' localeUtf8).2.file = (requireWide w localeUtf8).2.file := by
  unfold requireWide markError
  rw [h]
  split
  · exact ⟨rfl, rfl⟩
  split
  · exact ⟨rfl, rfl⟩
  split
  · exact ⟨rfl, h⟩
  · exact ⟨rfl, rfl⟩

theorem ungetc_fst {κ κ' : Type} (w : World κ) (w' : World κ') (h : w'.file = w.file) (c : Int) :
    (ungetc c w').1 = (ungetc c w).1 := by
  obtain ⟨h1, h2⟩ := requireByte_fst w w' h
  unfold ungetc byteOp
  generalize requireByte w = r at h1 h2
  generalize requireByte w' = r' at h1 h2
  obtain ⟨ok, v⟩ := r
  obtain ⟨ok', v'⟩ := r'
  obtain rfl : ok' = ok := h1
  cases ok'
  · rfl
  · have h3 := stdioPushback_fst v v' h2 [unsignedChar c]
    dsimp only
    unfold ungetcCore
    split
    · rfl
    · dsimp only
      generalize stdioPushback v [unsignedChar c] = r at h3
      generalize stdioPushback v' [unsignedChar c] = r' at h3
      obtain ⟨ok, u⟩ := r
      obtain ⟨ok', u'⟩ := r'
      obtain rfl : ok' = ok := h3
      cases ok' <;> rfl

theorem ungetwc_fst {κ κ' : Type} (w : World κ) (w' : World κ') (h : w'.file = w.file) (wc : Wint) (localeUtf8 : Bool) :
    (ungetwc wc localeUtf8 w').1 = (ungetwc wc localeUtf8 w).1 := by
  obtain ⟨h1, h2⟩ := requireWide_fst w w' h localeUtf8
  unfold ungetwc
  split
  · rfl
  generalize requireWide w localeUtf8 = r at h1 h2
  generalize requireWide w' localeUtf8 = r' at h1 h2
  obtain ⟨ok, v⟩ := r
  obtain ⟨ok', v'⟩ := r'
  obtain rfl : ok' = ok := h1
  cases ok'
  · rfl
  · dsimp only at h2 ⊢
    unfold wideUngetCharacter wcrtombMode
    rw [h2]
    split
    · rfl
    obtain _ | bytes := encodeValue (toWchar wc) v.file.state.wideUtf8
    · rfl
    · have h3 := stdioPushback_fst v v' h2 bytes
      dsimp only
      generalize stdioPushback v bytes = r at h3
      generalize stdioPushback v' bytes = r' at h3
      obtain ⟨ok, u⟩ := r
      obtain ⟨ok', u'⟩ := r'
      obtain rfl : ok' = ok := h3
      cases ok' <;> rfl

/-- Pushed-back input is honoured exactly on the streams that are not
unbuffered, whatever the state of the stream and of the kernel. -/
theorem pushback_honoured {κ : Type} (w : World κ) :
    (∀ c byte, (ungetc c w).1 = some byte → (ByteLaw w.file c ↔ w.file.mode.unbuffered = false)) ∧
      (∀ wc wc' localeUtf8, (ungetwc wc localeUtf8 w).1 = some wc' →
        (WideLaw w.file wc ↔ w.file.mode.unbuffered = false)) := by
  constructor
  · intro c byte h
    rw [ungetc_fst ⟨w.file, broken, 0⟩ w rfl] at h
    cases hu : w.file.mode.unbuffered with
    | false => exact ⟨fun _ => rfl, fun _ => byteLaw_of_buffered hu c⟩
    | true => exact ⟨fun hlaw => absurd hlaw (not_byteLaw_of_unbuffered hu h), fun h => absurd h (by decide)⟩
  · intro wc wc' localeUtf8 h
    rw [ungetwc_fst ⟨w.file, broken, 0⟩ w rfl] at h
    cases hu : w.file.mode.unbuffered with
    | false => exact ⟨fun _ => rfl, fun _ => wideLaw_of_buffered hu wc⟩
    | true => exact ⟨fun hlaw => absurd hlaw (not_wideLaw_of_unbuffered hu h), fun h => absurd h (by decide)⟩

/-- A fresh input stream honours a pushed-back letter. -/
theorem pushback_honoured_fresh : ByteLaw { mode := { readable := true } } 65 :=
  ((pushback_honoured { file := { mode := { readable := true } }, kernel := () }).1 65 65 (by decide)).2 rfl

/-- An unbuffered stream over the file `B`. -/
def unbufferedStream : World Regular :=
  { file := { mode := { readable := true, unbuffered := true } }
    kernel := { contents := Contents.empty.write 0 [66], offset := 0, script := fun _ => .short 1 } }

/-- It takes an `A` back and then delivers the `B`. -/
theorem pushback_ignored :
    (ungetc 65 unbufferedStream).1 = some 65 ∧ (fgetc (ungetc 65 unbufferedStream).2).1 = some 66 ∧
      ¬ ByteLaw unbufferedStream.file 65 := by
  have hread : (fgetc (ungetc 65 unbufferedStream).2).1 = some 66 := by decide
  refine ⟨by decide, hread, fun hlaw => ?_⟩
  have := (hlaw Regular unbufferedStream.kernel 0 65 (ungetc 65 unbufferedStream).2 (Prod.ext (by decide) rfl)).2.1
  rw [hread] at this
  exact absurd this (by decide)

end MiniLibc.Stdio
