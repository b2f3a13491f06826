import MiniLibc.Stdio.Cursor
import MiniLibc.Stdio.Pushback
/-!
# A buffered stream in front of a text

A kernel that delivers a text in pieces as short as it likes, and the bytes that a
buffered stream over it still delivers: the pushback, the cache, and what the kernel
holds. A read of one byte takes the first of them, wherever the pieces end.
-/
open MiniLibc.Memory

namespace MiniLibc.Stdio

variable {κ : Type} [Kernel κ]

/-- Raw reads deliver the text piece by piece, and then nothing. -/
structure Supplies (S : κ → List UInt8 → Prop) : Prop where
  read {k : κ} {text : List UInt8} {n : Nat} : S k text → 0 < n →
    ∃ piece rest k', Kernel.read k n = (.ok piece, k') ∧ text = piece ++ rest ∧ piece.length ≤ n ∧
      (piece = [] → text = []) ∧ S k' rest

/-- A buffered stream that has the text still to deliver. -/
structure Supplied (S : κ → List UInt8 → Prop) (w : World κ) (text : List UInt8) : Prop extends
    BufferedInput w.file where
  sound : Sound w.file
  rest : ∃ rest, S w.kernel rest ∧ text = w.file.pushback ++ (w.file.cached ++ rest)
  ended : w.file.state.eof = true → text = []

/-- What a read of a byte leaves as it was. -/
structure SameMarks (f g : File) : Prop where
  mode : g.mode = f.mode
  writeNeedsSync : g.state.writeNeedsSync = f.state.writeNeedsSync
  byteOriented : g.state.byteOriented = f.state.byteOriented
  wideOriented : g.state.wideOriented = f.state.wideOriented
  wideUtf8 : g.state.wideUtf8 = f.state.wideUtf8

theorem SameMarks.trans {f g h : File} (a : SameMarks f g) (b : SameMarks g h) : SameMarks f h :=
  ⟨b.1.trans a.1, b.2.trans a.2, b.3.trans a.3, b.4.trans a.4, b.5.trans a.5⟩

theorem SameMarks.buffered {f g : File} (a : SameMarks f g) (h : BufferedInput f) : BufferedInput g := by
  obtain ⟨hr, hs, hu⟩ := h
  exact ⟨by rw [a.mode, hr], by rw [a.writeNeedsSync, hs], by rw [a.mode, hu]⟩

/-! ## The pieces of a file -/

omit [Kernel κ] in
theorem pushback_cons {f : File} (h : f.pushbackOffset < f.pushbackLength) :
    f.pushback = f.pushbackBytes f.pushbackOffset :: (takePushback (ensureStorage f) 1).pushback := by
  by_cases hend : f.pushbackOffset + 1 = f.pushbackLength
  · have hlen : f.pushbackLength - f.pushbackOffset = 1 := by omega
    simp [File.pushback, takePushback, hend, hlen, bytesAt]
  · rw [@takePushback_pushback (ensureStorage f) 1 (by simp; omega), ensureStorage_pushback]
    obtain ⟨n, hn⟩ : ∃ n, f.pushbackLength - f.pushbackOffset = n + 1 := ⟨f.pushbackLength - f.pushbackOffset - 1, by omega⟩
    simp [File.pushback, hn, bytesAt]

theorem cached_cons {f : File} (h : f.readOffset < f.readLength) :
    f.cached = f.storage f.readBuffer f.readOffset :: (takeCached f 1).cached := by
  rw [takeCached_cached (by unfold File.ahead; omega)]
  obtain ⟨n, hn⟩ : ∃ n, f.readLength - f.readOffset = n + 1 := ⟨f.readLength - f.readOffset - 1, by omega⟩
  simp [File.cached, hn, bytesAt]

theorem cached_nil {f : File} (h : ¬f.readOffset < f.readLength) : f.cached = [] := by
  apply List.eq_nil_of_length_eq_zero
  rw [cached_length]
  omega

theorem Sound.takeCached_one {f : File} (hs : Sound f) (h : f.readOffset < f.readLength) : Sound (takeCached f 1) := by
  refine ⟨hs.1, hs.2, ?_, hs.4, fun _ => hs.5 h⟩
  simp [takeCached]
  omega

theorem Sound.refill_one {f : File} (hs : Sound f) (hb : f.readBuffer ≠ .null) {bytes : List UInt8}
    (hle : bytes.length ≤ f.bufferSize) : Sound (refilled f bytes) := by
  refine ⟨by simpa using hs.1, by simpa using hs.2, by simp, by simpa using hle, fun _ => by simpa using hb⟩

/-! ## Raw reads -/

theorem refill_nothing {w : World κ} {k : κ} (h : Kernel.read w.kernel w.file.bufferSize = (.ok [], k)) :
    refill w = (false, { w with kernel := k, file := atEof w.file }) := by
  unfold refill
  rw [h]
  rfl

theorem refill_piece {w : World κ} {k : κ} {piece : List UInt8}
    (h : Kernel.read w.kernel w.file.bufferSize = (.ok piece, k)) (hne : piece ≠ []) (hle : piece.length ≤ w.file.bufferSize) :
    refill w = (true, { w with kernel := k, file := refilled w.file piece }) := by
  unfold refill
  rw [h]
  dsimp only
  rw [if_neg (fun h0 => hne (List.eq_nil_of_length_eq_zero h0)), if_neg (Nat.not_lt.2 hle), List.take_of_length_le hle]
  rfl

/-! ## One byte -/

section

variable {S : κ → List UInt8 → Prop} {w : World κ} {text : List UInt8}

/-- A byte of the pushback. -/
theorem Supplied.pushed_back (h : Supplied S w text) (hp : w.file.pushbackOffset < w.file.pushbackLength) :
    ∃ w', stdioRead w 1 = (text.take 1, w') ∧ Supplied S w' (text.drop 1) ∧ SameMarks w.file w'.file ∧
      w'.file.pushback = w.file.pushback.drop 1 := by
  obtain ⟨rest, hrest, htext⟩ := h.rest
  have hcons := pushback_cons hp
  have hcached : (takePushback (ensureStorage w.file) 1).cached = w.file.cached := h.sound.ensure_cached
  have heof : w.file.state.eof = false := by
    by_contra he
    have hnil := h.ended (by simpa using he)
    rw [htext, hcons] at hnil
    cases hnil
  rw [hcons, List.cons_append] at htext
  refine ⟨{ w with file := takePushback (ensureStorage w.file) 1 }, ?_, ⟨⟨h.readable, h.noSync, h.buffered⟩, ?_, ?_, ?_⟩,
    ⟨rfl, rfl, rfl, rfl, rfl⟩, by rw [hcons]; rfl⟩
  · rw [stdioRead_pushback_one h.toBufferedInput hp, htext]
    rfl
  · have hs := h.sound.ensure
    exact ⟨hs.1, hs.2, hs.3, hs.4, hs.5⟩
  · refine ⟨rest, hrest, ?_⟩
    rw [htext]
    dsimp only
    rw [hcached]
    rfl
  · intro he
    rw [show (takePushback (ensureStorage w.file) 1).state.eof = w.file.state.eof from rfl, heof] at he
    cases he

/-- A byte of the cache. -/
theorem Supplied.cached_byte (h : Supplied S w text) (hp : ¬w.file.pushbackOffset < w.file.pushbackLength)
    (hc : w.file.readOffset < w.file.readLength) :
    ∃ w', stdioRead w 1 = (text.take 1, w') ∧ Supplied S w' (text.drop 1) ∧ SameMarks w.file w'.file ∧
      w'.file.pushback = w.file.pushback.drop 1 := by
  obtain ⟨rest, hrest, htext⟩ := h.rest
  have hnone : w.file.pushback = [] := pushback_nil hp
  have hcons := cached_cons (f := ensureStorage w.file) hc
  rw [h.sound.ensure_cached] at hcons
  have heof : w.file.state.eof = false := by
    by_contra he
    have hnil := h.ended (by simpa using he)
    rw [htext, hcons, hnone] at hnil
    cases hnil
  rw [hcons, hnone, List.nil_append, List.cons_append] at htext
  have hchunk : cachedChunk (ensureStorage w.file) 1 = 1 := by
    simp [cachedChunk]
    omega
  have hrun := ReadRun.cached (w := { w with file := ensureStorage w.file }) Nat.one_pos hp hc
    (by rw [show cachedChunk _ 1 = 1 from hchunk]; exact .done _)
  rw [show cachedChunk _ 1 = 1 from hchunk] at hrun
  refine ⟨{ w with file := takeCached (ensureStorage w.file) 1 }, ?_, ⟨⟨h.readable, h.noSync, h.buffered⟩, ?_, ?_, ?_⟩,
    ⟨rfl, rfl, rfl, rfl, rfl⟩, ?_⟩
  · rw [hrun.stdioRead_eq h.readable h.noSync h.buffered Nat.one_pos, htext]
    rfl
  · exact h.sound.ensure.takeCached_one hc
  · refine ⟨rest, hrest, ?_⟩
    rw [htext]
    show _ = w.file.pushback ++ _
    rw [hnone]
    rfl
  · intro he
    rw [show (takeCached (ensureStorage w.file) 1).state.eof = w.file.state.eof from rfl, heof] at he
    cases he
  · show w.file.pushback = _
    rw [hnone]
    rfl

/-- Nothing is left. -/
theorem Supplied.at_end (hS : Supplies S) (h : Supplied S w []) :
    ∃ w', stdioRead w 1 = ([], w') ∧ Supplied S w' [] ∧ SameMarks w.file w'.file ∧ w'.file.pushback = [] := by
  obtain ⟨rest, hrest, htext⟩ := h.rest
  obtain ⟨hnone, hcr⟩ := List.append_eq_nil_iff.1 htext.symm
  obtain ⟨hcnil, rfl⟩ := List.append_eq_nil_iff.1 hcr
  have hd : Drained w.file := by
    have hp := pushback_length w.file
    have hc := cached_length w.file
    rw [hnone, List.length_nil] at hp
    rw [hcnil, List.length_nil] at hc
    exact ⟨by omega, by omega⟩
  have hcached : (ensureStorage w.file).cached = [] := h.sound.ensure_cached.trans hcnil
  cases he : w.file.state.eof with
  | true =>
    have hrun := ReadRun.eof (w := { w with file := ensureStorage w.file }) Nat.one_pos hd he
    refine ⟨{ w with file := ensureStorage w.file }, hrun.stdioRead_eq h.readable h.noSync h.buffered Nat.one_pos,
      ⟨⟨h.readable, h.noSync, h.buffered⟩, h.sound.ensure, ⟨[], hrest, ?_⟩, fun _ => rfl⟩, ⟨rfl, rfl, rfl, rfl, rfl⟩, hnone⟩
    simp [hcached, hnone]
  | false =>
    obtain ⟨piece, tail, k, hread, hpiece, -, -, hk⟩ := hS.read hrest (ensureStorage_bufferSize w.file)
    obtain ⟨rfl, rfl⟩ := List.append_eq_nil_iff.1 hpiece.symm
    have hstop := refill_nothing (w := { w with file := ensureStorage w.file }) hread
    have hrun := ReadRun.stop (w := { w with file := ensureStorage w.file }) Nat.one_pos hd he hstop
    have hs := h.sound.ensure
    have hempty : (atEof (ensureStorage w.file)).cached = [] := rfl
    refine ⟨_, hrun.stdioRead_eq h.readable h.noSync h.buffered Nat.one_pos, ⟨⟨h.readable, h.noSync, h.buffered⟩,
      ⟨hs.1, hs.2, Nat.le_refl 0, Nat.zero_le _, fun hlt => absurd hlt (Nat.lt_irrefl 0)⟩, ⟨[], hk, ?_⟩, fun _ => rfl⟩,
      ⟨rfl, rfl, rfl, rfl, rfl⟩, hnone⟩
    rw [hempty]
    show [] = w.file.pushback ++ _
    rw [hnone]
    rfl

/-- The kernel has to be asked, and has more. -/
theorem Supplied.refilled_byte (hS : Supplies S) (h : Supplied S w text) (ht : text ≠ []) (hd : Drained w.file) :
    ∃ w', stdioRead w 1 = (text.take 1, w') ∧ Supplied S w' (text.drop 1) ∧ SameMarks w.file w'.file ∧
      w'.file.pushback = w.file.pushback.drop 1 := by
  obtain ⟨rest, hrest, htext⟩ := h.rest
  have hnone : w.file.pushback = [] := pushback_nil hd.1
  rw [hnone, cached_nil hd.2, List.nil_append, List.nil_append] at htext
  subst htext
  have heof : w.file.state.eof = false := by
    by_contra he
    exact ht (h.ended (by simpa using he))
  obtain ⟨piece, rest, k, hread, rfl, hle, hmore, hk⟩ := hS.read hrest (ensureStorage_bufferSize w.file)
  have hne : piece ≠ [] := fun h0 => ht (hmore h0)
  obtain ⟨b, piece, rfl⟩ := List.exists_cons_of_ne_nil hne
  have hb := ensureStorage_readBuffer w.file
  have hrefill := refill_piece (w := { w with file := ensureStorage w.file }) hread hne hle
  have hhas : (refilled (ensureStorage w.file) (b :: piece)).readOffset <
      (refilled (ensureStorage w.file) (b :: piece)).readLength := by simp
  have hcons := cached_cons hhas
  rw [refilled_cached hb] at hcons
  obtain ⟨hbyte, hcached⟩ := List.cons.inj hcons
  have hchunk : cachedChunk (refilled (ensureStorage w.file) (b :: piece)) 1 = 1 := by simp [cachedChunk]
  have hrun := ReadRun.refill (w := { w with file := ensureStorage w.file }) Nat.one_pos hd heof hrefill (by
    rw [show cachedChunk _ 1 = 1 from hchunk]
    exact .done _)
  rw [show cachedChunk _ 1 = 1 from hchunk] at hrun
  have hpush : (takeCached (refilled (ensureStorage w.file) (b :: piece)) 1).pushback = [] := by
    refine pushback_nil ?_
    simpa [takeCached] using hd.1
  have hmarks : SameMarks w.file (takeCached (refilled (ensureStorage w.file) (b :: piece)) 1) := by
    constructor <;> simp [takeCached]
  refine ⟨{ w with kernel := k, file := takeCached (refilled (ensureStorage w.file) (b :: piece)) 1 }, ?_,
    ⟨hmarks.buffered h.toBufferedInput, (h.sound.ensure.refill_one hb hle).takeCached_one hhas, ⟨rest, hk, ?_⟩, ?_⟩, hmarks,
    by rw [hnone, hpush]; rfl⟩
  · rw [hrun.stdioRead_eq h.readable h.noSync h.buffered Nat.one_pos]
    exact Prod.ext (congrArg (fun c => [c]) hbyte.symm) rfl
  · rw [hpush, ← hcached]
    rfl
  · intro he
    have : w.file.state.eof = true := by simpa [takeCached] using he
    rw [heof] at this
    cases this

/-- A read of one byte delivers the first one, if there is one. -/
theorem Supplied.one (hS : Supplies S) (h : Supplied S w text) :
    ∃ w', stdioRead w 1 = (text.take 1, w') ∧ Supplied S w' (text.drop 1) ∧ SameMarks w.file w'.file ∧
      w'.file.pushback = w.file.pushback.drop 1 := by
  by_cases hp : w.file.pushbackOffset < w.file.pushbackLength
  · exact h.pushed_back hp
  by_cases hc : w.file.readOffset < w.file.readLength
  · exact h.cached_byte hp hc
  by_cases ht : text = []
  · subst ht
    obtain ⟨w', hread, hw', hmarks, hpush⟩ := h.at_end hS
    exact ⟨w', hread, hw', hmarks, by rw [hpush, pushback_nil hp]; rfl⟩
  · exact h.refilled_byte hS ht ⟨hp, hc⟩

omit [Kernel κ] in
/-- Bytes are pushed back in front of the text. -/
theorem Supplied.push (h : Supplied S w text) (hp : w.file.pushback = []) (bytes : List UInt8) (hne : bytes ≠ [])
    (hle : bytes.length ≤ 4) :
    ∃ w', stdioPushback w bytes = (true, w') ∧ Supplied S w' (bytes ++ text) ∧ SameMarks w.file w'.file ∧
      w'.file.pushback = bytes := by
  obtain ⟨rest, hrest, htext⟩ := h.rest
  rw [hp, List.nil_append] at htext
  have hnone : ¬w.file.pushbackOffset < w.file.pushbackLength := by
    have := pushback_length w.file
    rw [hp, List.length_nil] at this
    omega
  have hlen : bytes.length ≠ 0 := fun h0 => hne (List.eq_nil_of_length_eq_zero h0)
  have hpush : stdioPushback w bytes = (true, { w with file := pushed w.file bytes }) := by
    unfold stdioPushback
    rw [if_neg]
    · rfl
    · rintro (hr | h0 | h4 | hw | hlt)
      · simp [h.readable] at hr
      · exact hlen h0
      · omega
      · simp [h.noSync] at hw
      · exact hnone hlt
  have hs := h.sound
  refine ⟨{ w with file := pushed w.file bytes }, hpush, ⟨⟨h.readable, h.noSync, h.buffered⟩,
    ⟨hs.1, hs.2, hs.3, hs.4, hs.5⟩, ⟨rest, hrest, ?_⟩, fun he => by cases he⟩, ⟨rfl, rfl, rfl, rfl, rfl⟩,
    pushed_pushback _ _⟩
  rw [pushed_pushback, htext]
  rfl

end

/-! ## A slow kernel -/

/-- A kernel that delivers what is left two bytes at a time at most. -/
structure Drip where
  left : List UInt8

instance : Kernel Drip where
  read k n := (.ok (k.left.take (min n 2)), ⟨k.left.drop (min n 2)⟩)
  write k _ := (.error eio, k)
  lseek k _ _ := (.error eio, k)

theorem drip_supplies : Supplies fun (k : Drip) text => k.left = text where
  read := by
    rintro ⟨left⟩ _ n rfl hn
    refine ⟨left.take (min n 2), left.drop (min n 2), ⟨left.drop (min n 2)⟩, rfl, (List.take_append_drop _ _).symm, ?_, ?_, rfl⟩
    · rw [List.length_take]
      omega
    · intro h
      rcases List.take_eq_nil_iff.1 h with h0 | hnil
      · omega
      · exact hnil

/-- A stream just opened for reading. -/
def dripping (left : List UInt8) : World Drip := { file := { mode := { readable := true } }, kernel := ⟨left⟩ }

theorem dripping_supplied (left : List UInt8) : Supplied (fun k text => k.left = text) (dripping left) left where
  readable := rfl
  noSync := rfl
  buffered := rfl
  sound := ⟨Nat.le_refl 0, fun h => absurd h (Nat.lt_irrefl 0), Nat.le_refl 0, Nat.le_refl 0,
    fun h => absurd h (Nat.lt_irrefl 0)⟩
  rest := ⟨left, rfl, rfl⟩
  ended h := by cases h

end MiniLibc.Stdio
