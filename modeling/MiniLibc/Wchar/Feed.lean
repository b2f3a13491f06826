import MiniLibc.Wchar.Restart
/-!
# Decoding in pieces

A caller hands the bytes of its input to `mbrtowc` in consecutive pieces, with
one state object. What it decodes does not depend on where the pieces end: the
decoder is a fold over single bytes.
-/

namespace MiniLibc.Wchar

/-- What a caller has decoded: each character with the offset just behind it,
whether an encoding error stopped it, and the conversion state. -/
structure Fed where
  characters : List (Int × Nat)
  error : Bool
  state : MbState
deriving DecidableEq, Repr

/-- One more character in front. -/
def Fed.cons (c : Int × Nat) (r : Fed) : Fed := { r with characters := c :: r.characters }

/-- Characters in front. -/
def Fed.append (cs : List (Int × Nat)) (r : Fed) : Fed := { r with characters := cs ++ r.characters }

/-- The calls of `mbrtowc` on one piece, which starts at `offset`. A `0` stands
for the one byte of a NUL. -/
def feedLoop (utf8 : Bool) : (fuel : Nat) → (offset : Nat) → MbState → List UInt8 → Fed
  | 0, _, state, _ => ⟨[], false, state⟩
  | fuel + 1, offset, state, piece =>
    let d := mbrtowcMode (some piece) state utf8
    match d.result with
    | .incomplete => ⟨[], false, d.state⟩
    | .eilseq => ⟨[], true, d.state⟩
    | .length n =>
      let used := max n 1
      (feedLoop utf8 fuel (offset + used) d.state (piece.drop used)).cons (d.pwc.getD 0, offset + used)

def feed (utf8 : Bool) (offset : Nat) (state : MbState) (piece : List UInt8) : Fed :=
  feedLoop utf8 piece.length offset state piece

/-- The calls on all the pieces, up to an encoding error. -/
def feedPieces (utf8 : Bool) : (offset : Nat) → MbState → List (List UInt8) → Fed
  | _, state, [] => ⟨[], false, state⟩
  | offset, state, piece :: pieces =>
    let r := feed utf8 offset state piece
    if r.error then r
    else (feedPieces utf8 (offset + piece.length) r.state pieces).append r.characters

/-! ## One byte -/

/-- A result that is counted from `k` bytes before. -/
def Decoded.shift (k : Nat) (d : Decoded) : Decoded :=
  { d with result := match d.result with | .length n => .length (n + k) | r => r }

/-- In the middle of a character the decoder counts from where it started. -/
theorem loop_shift {bytes : List UInt8} {state : MbState} (h : stateRemaining state ≠ 0) (used k : Nat) :
    mbrtowcLoop (used + k) bytes state = (mbrtowcLoop used bytes state).shift k ∧
      ∀ n, (mbrtowcLoop used bytes state).result = .length n → used < n := by
  induction bytes generalizing state used with
  | nil => exact ⟨rfl, fun n hn => by simp [mbrtowcLoop] at hn⟩
  | cons b rest ih =>
    simp only [mbrtowcLoop, if_neg h]
    split
    · exact ⟨rfl, fun n hn => by simp at hn⟩
    split
    · rename_i hr
      have hlt : stateRemaining state < 256 := Nat.and_lt_two_pow _ (by decide : 0xff < 2 ^ 8)
      have hnext := @stateRemaining_start (stateRemaining state - 1) (by omega) (stateTotal state)
        ((state.value <<< 6) % 2 ^ 32 ||| (b.toNat &&& 0x3f))
      have := @ih _ (by rw [hnext]; exact hr) (used + 1)
      rw [Nat.add_right_comm] at this
      exact ⟨this.1, fun n hn => (Nat.lt_succ_self _).trans (this.2 n hn)⟩
    split
    · exact ⟨rfl, fun n hn => by simp at hn⟩
    · refine ⟨?_, fun n hn => ?_⟩
      · rw [Nat.add_right_comm]
        rfl
      · obtain rfl := Converted.length.inj hn
        exact Nat.lt_succ_self _

/-- What the first byte decides: it completes a character of its own, is an
error, or leaves the decoder in the middle of one. -/
theorem loop_head (b : UInt8) (rest : List UInt8) (state : MbState) :
    (∃ n c next, max n 1 = 1 ∧ mbrtowcLoop 0 [b] state = ⟨.length n, c, next⟩ ∧
      mbrtowcLoop 0 (b :: rest) state = ⟨.length n, c, next⟩) ∨
    (∃ next, mbrtowcLoop 0 [b] state = ⟨.eilseq, none, next⟩ ∧
      mbrtowcLoop 0 (b :: rest) state = ⟨.eilseq, none, next⟩) ∨
    ∃ next, stateRemaining next ≠ 0 ∧ mbrtowcLoop 0 [b] state = ⟨.incomplete, none, next⟩ ∧
      mbrtowcLoop 0 (b :: rest) state = mbrtowcLoop 1 rest next := by
  have hlt : stateRemaining state < 256 := Nat.and_lt_two_pow _ (by decide : 0xff < 2 ^ 8)
  simp only [mbrtowcLoop]
  by_cases hs : stateRemaining state = 0
  · simp only [if_pos hs]
    split
    · exact .inl ⟨0, _, _, rfl, rfl, rfl⟩
    split
    · exact .inl ⟨1, _, _, rfl, rfl, rfl⟩
    split
    · exact .inr (.inr ⟨_, by rw [stateRemaining_start (by omega)]; decide, rfl, rfl⟩)
    split
    · exact .inr (.inr ⟨_, by rw [stateRemaining_start (by omega)]; decide, rfl, rfl⟩)
    split
    · exact .inr (.inr ⟨_, by rw [stateRemaining_start (by omega)]; decide, rfl, rfl⟩)
    · exact .inr (.inl ⟨_, rfl, rfl⟩)
  · simp only [if_neg hs]
    split
    · exact .inr (.inl ⟨_, rfl, rfl⟩)
    split
    · rename_i hr
      exact .inr (.inr ⟨_, by rw [stateRemaining_start (by omega)]; exact hr, rfl, rfl⟩)
    split
    · exact .inr (.inl ⟨_, rfl, rfl⟩)
    · exact .inl ⟨1, _, _, rfl, rfl, rfl⟩

/-- The caller's next step after a call on `piece`. -/
def Decoded.fed (utf8 : Bool) (offset : Nat) (piece : List UInt8) (d : Decoded) : Fed :=
  match d.result with
  | .incomplete => ⟨[], false, d.state⟩
  | .eilseq => ⟨[], true, d.state⟩
  | .length n => (feed utf8 (offset + max n 1) d.state (piece.drop (max n 1))).cons (d.pwc.getD 0, offset + max n 1)

/-- The fuel is enough: every character takes a byte. -/
theorem feedLoop_eq {utf8 : Bool} {fuel offset : Nat} {state : MbState} {piece : List UInt8}
    (h : piece.length ≤ fuel) : feedLoop utf8 fuel offset state piece = feed utf8 offset state piece := by
  have key : ∀ (n fuel offset : Nat) (state : MbState) (piece : List UInt8), piece.length ≤ n → piece.length ≤ fuel →
      feedLoop utf8 fuel offset state piece = feedLoop utf8 n offset state piece := by
    intro n
    induction n with
    | zero =>
      intro fuel offset state piece hn hf
      obtain rfl := List.eq_nil_of_length_eq_zero (Nat.le_zero.1 hn)
      cases fuel <;> rfl
    | succ n ih =>
      intro fuel offset state piece hn hf
      cases fuel with
      | zero =>
        obtain rfl := List.eq_nil_of_length_eq_zero (Nat.le_zero.1 hf)
        rfl
      | succ fuel =>
        simp only [feedLoop]
        split
        · rfl
        · rfl
        · rw [ih fuel]
          · rw [List.length_drop]; omega
          · rw [List.length_drop]; omega
  exact key piece.length fuel offset state piece (Nat.le_refl _) h

/-- The first call on a piece, and the rest. -/
theorem feed_call {utf8 : Bool} {offset : Nat} {state : MbState} {piece : List UInt8} :
    feed utf8 offset state piece = (mbrtowcMode (some piece) state utf8).fed utf8 offset piece := by
  cases piece with
  | nil => rfl
  | cons b rest =>
    unfold feed Decoded.fed
    rw [List.length_cons, feedLoop]
    dsimp only
    split
    · rfl
    · rfl
    · rw [feedLoop_eq]
      rw [List.length_drop, List.length_cons]
      omega

theorem mode_utf8 (bytes : List UInt8) (state : MbState) :
    mbrtowcMode (some bytes) state true = mbrtowcLoop 0 bytes state := by
  cases bytes with
  | nil => rfl
  | cons b rest => rw [mbrtowcMode, if_pos rfl]

/-- The caller's bytes are taken one by one. -/
theorem feed_cons (utf8 : Bool) (offset : Nat) (state : MbState) (b : UInt8) (rest : List UInt8) :
    feed utf8 offset state (b :: rest) =
      let r := feed utf8 offset state [b]
      if r.error then r else (feed utf8 (offset + 1) r.state rest).append r.characters := by
  cases utf8 with
  | false =>
    rw [feed_call, @feed_call _ _ _ [b]]
    simp only [mbrtowcMode, if_neg Bool.false_ne_true]
    split
    · rfl
    split
    · rfl
    split <;> rfl
  | true =>
    rw [feed_call, @feed_call _ _ _ [b], mode_utf8, mode_utf8]
    rcases loop_head b rest state with ⟨n, c, next, hn, h1, h2⟩ | ⟨next, h1, h2⟩ | ⟨next, hr, h1, h2⟩
    · rw [h1, h2]
      dsimp only [Decoded.fed]
      rw [hn]
      rfl
    · rw [h1, h2]
      rfl
    · -- The character goes on in the next bytes.
      rw [h1, h2]
      dsimp only [Decoded.fed]
      rw [if_neg Bool.false_ne_true, feed_call]
      obtain ⟨hs, hpos⟩ := @loop_shift rest next hr 0 1
      rw [Nat.zero_add] at hs
      rw [hs, mode_utf8]
      generalize mbrtowcLoop 0 rest next = d at hpos
      obtain ⟨result, c, final⟩ := d
      cases result with
      | incomplete => rfl
      | eilseq => rfl
      | length n =>
        have hn := hpos n rfl
        dsimp only [Decoded.shift, Decoded.fed]
        rw [Nat.max_eq_left (by omega : 1 ≤ n + 1), Nat.max_eq_left (by omega : 1 ≤ n), List.drop_succ_cons,
          Nat.add_assoc, Nat.add_comm 1 n]
        rfl

/-! ## Pieces -/

theorem Fed.append_append (cs ds : List (Int × Nat)) (r : Fed) : (r.append ds).append cs = r.append (cs ++ ds) := by
  unfold Fed.append
  rw [List.append_assoc]

/-- A piece may end anywhere. -/
theorem feed_append (utf8 : Bool) (offset : Nat) (state : MbState) (p q : List UInt8) :
    feed utf8 offset state (p ++ q) =
      let r := feed utf8 offset state p
      if r.error then r else (feed utf8 (offset + p.length) r.state q).append r.characters := by
  induction p generalizing offset state with
  | nil => rfl
  | cons b p ih =>
    rw [List.cons_append, feed_cons, feed_cons utf8 offset state b p]
    dsimp only
    generalize feed utf8 offset state [b] = r
    by_cases he : r.error = true
    · rw [if_pos he, if_pos he]
      exact (if_pos he).symm
    rw [if_neg he, if_neg he, ih]
    dsimp only
    generalize feed utf8 (offset + 1) r.state p = s
    by_cases hs : s.error = true
    · rw [if_pos hs]
      exact (if_pos hs).symm
    · rw [if_neg hs, Fed.append_append, List.length_cons, Nat.add_comm p.length 1, ← Nat.add_assoc]
      exact (if_neg hs).symm

/-- Decoding does not depend on the pieces: from every conversion state, with
both encodings, the characters, where they end, the error that stops the caller
and the final state are those of the input in one piece. -/
theorem decoding_chunks (utf8 : Bool) (offset : Nat) (state : MbState) (pieces : List (List UInt8)) :
    feedPieces utf8 offset state pieces = feed utf8 offset state pieces.flatten := by
  induction pieces generalizing offset state with
  | nil => rfl
  | cons piece pieces ih =>
    rw [List.flatten_cons, feed_append, feedPieces]
    dsimp only
    rw [ih]

end MiniLibc.Wchar
