import MiniLibc.Wchar.Exact
/-!
# Decoding byte by byte

A decoder that is given one byte at a time and keeps its state in between
reports what it reports on all the bytes at once, and an incomplete character
never waits for more than three bytes.
-/
open MiniLibc.Utf8

namespace MiniLibc.Wchar

/-- A first byte leaves the decoder waiting, and the rest continues from its
state, or decides the result. -/
theorem loop_byte (used : Nat) (b : UInt8) (rest : List UInt8) (state : MbState) :
    ((mbrtowcLoop 0 [b] state).result = .incomplete ∧
      mbrtowcLoop used (b :: rest) state = mbrtowcLoop (used + 1) rest (mbrtowcLoop 0 [b] state).state) ∨
    ((mbrtowcLoop 0 [b] state).result = .eilseq ∧ (mbrtowcLoop used (b :: rest) state).result = .eilseq) ∨
    ∃ n m, (mbrtowcLoop 0 [b] state).result = .length n ∧ (mbrtowcLoop used (b :: rest) state).result = .length m ∧
      (mbrtowcLoop used (b :: rest) state).pwc = (mbrtowcLoop 0 [b] state).pwc := by
  simp only [mbrtowcLoop]
  by_cases hs : stateRemaining state = 0
  · simp only [if_pos hs]
    repeat' split
    all_goals simp
  · simp only [if_neg hs]
    repeat' split
    all_goals simp

/-- The decoder, fed these bytes one by one, reports `v` at the last. -/
inductive Feeds (utf8 : Bool) : MbState → List UInt8 → Int → Prop where
  | last {state final : MbState} {b : UInt8} {v : Int} {n : Nat} :
      mbrtowcMode (some [b]) state utf8 = ⟨.length n, some v, final⟩ → Feeds utf8 state [b] v
  | more {state next : MbState} {b : UInt8} {rest : List UInt8} {v : Int} {pwc : Option Int} :
      mbrtowcMode (some [b]) state utf8 = ⟨.incomplete, pwc, next⟩ → Feeds utf8 next rest v →
      Feeds utf8 state (b :: rest) v

/-- Bytes that are decoded together, and no sooner, are decoded one by one. -/
theorem feeds_of_loop {bytes : List UInt8} {used n : Nat} {state : MbState} {v : Int}
    (hp : ∀ p, p <+: bytes → p ≠ bytes → (mbrtowcLoop used p state).result = .incomplete)
    (hr : (mbrtowcLoop used bytes state).result = .length n) (hv : (mbrtowcLoop used bytes state).pwc = some v) :
    Feeds true state bytes v := by
  induction bytes generalizing used state with
  | nil => simp [mbrtowcLoop] at hr
  | cons b rest ih =>
    obtain ⟨⟨result, pwc, next⟩, hd⟩ : ∃ d, mbrtowcLoop 0 [b] state = d := ⟨_, rfl⟩
    have hmode : mbrtowcMode (some [b]) state true = ⟨result, pwc, next⟩ := hd
    rcases loop_byte used b rest state with ⟨hi, hl⟩ | ⟨-, hl⟩ | ⟨n, m, hi, -, hl⟩
    · rw [hd] at hi hl
      dsimp only at hi hl
      subst hi
      refine .more hmode (ih (fun p hpre hne => ?_) (hl ▸ hr) (hl ▸ hv))
      have := hp (b :: p) (List.cons_prefix_cons.2 ⟨rfl, hpre⟩) (fun h => hne (List.cons.inj h).2)
      rcases loop_byte used b p state with ⟨-, hl'⟩ | ⟨hi', -⟩ | ⟨_, _, hi', -, -⟩
      · rwa [hl', hd] at this
      · simp [hd] at hi'
      · simp [hd] at hi'
    · rw [hl] at hr
      simp at hr
    · rw [hd] at hi hl
      dsimp only at hi hl
      subst hi
      cases rest with
      | nil => exact .last (hmode.trans (by rw [← hv, hl]))
      | cons c rest =>
        have := hp [b] (List.cons_prefix_cons.2 ⟨rfl, List.nil_prefix⟩) (by simp)
        rcases loop_byte used b [] state with ⟨hi', -⟩ | ⟨hi', -⟩ | ⟨_, _, -, hm, -⟩
        · simp [hd] at hi'
        · simp [hd] at hi'
        · simp [this] at hm

/-- The bytes that encode a character decode to it one by one. -/
theorem feeds_encode {wc : Int} {utf8 : Bool} {bytes : List UInt8} (h : encodeValue wc utf8 = some bytes) :
    Feeds utf8 {} bytes wc ∧ bytes.length ≤ 4 := by
  cases utf8 with
  | true =>
    obtain ⟨h0, hv⟩ := (encodeValue_isSome wc).1 (by simp [h])
    obtain ⟨v, rfl⟩ := Int.eq_ofNat_of_zero_le h0
    rw [Int.toNat_natCast] at hv
    obtain rfl := Option.some.inj ((encodeValue_eq hv).symm.trans h)
    have hd := decode_encode hv []
    have hlen : 0 < (Utf8.encode v).length ∧ (Utf8.encode v).length ≤ 4 := by
      unfold Utf8.encode
      split
      · simp
      · rcases tailCount_cases v with hc | hc | hc <;> simp [hc]
    obtain ⟨b, rest, he⟩ := List.exists_cons_of_length_pos hlen.1
    rw [List.append_nil, he, mode_cons] at hd
    refine ⟨?_, hlen.2⟩
    rw [he]
    refine @feeds_of_loop _ 0 _ _ _ (fun p hpre hne => ?_) (by rw [hd]) (by rw [hd])
    have := decode_prefix hv (he ▸ hpre) (he ▸ hne)
    cases p with
    | nil => rfl
    | cons c p => rwa [mode_cons] at this
  | false =>
    unfold encodeValue at h
    split at h
    · contradiction
    dsimp only at h
    rw [if_pos (by rfl)] at h
    split at h
    · contradiction
    rename_i h0 hmax
    obtain rfl := Option.some.inj h
    have hb := toNat_ofNat (n := wc.toNat) (by unfold cMbMax at hmax; omega)
    have hwc : ((UInt8.ofNat wc.toNat).toNat : Int) = wc := by rw [hb]; omega
    have hd : mbrtowcMode (some [.ofNat wc.toNat]) {} false =
        ⟨.length (if (UInt8.ofNat wc.toNat).toNat = 0 then 0 else 1), some wc, {}⟩ := by
      rw [mbrtowcMode, hwc, if_neg (by simp), if_neg (by decide), if_neg (by rw [hb]; exact hmax)]
    exact ⟨.last hd, by simp⟩

/-! ## How long a character waits -/

/-- How many bytes may still come before a result. -/
def patience (state : MbState) : Nat := if stateRemaining state = 0 then 4 else stateRemaining state

theorem patience_start {remaining : Nat} (h0 : 0 < remaining) (h : remaining < 256) (total value : Nat) :
    patience (startState total remaining value) = remaining := by
  rw [patience, stateRemaining_start h, if_neg (by omega)]

/-- Every byte the decoder waits for uses up some of it. -/
theorem patience_lt {b : UInt8} {state next : MbState} {utf8 : Bool} {pwc : Option Int}
    (h : mbrtowcMode (some [b]) state utf8 = ⟨.incomplete, pwc, next⟩) : patience next < patience state := by
  cases utf8 with
  | false =>
    simp only [mbrtowcMode] at h
    split at h
    · contradiction
    split at h
    · simp at h
    split at h <;> simp at h
  | true =>
    have hlt : stateRemaining state < 256 := Nat.and_lt_two_pow _ (by decide : 0xff < 2 ^ 8)
    simp only [mbrtowcMode, mbrtowcLoop] at h
    rw [if_pos trivial] at h
    by_cases hs : stateRemaining state = 0
    · have h4 : patience state = 4 := if_pos hs
      rw [if_pos hs] at h
      repeat' split at h
      all_goals first
        | (simp at h; done)
        | (obtain ⟨-, rfl⟩ := by simpa using h
           rw [patience_start (by omega) (by omega), h4]
           omega)
    · rw [if_neg hs] at h
      have h4 : patience state = stateRemaining state := if_neg hs
      repeat' split at h
      all_goals first
        | (simp at h; done)
        | (obtain ⟨-, rfl⟩ := by simpa using h
           rw [patience_start (by omega) (by omega), h4]
           omega)

end MiniLibc.Wchar
