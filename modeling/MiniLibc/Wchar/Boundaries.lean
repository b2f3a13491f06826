import MiniLibc.Wchar.Bounded
import MiniLibc.Wchar.Feed
/-!
# Character boundaries

An encoding is one ASCII byte or has none, so a text of whole characters may be cut at
every ASCII byte. Bytes that are decoded one by one are the encoding of the character
they give.
-/
open MiniLibc.Utf8

namespace MiniLibc.Wchar

/-! ## ASCII -/

theorem encodeValue_ascii {n : Nat} (h : n < 128) (utf8 : Bool) : encodeValue n utf8 = some [UInt8.ofNat n] := by
  have hpos : ¬(n : Int) < 0 := by omega
  have hmax : ¬n > cMbMax := by
    unfold cMbMax
    omega
  unfold encodeValue
  rw [if_neg hpos, Int.toNat_natCast]
  cases utf8 with
  | false =>
    dsimp only
    rw [if_pos (by rfl), if_neg hmax]
  | true =>
    have hvalid : ¬(!validScalar n) = true := by
      simp [ascii_valid (show n ≤ 0x7f by omega)]
    dsimp only
    rw [if_neg (by decide), if_neg hvalid, if_pos (by omega)]

/-- The encoding of a character is its own byte, or has no ASCII byte. -/
theorem encodeValue_bytes {wc : Int} {utf8 : Bool} {bytes : List UInt8} (h : encodeValue wc utf8 = some bytes) :
    (∃ b : UInt8, b.toNat < 128 ∧ wc = b.toNat ∧ bytes = [b]) ∨
      (128 ≤ wc ∧ bytes ≠ [] ∧ ∀ b ∈ bytes, 128 ≤ b.toNat) := by
  have hpos : 0 ≤ wc := by
    by_contra hneg
    unfold encodeValue at h
    rw [if_pos (by omega)] at h
    cases h
  obtain ⟨v, rfl⟩ := Int.eq_ofNat_of_zero_le hpos
  by_cases hascii : v < 128
  · rw [encodeValue_ascii hascii] at h
    have hb := toNat_ofNat (n := v) (by omega)
    exact .inl ⟨UInt8.ofNat v, by omega, by rw [hb], (Option.some.inj h).symm⟩
  · refine .inr ⟨by omega, ?_⟩
    cases utf8 with
    | false =>
      unfold encodeValue at h
      rw [if_neg (by omega)] at h
      dsimp only at h
      rw [if_pos (by rfl), if_pos (by unfold cMbMax; omega)] at h
      cases h
    | true =>
      obtain ⟨-, hv⟩ := (encodeValue_isSome v).1 (by simp [h])
      rw [Int.toNat_natCast] at hv
      rw [encodeValue_eq hv] at h
      obtain ⟨a, n, he, hlead, -⟩ := encode_lead (show 0x7f < v by omega) (validScalar_le hv)
      rw [← Option.some.inj h, he]
      refine ⟨List.cons_ne_nil _ _, fun b hb => ?_⟩
      rcases List.mem_cons.1 hb with rfl | hb
      · unfold Leads at hlead
        omega
      · exact (isTail_tails n v b hb).1

/-! ## Texts of whole characters -/

variable {utf8 : Bool} {wide wide' : List Int} {bytes bytes' : List UInt8}

theorem Encodings.append (h : Encodings utf8 wide bytes) (h' : Encodings utf8 wide' bytes') :
    Encodings utf8 (wide ++ wide') (bytes ++ bytes') := by
  obtain ⟨pieces, hp, rfl⟩ := h
  obtain ⟨pieces', hp', rfl⟩ := h'
  exact ⟨pieces ++ pieces', List.rel_append hp hp', List.flatten_append.symm⟩

theorem Encodings.nil_iff (h : Encodings utf8 wide bytes) : wide = [] ↔ bytes = [] := by
  cases wide with
  | nil =>
    obtain ⟨pieces, hp, rfl⟩ := h
    cases hp
    exact iff_of_true rfl rfl
  | cons wc wide =>
    obtain ⟨encoded, rest, he, rfl, -⟩ := h.uncons
    refine iff_of_false (List.cons_ne_nil _ _) fun hnil => ?_
    obtain ⟨rfl, -⟩ := List.append_eq_nil_iff.1 hnil
    rcases encodeValue_bytes he with ⟨b, -, -, hb⟩ | ⟨-, hne, -⟩
    · cases hb
    · exact hne rfl

/-- A character takes a byte at least. -/
theorem Encodings.length_le (h : Encodings utf8 wide bytes) : wide.length ≤ bytes.length := by
  induction wide generalizing bytes with
  | nil => exact Nat.zero_le _
  | cons wc wide ih =>
    obtain ⟨encoded, rest, he, rfl, hrest⟩ := h.uncons
    have hpos : 0 < encoded.length := by
      rcases encodeValue_bytes he with ⟨b, -, -, rfl⟩ | ⟨-, hne, -⟩
      · exact Nat.one_pos
      · exact List.length_pos_iff.2 hne
    have := ih hrest
    rw [List.length_cons, List.length_append]
    omega

/-- The characters of ASCII bytes. -/
def asciiChars (bytes : List UInt8) : List Int := bytes.map fun b => (b.toNat : Int)

theorem encodings_ascii (utf8 : Bool) (h : ∀ b ∈ bytes, b.toNat < 128) : Encodings utf8 (asciiChars bytes) bytes := by
  induction bytes with
  | nil => exact .nil utf8
  | cons b bytes ih =>
    have hb := encodeValue_ascii (h b (List.mem_cons_self ..)) utf8
    rw [UInt8.ofNat_toNat] at hb
    exact .cons hb (ih fun c hc => h c (List.mem_cons_of_mem b hc))

/-- A text may be cut behind ASCII bytes. -/
theorem Encodings.cut (h : Encodings utf8 wide (bytes ++ bytes')) (hb : ∀ b ∈ bytes, b.toNat < 128) :
    ∃ rest, wide = asciiChars bytes ++ rest ∧ Encodings utf8 rest bytes' := by
  induction bytes generalizing wide with
  | nil => exact ⟨wide, rfl, h⟩
  | cons b bytes ih =>
    cases wide with
    | nil => cases h.nil_iff.1 rfl
    | cons wc wide =>
      obtain ⟨encoded, rest, he, heq, hrest⟩ := h.uncons
      have hlt := hb b (List.mem_cons_self ..)
      rcases encodeValue_bytes he with ⟨c, -, rfl, rfl⟩ | ⟨-, hne, hbytes⟩
      · obtain ⟨rfl, rfl⟩ := List.cons.inj heq
        obtain ⟨tail, rfl, htail⟩ := ih hrest fun c hc => hb c (List.mem_cons_of_mem b hc)
        exact ⟨tail, rfl, htail⟩
      · obtain ⟨c, encoded, rfl⟩ := List.exists_cons_of_ne_nil hne
        obtain ⟨rfl, -⟩ := List.cons.inj heq
        have := hbytes b (List.mem_cons_self ..)
        omega

/-- A text may be cut in front of the first ASCII byte of a kind. -/
theorem Encodings.span (h : Encodings utf8 wide bytes) {p : UInt8 → Bool}
    (hp : ∀ b : UInt8, 128 ≤ b.toNat → p b = true) :
    ∃ front back, wide = front ++ back ∧ Encodings utf8 front (bytes.takeWhile p) ∧
      Encodings utf8 back (bytes.dropWhile p) := by
  induction wide generalizing bytes with
  | nil =>
    obtain rfl := h.nil_iff.1 rfl
    exact ⟨[], [], rfl, .nil utf8, .nil utf8⟩
  | cons wc wide ih =>
    have hwhole := h
    obtain ⟨encoded, rest, he, rfl, hrest⟩ := h.uncons
    by_cases hall : ∀ b ∈ encoded, p b = true
    · obtain ⟨front, back, rfl, hfront, hback⟩ := ih hrest
      rw [List.takeWhile_append_of_pos hall, List.dropWhile_append_of_pos hall]
      exact ⟨wc :: front, back, rfl, .cons he hfront, hback⟩
    · -- only an ASCII byte can end the front, and it is a character of its own
      rcases encodeValue_bytes he with ⟨b, -, rfl, rfl⟩ | ⟨-, -, hbytes⟩
      · have hno : ¬p b = true := fun hb => hall fun c hc => by rwa [List.mem_singleton.1 hc]
        rw [List.singleton_append, List.takeWhile_cons_of_neg hno, List.dropWhile_cons_of_neg hno]
        exact ⟨[], _, rfl, .nil utf8, hwhole⟩
      · exact absurd (fun b hb => hp b (hbytes b hb)) hall

/-- An ASCII byte of a text is a character of it. -/
theorem Encodings.mem_iff (h : Encodings utf8 wide bytes) {b : UInt8} (hb : b.toNat < 128) :
    (b.toNat : Int) ∈ wide ↔ b ∈ bytes := by
  induction wide generalizing bytes with
  | nil =>
    rw [h.nil_iff.1 rfl]
    exact iff_of_false List.not_mem_nil List.not_mem_nil
  | cons wc wide ih =>
    obtain ⟨encoded, rest, he, rfl, hrest⟩ := h.uncons
    rw [List.mem_cons, List.mem_append, ih hrest]
    refine or_congr_left ?_
    rcases encodeValue_bytes he with ⟨c, -, rfl, rfl⟩ | ⟨hwc, -, hbytes⟩
    · rw [List.mem_singleton]
      exact ⟨fun h => UInt8.toNat_inj.1 (by exact_mod_cast h), fun h => by rw [h]⟩
    · exact iff_of_false (by omega) fun hmem => by
        have := hbytes b hmem
        omega

/-! ## Byte by byte -/

/-- Bytes that give a character one by one give it together, and all of them. -/
theorem Feeds.together {state : MbState} {v : Int} (h : Feeds utf8 state bytes v) :
    ∃ n, (mbrtowcMode (some bytes) state utf8).result = .length n ∧
      (mbrtowcMode (some bytes) state utf8).pwc = some v ∧ max n 1 = bytes.length := by
  induction h with
  | @last state final b v n hd =>
    rw [hd]
    refine ⟨n, rfl, rfl, ?_⟩
    have hconsumes := mode_length (n := n) (by rw [hd])
    rcases hconsumes with ⟨rfl, -⟩ | ⟨hpos, hle, -⟩
    · rfl
    · rw [List.length_singleton] at hle ⊢
      omega
  | @more state next b rest v pwc hd hrest ih =>
    obtain ⟨n, hresult, hpwc, hlen⟩ := ih
    cases utf8 with
    | false =>
      -- the C locale has no character of two bytes
      simp only [mbrtowcMode] at hd
      split at hd
      · contradiction
      split at hd
      · simp at hd
      split at hd <;> simp at hd
    | true =>
      rw [mode_utf8] at hd hresult hpwc ⊢
      rcases loop_head b rest state with ⟨m, c, final, -, h1, -⟩ | ⟨final, h1, -⟩ | ⟨next', hs, h1, h2⟩
      · rw [hd] at h1
        cases h1
      · rw [hd] at h1
        cases h1
      · rw [hd] at h1
        obtain ⟨-, rfl⟩ := (Decoded.mk.injEq ..).mp h1 |>.2
        obtain ⟨hshift, hpos⟩ := @loop_shift rest _ hs 0 1
        rw [h2, hshift]
        have := hpos n hresult
        refine ⟨n + 1, by rw [Decoded.shift, hresult], hpwc, ?_⟩
        rw [List.length_cons, ← hlen]
        omega

/-- They are the encoding of this character. -/
theorem encode_of_feeds {v : Int} (h : Feeds utf8 {} bytes v) : encodeValue v utf8 = some bytes := by
  obtain ⟨n, hresult, hpwc, hlen⟩ := h.together
  cases n with
  | zero =>
    rcases mode_length hresult with ⟨-, hzero, -, rest, rfl⟩ | ⟨hpos, -⟩
    · obtain rfl := Option.some.inj (hpwc.symm.trans hzero)
      have : rest.length = 0 := by
        rw [List.length_cons] at hlen
        omega
      rw [List.length_eq_zero_iff.1 this]
      exact encodeValue_zero utf8
    · cases hpos
  | succ n =>
    have hall : n + 1 = bytes.length := by omega
    have := (encode_of_decode hresult hpwc).1
    rwa [hall, List.take_length] at this

end MiniLibc.Wchar
