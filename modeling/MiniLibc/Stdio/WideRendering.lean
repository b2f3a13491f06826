import MiniLibc.Stdio.AsciiText
import MiniLibc.Stdio.Truncation
import MiniLibc.Stdio.WideFormat
import MiniLibc.Wchar.Boundaries
/-!
# Wide renderings

What a wide format shows, said in wide characters: literals, and fields whose widths
and precisions count characters. The bytes in between are the encoding of this text,
so decoding them gives it back, and a character is never cut.
-/
open MiniLibc.Args MiniLibc.Memory MiniLibc.Wchar

namespace MiniLibc.Stdio

/-! ## The text in wide characters -/

/-- A field: spaces up to the width, which counts characters. -/
def wideField (spec : FormatSpec) (chars : List Int) : List Int :=
  let spaces := List.replicate (spec.width - chars.length) (' '.toNat : Int)
  if spec.left then chars ++ spaces else spaces ++ chars

/-- What `%s` shows of a multibyte string: whole characters, as many as there are or as
the precision allows. -/
structure ShowsString (utf8 : Bool) (spec : FormatSpec) (value : List UInt8) (chars : List Int) : Prop where
  front : ∃ bytes rest, value = bytes ++ rest ∧ Encodings utf8 chars bytes ∧ 0 ∉ bytes ∧
    (byteAt rest = 0 ∨ spec.precisionSet = true ∧ chars.length = spec.precision)
  precise : spec.precisionSet = true → chars.length ≤ spec.precision

/-- What `%ls` shows of a wide string. -/
def wideShown (spec : FormatSpec) (value : List Int) : List Int :=
  let text := value.takeWhile fun c => c ≠ 0
  if spec.precisionSet then text.take spec.precision else text

section Machine

variable {α : Type} (next : α → Fetch → Nat × α) (arrays : Arrays) (utf8 : Bool)

/-- What a conversion of a wide format shows. -/
inductive WideConversion (spec : FormatSpec) (args : α) : List Int → Prop where
  | string {chars : List Int} : spec.conversion = 's'.toNat → spec.length = .none →
      ShowsString utf8 spec ((arrays.narrow (next args .word).1).getD (nullText.map UInt8.ofNat)) chars →
      WideConversion spec args (wideField spec chars)
  | wideString : spec.conversion = 's'.toNat → spec.length = .l →
      WideConversion spec args
        (wideField spec (wideShown spec ((arrays.wide (next args .word).1).getD (nullText.map Nat.cast))))
  | character : spec.conversion = 'c'.toNat → spec.length = .none →
      WideConversion spec args (wideField spec [((unsignedChar (wordToInt (next args .word).1)).toNat : Int)])
  | wideCharacter : spec.conversion = 'c'.toNat → spec.length = .l →
      WideConversion spec args (wideField spec [wordToInt (next args .word).1])
  | percent : spec.conversion = '%'.toNat → WideConversion spec args (wideField spec [('%'.toNat : Int)])
  | number {emission : Emission} {args' : α} {text : List UInt8} :
      (∀ letter ∈ "sc%".toList, spec.conversion ≠ letter.toNat) →
      emitConversion next arrays ⟨utf8, true⟩ spec args = some (emission, args') → emission.text = some text →
      WideConversion spec args (asciiChars text)

/-- The text of a wide format: its literals, and what its conversions show. -/
inductive WideRendering : (format : List Int) → α → List Int → Prop where
  | literal {format : List Int} {args : α} : ('%'.toNat : Int) ∉ format → WideRendering format args format
  | conversion {literal rest field text : List Int} {directive narrow : List UInt8} {args args' args'' : α}
      {spec : FormatSpec} {emission : Emission} : ('%'.toNat : Int) ∉ literal → Encodings utf8 rest narrow →
      parseFormatSpec next (directive ++ narrow) args = some (spec, narrow, args') →
      emitConversion next arrays ⟨utf8, true⟩ spec args' = some (emission, args'') →
      WideConversion next arrays utf8 spec args' field → WideRendering rest args'' text →
      WideRendering (literal ++ ('%'.toNat : Int) :: (asciiChars directive ++ rest)) args (literal ++ field ++ text)

end Machine

/-! ## Fields -/

/-- The text of padded calls. -/
theorem padded_text (spec : FormatSpec) (padding : Nat) (body : Emission) :
    (padded spec padding body).text = body.text.map fun text =>
      if spec.left then text ++ List.replicate padding ' '.toUInt8 else List.replicate padding ' '.toUInt8 ++ text := by
  obtain ⟨calls, error⟩ := body
  have hspace : UInt8.ofNat ' '.toNat = ' '.toUInt8 := rfl
  cases error with
  | some e => rfl
  | none =>
    unfold padded Emission.next Emission.text
    simp only [Option.isSome_none, Bool.false_eq_true, if_false, Option.map_some, rendering_append, rendering_emitSpaces,
      List.map_append, List.map_replicate, hspace]
    cases spec.left <;> simp

theorem spaces_encodings (utf8 : Bool) (n : Nat) :
    Encodings utf8 (List.replicate n (' '.toNat : Int)) (List.replicate n ' '.toUInt8) := by
  have h : Encodings utf8 (asciiChars (List.replicate n ' '.toUInt8)) (List.replicate n ' '.toUInt8) :=
    encodings_ascii utf8 fun b hb => by
      rw [List.eq_of_mem_replicate hb]
      decide
  rwa [asciiChars, List.map_replicate] at h

variable {utf8 : Bool} {spec : FormatSpec}

/-- A body of whole characters makes a field of whole characters. -/
theorem padded_field {chars : List Int} {bytes text : List UInt8} {body : Emission} (hb : body.text = some bytes)
    (hc : Encodings utf8 chars bytes) (ht : (padded spec (spec.width - chars.length) body).text = some text) :
    Encodings utf8 (wideField spec chars) text := by
  rw [padded_text, hb, Option.map_some] at ht
  obtain rfl := Option.some.inj ht
  unfold wideField
  dsimp only
  split
  · exact hc.append (spaces_encodings utf8 _)
  · exact (spaces_encodings utf8 _).append hc

/-- It contains its body. -/
theorem padded_length {padding : Nat} {text : List UInt8} {body : Emission}
    (ht : (padded spec padding body).text = some text) :
    ∃ bytes, body.text = some bytes ∧ bytes.length ≤ text.length := by
  rw [padded_text] at ht
  obtain ⟨bytes, hb, rfl⟩ := Option.map_eq_some_iff.1 ht
  refine ⟨bytes, hb, ?_⟩
  split
  · rw [List.length_append]
    exact Nat.le_add_right _ _
  · rw [List.length_append]
    exact Nat.le_add_left _ _

theorem bytes_text (bytes : List UInt8) : (⟨[.bytes (bytes.map UInt8.toNat)], none⟩ : Emission).text = some bytes := by
  simp [Emission.text, Emit.text, Function.comp_def]

/-! ## Characters -/

theorem emitCharacter_wide {value : Int} {text : List UInt8} (hv : (unsignedChar value).toNat < 128)
    (ht : (emitCharacter spec value).text = some text) :
    Encodings utf8 (wideField spec [((unsignedChar value).toNat : Int)]) text := by
  have hchar : Encodings utf8 (asciiChars [unsignedChar value]) [unsignedChar value] :=
    encodings_ascii utf8 fun b hb => by rwa [List.mem_singleton.1 hb]
  exact padded_field (bytes_text [unsignedChar value]) hchar ht

theorem encodings_one {wc : Int} {bytes : List UInt8} (h : encodeValue wc utf8 = some bytes) :
    Encodings utf8 [wc] bytes := by
  have := Encodings.cons h (.nil utf8)
  rwa [List.append_nil] at this

theorem emitWideCharacter_wide {value : Int} {text : List UInt8}
    (ht : (emitWideCharacter ⟨utf8, true⟩ spec value).text = some text) :
    Encodings utf8 (wideField spec [value]) text := by
  unfold emitWideCharacter at ht
  cases he : encodeWideValue value utf8 with
  | none =>
    rw [he] at ht
    cases ht
  | some bytes =>
    rw [he] at ht
    exact padded_field (bytes_text bytes) (encodings_one he) ht

/-! ## Strings -/

theorem decodeMultibyteLoop_feeds {value : List UInt8} {state : MbState} {used n : Nat} (h0 : byteAt value ≠ 0)
    (h : decodeMultibyteLoop utf8 value state used = some (some n)) :
    ∃ bytes rest v, value = bytes ++ rest ∧ n = used + bytes.length ∧ Feeds utf8 state bytes v ∧ 0 ∉ bytes := by
  induction value generalizing state used with
  | nil => cases h
  | cons byte value ih =>
    have hne : byte ≠ 0 := h0
    have hmem : 0 ∉ [byte] := fun hm => hne (List.mem_singleton.1 hm).symm
    rw [decodeMultibyteLoop] at h
    obtain ⟨⟨result, pwc, next⟩, hd⟩ : ∃ d, mbrtowcMode (some [byte]) state utf8 = d := ⟨_, rfl⟩
    rw [hd] at h
    cases result with
    | eilseq => cases h
    | length m =>
      cases h
      obtain ⟨v, hv⟩ : ∃ v, pwc = some v := by
        have hc := mode_length (show (mbrtowcMode (some [byte]) state utf8).result = .length m by rw [hd])
        rw [hd] at hc
        rcases hc with ⟨-, hv, -⟩ | ⟨-, -, -, v, hv, -⟩
        · exact ⟨0, hv⟩
        · exact ⟨v, hv⟩
      rw [hv] at hd
      exact ⟨[byte], value, v, rfl, rfl, .last hd, hmem⟩
    | incomplete =>
      dsimp only at h
      cases value with
      | nil => cases h
      | cons c value =>
        dsimp only at h
        by_cases hc : c = 0
        · rw [if_pos hc] at h
          cases h
        · rw [if_neg hc] at h
          obtain ⟨bytes, rest, v, heq, hn, hfeeds, hzero⟩ := ih hc h
          refine ⟨byte :: bytes, rest, v, by rw [heq]; rfl, ?_, .more hd hfeeds, fun hm => ?_⟩
          · rw [hn, List.length_cons]
            omega
          · rcases List.mem_cons.1 hm with hm | hm
            · exact hne hm.symm
            · exact hzero hm

/-- A character of a multibyte string. -/
theorem decodeMultibyteCharacter_encoding {value : List UInt8} {n : Nat}
    (h : decodeMultibyteCharacter utf8 value = some (some n)) :
    ∃ wc bytes rest, value = bytes ++ rest ∧ bytes.length = n ∧ encodeValue wc utf8 = some bytes ∧ 0 ∉ bytes := by
  unfold decodeMultibyteCharacter at h
  split at h
  · cases h
  · rename_i h0
    obtain ⟨bytes, rest, v, heq, hn, hfeeds, hzero⟩ := decodeMultibyteLoop_feeds h0 h
    exact ⟨v, bytes, rest, heq, by omega, encode_of_feeds hfeeds, hzero⟩

/-- The characters that the loop of `emit_multibyte_string_wide` counts. -/
theorem multibyteStringLoop_counts {precisionSet : Bool} {precision fuel characters bytesTotal m n : Nat}
    {cursor : List UInt8} (hp : precisionSet = true → characters ≤ precision)
    (h : multibyteStringLoop utf8 precisionSet precision fuel cursor characters bytesTotal = some (.ok (m, n))) :
    ∃ chars bytes rest, cursor = bytes ++ rest ∧ Encodings utf8 chars bytes ∧ 0 ∉ bytes ∧
      m = characters + chars.length ∧ n = bytesTotal + bytes.length ∧ (precisionSet = true → m ≤ precision) ∧
      (byteAt rest = 0 ∨ precisionSet = true ∧ m = precision) := by
  induction fuel generalizing cursor characters bytesTotal with
  | zero => cases h
  | succ fuel ih =>
    cases cursor with
    | nil => cases h
    | cons c cursor =>
      rw [multibyteStringLoop] at h
      by_cases hgo : c ≠ 0 ∧ ((!precisionSet) = true ∨ characters < precision)
      · rw [if_pos hgo] at h
        rcases hd : decodeMultibyteCharacter utf8 (c :: cursor) with _ | _ | length
        · rw [hd] at h
          cases h
        · rw [hd] at h
          cases h
        rw [hd] at h
        dsimp only at h
        split at h
        · cases h
        obtain ⟨wc, encoded, rest, heq, rfl, hwc, hzero⟩ := decodeMultibyteCharacter_encoding hd
        rw [heq, List.drop_left] at h
        obtain ⟨chars, bytes, tail, rfl, hchars, hzero', hm, hn, hprecise, hend⟩ := ih (fun hs => by
          rcases hgo.2 with hno | hlt
          · rw [hs] at hno
            cases hno
          · exact hlt) h
        refine ⟨wc :: chars, encoded ++ bytes, tail, by rw [heq, List.append_assoc], .cons hwc hchars, fun hmem => ?_, ?_,
          ?_, hprecise, hend⟩
        · rcases List.mem_append.1 hmem with hmem | hmem
          · exact hzero hmem
          · exact hzero' hmem
        · rw [hm, List.length_cons]
          omega
        · rw [hn, List.length_append]
          omega
      · rw [if_neg hgo] at h
        cases h
        refine ⟨[], [], c :: cursor, rfl, .nil utf8, List.not_mem_nil, rfl, rfl, hp, ?_⟩
        by_cases hc : c = 0
        · exact .inl hc
        · refine .inr ?_
          have hstop : ¬((!precisionSet) = true ∨ m < precision) := fun h => hgo ⟨hc, h⟩
          rw [not_or, not_lt, Bool.not_eq_true', Bool.not_eq_false] at hstop
          have := hp hstop.1
          exact ⟨hstop.1, by omega⟩

theorem emitMultibyteStringWide_wide {value : Option (List UInt8)} {emission : Emission} {text : List UInt8}
    (h : emitMultibyteStringWide ⟨utf8, true⟩ spec value = some emission) (ht : emission.text = some text) :
    ∃ chars, ShowsString utf8 spec (value.getD (nullText.map UInt8.ofNat)) chars ∧
      Encodings utf8 (wideField spec chars) text := by
  unfold emitMultibyteStringWide at h
  dsimp only at h
  obtain ⟨r, hr, rfl⟩ := Option.map_eq_some_iff.1 h
  rcases r with e | ⟨m, n⟩
  · cases ht
  obtain ⟨chars, bytes, rest, heq, hchars, hzero, hm, hn, hprecise, hend⟩ :=
    multibyteStringLoop_counts (fun _ => Nat.zero_le _) hr
  rw [Nat.zero_add] at hm hn
  subst hm hn
  rw [heq] at ht ⊢
  dsimp only at ht
  rw [List.take_left] at ht
  exact ⟨chars, ⟨⟨bytes, rest, rfl, hchars, hzero, hend⟩, hprecise⟩, padded_field (bytes_text bytes) hchars ht⟩

/-- The characters of a wide string from `characters` on, up to the precision. -/
def shownFrom (precisionSet : Bool) (precision characters : Nat) (value : List Int) : List Int :=
  let text := value.takeWhile fun c => c ≠ 0
  if precisionSet then text.take (precision - characters) else text

theorem shownFrom_end (precisionSet : Bool) (precision characters : Nat) (value : List Int) :
    shownFrom precisionSet precision characters (0 :: value) = [] := by
  simp [shownFrom]

theorem shownFrom_full {precisionSet : Bool} {precision characters : Nat}
    (h : precisionSet = true ∧ characters ≥ precision) (value : List Int) :
    shownFrom precisionSet precision characters value = [] := by
  simp [shownFrom, h.1, Nat.sub_eq_zero_of_le h.2]

theorem shownFrom_cons {precisionSet : Bool} {precision characters : Nat}
    (h : ¬(precisionSet = true ∧ characters ≥ precision)) {c : Int} (hc : c ≠ 0) (value : List Int) :
    shownFrom precisionSet precision characters (c :: value) =
      c :: shownFrom precisionSet precision (characters + 1) value := by
  have hgo : decide (c ≠ 0) = true := by simp [hc]
  unfold shownFrom
  rw [List.takeWhile_cons, if_pos hgo]
  dsimp only
  by_cases hset : precisionSet = true
  · have hlt : characters < precision := by
      by_contra hge
      exact h ⟨hset, by omega⟩
    obtain ⟨room, hroom⟩ : ∃ room, precision - characters = room + 1 := ⟨precision - characters - 1, by omega⟩
    rw [if_pos hset, if_pos hset, hroom, List.take_succ_cons, show precision - (characters + 1) = room by omega]
  · rw [if_neg hset, if_neg hset]

/-- The characters that the first loop of `emit_wide_string` counts. -/
theorem wideStringLoop_counts {precisionSet : Bool} {precision characters bytesTotal m n : Nat} {value : List Int}
    (h : wideStringLoop ⟨utf8, true⟩ precisionSet precision value characters bytesTotal = some (.ok (m, n))) :
    m = characters + (shownFrom precisionSet precision characters value).length ∧
      value.take (m - characters) = shownFrom precisionSet precision characters value ∧
      ∃ bytes, Encodings utf8 (shownFrom precisionSet precision characters value) bytes := by
  induction value generalizing characters bytesTotal with
  | nil => cases h
  | cons c value ih =>
    rw [wideStringLoop] at h
    by_cases hc : c = 0
    · subst hc
      rw [if_pos rfl] at h
      cases h
      rw [shownFrom_end, Nat.sub_self]
      exact ⟨rfl, rfl, [], .nil utf8⟩
    · rw [if_neg hc] at h
      rcases he : encodeWideValue c utf8 with _ | bytes
      · rw [he] at h
        cases h
      rw [he] at h
      dsimp only at h
      by_cases hfull : precisionSet = true ∧ characters ≥ precision
      · rw [if_pos ⟨rfl, hfull⟩] at h
        cases h
        rw [shownFrom_full hfull, Nat.sub_self]
        exact ⟨rfl, rfl, [], .nil utf8⟩
      · rw [if_neg (fun h => hfull h.2), if_neg (fun h => absurd h.1 (by decide))] at h
        split at h
        · cases h
        obtain ⟨hm, htake, encoded, hencoded⟩ := ih h
        rw [shownFrom_cons hfull hc]
        refine ⟨by rw [List.length_cons]; omega, ?_, bytes ++ encoded, .cons he hencoded⟩
        rw [← htake, show m - characters = m - (characters + 1) + 1 by omega, List.take_succ_cons]

theorem emitEncodings_text {wide : List Int} {bytes : List UInt8} (h : Encodings utf8 wide bytes) :
    (emitEncodings utf8 wide).text = some bytes := by
  induction wide generalizing bytes with
  | nil =>
    rw [h.nil_iff.1 rfl]
    rfl
  | cons c wide ih =>
    obtain ⟨encoded, rest, he, rfl, hrest⟩ := h.uncons
    have hcalls := ih hrest
    obtain ⟨⟨calls, error⟩, hemission⟩ : ∃ e, emitEncodings utf8 wide = e := ⟨_, rfl⟩
    rw [hemission] at hcalls
    rw [emitEncodings, show encodeWideValue c utf8 = some encoded from he, hemission]
    cases error with
    | some e => cases hcalls
    | none =>
      have hrendered : (rendering calls).map UInt8.ofNat = rest := Option.some.inj hcalls
      have hback : (encoded.map UInt8.toNat).map UInt8.ofNat = encoded := by simp [Function.comp_def]
      show some ((rendering (.bytes (encoded.map UInt8.toNat) :: calls)).map UInt8.ofNat) = _
      rw [rendering_cons, List.map_append, hrendered]
      exact congrArg (fun l => some (l ++ rest)) hback

theorem emitWideString_wide {value : Option (List Int)} {emission : Emission} {text : List UInt8}
    (h : emitWideString ⟨utf8, true⟩ spec value = some emission) (ht : emission.text = some text)
    (hle : text.length ≤ printfIntMax) :
    Encodings utf8 (wideField spec (wideShown spec (value.getD (nullText.map Nat.cast)))) text := by
  unfold emitWideString at h
  dsimp only at h
  obtain ⟨r, hr, rfl⟩ := Option.map_eq_some_iff.1 h
  rcases r with e | ⟨m, n⟩
  · cases ht
  obtain ⟨hm, htake, bytes, hbytes⟩ := wideStringLoop_counts hr
  have hshown : shownFrom spec.precisionSet spec.precision 0 (value.getD (nullText.map Nat.cast)) =
      wideShown spec (value.getD (nullText.map Nat.cast)) := rfl
  rw [hshown] at hm htake hbytes
  rw [Nat.zero_add] at hm
  rw [Nat.sub_zero] at htake
  dsimp only at ht
  rw [if_pos rfl, htake] at ht
  -- the text holds the characters, so their number does not wrap
  have hbody := emitEncodings_text hbytes
  obtain ⟨bytes', hbytes', hlen⟩ := padded_length ht
  obtain rfl := Option.some.inj (hbytes'.symm.trans hbody)
  have hcount := hbytes.length_le
  unfold printfIntMax at hle
  rw [uint_eq (by omega), hm] at ht
  exact padded_field hbody hbytes ht

/-! ## Conversions -/

/-- Codes as bytes. -/
theorem ascii_bytes {codes : List Nat} (h : AsciiCodes codes) : ∀ b ∈ codes.map UInt8.ofNat, b.toNat < 128 := by
  intro b hb
  obtain ⟨c, hc, rfl⟩ := List.mem_map.1 hb
  have := h c hc
  rw [UInt8.toNat_ofNat']
  omega

section Machine

variable {α : Type} {next : α → Fetch → Nat × α} {arrays : Arrays}

/-- The letter of a number. -/
theorem number_letter {letters : String} (h : (letters.toList.any fun letter => spec.conversion = letter.toNat) = true)
    (hall : ∀ letter ∈ letters.toList, letter.toNat < 128 ∧ ∀ other ∈ "sc%".toList, letter.toNat ≠ other.toNat) :
    spec.conversion < 128 ∧ ∀ other ∈ "sc%".toList, spec.conversion ≠ other.toNat := by
  obtain ⟨letter, hmem, hletter⟩ := List.any_eq_true.1 h
  rw [of_decide_eq_true hletter]
  exact hall letter hmem

/-- ASCII calls show their codes. -/
theorem number_wide {args args' : α} {calls : List Emit} {text : List UInt8}
    (hletter : ∀ other ∈ "sc%".toList, spec.conversion ≠ other.toNat)
    (h : emitConversion next arrays ⟨utf8, true⟩ spec args = some (⟨calls, none⟩, args'))
    (hcalls : AsciiCodes (rendering calls)) (ht : (⟨calls, none⟩ : Emission).text = some text) :
    ∃ field, WideConversion next arrays utf8 spec args field ∧ Encodings utf8 field text := by
  refine ⟨asciiChars text, .number hletter h ht, encodings_ascii utf8 ?_⟩
  rw [← Option.some.inj (ht : some _ = some text)]
  exact ascii_bytes hcalls

/-- A conversion that does not fail shows whole characters, and its letter is ASCII. -/
theorem emitConversion_wide {args args' : α} {emission : Emission} {text : List UInt8}
    (h : emitConversion next arrays ⟨utf8, true⟩ spec args = some (emission, args')) (ht : emission.text = some text)
    (hle : text.length ≤ printfIntMax) :
    spec.conversion < 128 ∧ ∃ field, WideConversion next arrays utf8 spec args field ∧ Encodings utf8 field text := by
  have hwhole := h
  have hinvalid : ¬invalidFormat.text = some text := fun h => by cases h
  unfold emitConversion at h
  dsimp only at h
  split at h
  · rename_i hs
    have hc : spec.conversion = 's'.toNat := by simpa using hs
    refine ⟨by rw [hc]; decide, ?_⟩
    unfold emitStringConversion at h
    split at h
    · rename_i hlength
      dsimp only at h
      rw [if_pos rfl] at h
      obtain ⟨e, he, heq⟩ := Option.map_eq_some_iff.1 h
      cases heq
      obtain ⟨chars, hshows, hfield⟩ := emitMultibyteStringWide_wide he ht
      exact ⟨_, .string hc hlength hshows, hfield⟩
    split at h
    · rename_i hlength
      obtain ⟨e, he, heq⟩ := Option.map_eq_some_iff.1 h
      cases heq
      exact ⟨_, .wideString hc hlength, emitWideString_wide he ht hle⟩
    · cases h
      exact absurd ht hinvalid
  split at h
  · rename_i hs
    have hc : spec.conversion = 'c'.toNat := by simpa using hs
    refine ⟨by rw [hc]; decide, ?_⟩
    have hemission : (emitCharacterConversion next ⟨utf8, true⟩ spec args).1 = emission :=
      congrArg Prod.fst (Option.some.inj h)
    unfold emitCharacterConversion at hemission
    split at hemission
    · rw [← hemission] at ht
      exact absurd ht hinvalid
    dsimp only at hemission
    split at hemission
    · rename_i hlength
      split at hemission
      · rw [← hemission] at ht
        cases ht
      · rename_i hascii
        rw [← hemission] at ht
        exact ⟨_, .character hc hlength, emitCharacter_wide (by simpa [Nat.lt_succ_iff] using hascii) ht⟩
    split at hemission
    · rename_i hlength
      rw [← hemission] at ht
      exact ⟨_, .wideCharacter hc hlength, emitWideCharacter_wide ht⟩
    · rw [← hemission] at ht
      exact absurd ht hinvalid
  split at h
  · rename_i hs
    cases h
    obtain ⟨hlt, hletter⟩ := number_letter hs (by simp)
    exact ⟨hlt, number_wide hletter hwhole (emitNumber_ascii _ _ _ _ _ _) ht⟩
  split at h
  · rename_i hs
    cases h
    obtain ⟨hlt, hletter⟩ := number_letter hs (by simp)
    exact ⟨hlt, number_wide hletter hwhole (emitNumber_ascii _ _ _ _ _ _) ht⟩
  split at h
  · rename_i hs
    obtain ⟨hlt, hletter⟩ := number_letter hs (by simp)
    cases he : emitFloating spec (doubleOfBits (next args .double).1) with
    | none =>
      rw [he] at h
      cases h
      exact absurd ht hinvalid
    | some calls =>
      rw [he] at h
      cases h
      exact ⟨hlt, number_wide hletter hwhole (emitFloating_ascii he) ht⟩
  split at h
  · rename_i hs
    have hc : spec.conversion = '%'.toNat := by simpa using hs
    refine ⟨by rw [hc]; decide, ?_⟩
    split at h
    · cases h
      exact absurd ht hinvalid
    · cases h
      exact ⟨_, .percent hc, emitCharacter_wide (by decide) ht⟩
  · cases h
    exact absurd ht hinvalid

/-! ## The format -/

/-- A pass of the formatter that gives a text: the literal that ends the format, or a
literal, a conversion and the rest. -/
theorem formatTextLoop_cases {mode : SinkMode} {fuel : Nat} {cursor : List UInt8} {args : α} {text : List UInt8}
    (h : formatTextLoop next arrays mode (fuel + 1) cursor args = some (some text)) :
    (byteAt (cursor.dropWhile isLiteral) = 0 ∧ text = cursor.takeWhile isLiteral) ∨
      ∃ spec rest args' emission args'' shown text',
        parseFormatSpec next ((cursor.dropWhile isLiteral).drop 1) args = some (spec, rest, args') ∧
        emitConversion next arrays mode spec args' = some (emission, args'') ∧ emission.text = some shown ∧
        formatTextLoop next arrays mode fuel rest args'' = some (some text') ∧
        byteAt (cursor.dropWhile isLiteral) ≠ 0 ∧ text = cursor.takeWhile isLiteral ++ (shown ++ text') := by
  rw [formatTextLoop] at h
  split at h
  · rename_i hend
    exact .inl ⟨hend, (Option.some.inj (Option.some.inj h)).symm⟩
  rename_i hend
  rcases hparse : parseFormatSpec next ((cursor.dropWhile isLiteral).drop 1) args with _ | ⟨spec, rest, args'⟩
  · rw [hparse] at h
    cases h
  rw [hparse] at h
  dsimp only at h
  rcases hconv : emitConversion next arrays mode spec args' with _ | ⟨emission, args''⟩
  · rw [hconv] at h
    cases h
  rw [hconv] at h
  dsimp only at h
  cases hshown : emission.text with
  | none =>
    rw [hshown, if_pos rfl] at h
    cases h
  | some shown =>
    rw [hshown, if_neg (Option.some_ne_none _)] at h
    obtain ⟨text', htext', heq⟩ := Option.map_eq_some_iff.1 h
    cases text' with
    | none => cases heq
    | some text' =>
      exact .inr ⟨spec, rest, args', emission, args'', shown, text', rfl, hconv, hshown, htext', hend,
        (Option.some.inj heq).symm⟩

/-- The text of a format is the encoding of what its wide format shows. -/
theorem formatTextLoop_wide {fuel : Nat} {format : List Int} {cursor : List UInt8} {args : α} {text : List UInt8}
    (hf : cursor.length ≤ fuel) (hformat : Encodings utf8 format cursor) (h0 : 0 ∉ format)
    (h : formatTextLoop next arrays ⟨utf8, true⟩ fuel cursor args = some (some text)) (hle : text.length ≤ printfIntMax) :
    ∃ wide, WideRendering next arrays utf8 format args wide ∧ Encodings utf8 wide text := by
  have hpercent : ∀ {chars : List Int} {bytes : List UInt8}, Encodings utf8 chars bytes →
      (∀ b ∈ bytes, isLiteral b = true) →
      ('%'.toNat : Int) ∉ chars := fun hchars hbytes hmem =>
    absurd (hbytes '%'.toUInt8 ((hchars.mem_iff (show '%'.toUInt8.toNat < 128 by decide)).1 hmem)) (by decide)
  induction fuel generalizing format cursor args text with
  | zero =>
    obtain rfl := List.eq_nil_of_length_eq_zero (Nat.le_zero.1 hf)
    obtain rfl := hformat.nil_iff.2 rfl
    obtain rfl := Option.some.inj (Option.some.inj h)
    exact ⟨[], .literal List.not_mem_nil, .nil utf8⟩
  | succ fuel ih =>
    have hhigh : ∀ b : UInt8, 128 ≤ b.toNat → isLiteral b = true := by
      intro b hb
      have hzero : b ≠ 0 := fun h => absurd hb (by rw [h]; decide)
      have hpct : b ≠ '%'.toUInt8 := fun h => absurd hb (by rw [h]; decide)
      simp [isLiteral, hzero, hpct]
    obtain ⟨literal, behind, rfl, hliteral, hbehind⟩ := hformat.span hhigh
    have hplain := hpercent hliteral fun b hb => List.mem_takeWhile_imp hb
    rcases formatTextLoop_cases h with ⟨hend, rfl⟩ | ⟨spec, rest, args', emission, args'', shown, text', hparse, hconv,
      hshown, htext', hgo, rfl⟩
    · -- the format has no terminator before its end
      have hnil : cursor.dropWhile isLiteral = [] := by
        cases hrest : cursor.dropWhile isLiteral with
        | nil => rfl
        | cons c tail =>
          rw [hrest] at hend hbehind
          obtain rfl : c = 0 := hend
          exact absurd (List.mem_append_right _ ((hbehind.mem_iff (show (0 : UInt8).toNat < 128 by decide)).2
            (List.mem_cons_self ..))) h0
      rw [hnil] at hbehind
      obtain rfl := hbehind.nil_iff.2 rfl
      rw [List.append_nil]
      exact ⟨literal, .literal hplain, hliteral⟩
    · obtain ⟨tail, htail⟩ : ∃ tail, cursor.dropWhile isLiteral = '%'.toUInt8 :: tail := by
        cases hrest : cursor.dropWhile isLiteral with
        | nil =>
          rw [hrest] at hgo
          exact absurd rfl hgo
        | cons c tail =>
          rw [hrest] at hgo
          have hstop : isLiteral c = false := by
            have := List.head?_dropWhile_not isLiteral cursor
            rw [hrest] at this
            exact this
          have hzero : c ≠ 0 := hgo
          obtain rfl : c = '%'.toUInt8 := by
            by_contra hne
            simp [isLiteral, hzero, hne] at hstop
          exact ⟨tail, rfl⟩
      rw [htail] at hbehind hparse
      rw [List.drop_succ_cons, List.drop_zero] at hparse
      have hlength : tail.length < cursor.length := by
        have := List.length_dropWhile_le isLiteral cursor
        rw [htail, List.length_cons] at this
        omega
      rw [List.length_append, List.length_append] at hle
      obtain ⟨front, c, hsplit, hfront, hletter⟩ := parseFormatSpec_front hparse
      obtain ⟨hlt, field, hfield, hencoded⟩ := emitConversion_wide hconv hshown (by omega)
      obtain ⟨directive, hdirective⟩ : ∃ directive, front ++ [c] = directive := ⟨_, rfl⟩
      obtain rfl : tail = directive ++ rest := by rw [hsplit, ← hdirective, List.append_assoc, List.singleton_append]
      have hascii : ∀ b ∈ directive, b.toNat < 128 := by
        rw [← hdirective]
        intro b hb
        rcases List.mem_append.1 hb with hb | hb
        · exact hfront b hb
        · rw [List.mem_singleton.1 hb]
          omega
      -- the directive is ASCII, so the rest starts with a whole character
      obtain ⟨behind', rfl, hbehind'⟩ := @Encodings.cut utf8 behind ['%'.toUInt8] _ hbehind fun b hb => by
        rw [List.mem_singleton.1 hb]
        decide
      obtain ⟨format', rfl, hformat'⟩ := hbehind'.cut hascii
      have hzero : 0 ∉ format' := fun hm =>
        h0 (List.mem_append_right _ (List.mem_append_right _ (List.mem_append_right _ hm)))
      rw [List.length_append] at hlength
      obtain ⟨wide, hwide, hencoded'⟩ := ih (by omega) hformat' hzero htext' (by omega)
      have hrendering : WideRendering next arrays utf8 (literal ++ ('%'.toNat : Int) :: (asciiChars directive ++ format'))
          args (literal ++ field ++ wide) := .conversion hplain hformat' hparse hconv hfield hwide
      refine ⟨literal ++ field ++ wide, hrendering, ?_⟩
      rw [← List.append_assoc]
      exact (hliteral.append hencoded).append hencoded'

end Machine

end MiniLibc.Stdio
