import MiniLibc.Internal.FloatGrammar
/-!
# The two policies

The policies of the parser differ where a number may go on: with marks, the parser
goes back to the number it has, and without them it fails. So a scan that reads a
number reads the one that `strtod` reads, and where it fails on one, the text stops
inside a part that may follow.
-/
open MiniLibc.LongestMatch

namespace MiniLibc.FloatParse

/-! ## Parts that stop -/

/-- A marker, and no complete exponent. -/
structure IncompleteExponent (marker : Char) (rest : List Nat) : Prop where
  starts : ∃ m tail, rest = m :: tail ∧ asciiEqualCi m marker = true
  stops : ∀ {text tail : List Nat}, rest = text ++ tail → OptionalExponent marker text → text = []

/-- A text in parentheses, without the first one. -/
def Payload (text : List Nat) : Prop := ∃ chars, (∀ c ∈ chars, nanPayloadChar c = true) ∧ text = chars ++ [')'.toNat]

/-- Behind a number comes an incomplete exponent, prefix of a hexadecimal number,
tail of `infinity` or parenthesis. -/
inductive StopsInside : List Nat → List Nat → Prop where
  | exponent {number rest : List Nat} : Mantissa asciiDigit number → IncompleteExponent 'e' rest →
      StopsInside number rest
  | hexExponent {x : Nat} {mantissa rest : List Nat} : asciiEqualCi x 'x' = true → Mantissa asciiHex mantissa →
      IncompleteExponent 'p' rest → StopsInside ('0'.toNat :: x :: mantissa) rest
  | hexPrefix {x : Nat} {rest : List Nat} : asciiEqualCi x 'x' = true → NoMatch (Mantissa asciiHex) rest →
      StopsInside ['0'.toNat] (x :: rest)
  | infinity {number rest : List Nat} {c : Nat} : Word ['i', 'n', 'f'] number → asciiEqualCi c 'i' = true →
      NoMatch (Word ['n', 'i', 't', 'y']) rest → StopsInside number (c :: rest)
  | nan {number rest : List Nat} : Word ['n', 'a', 'n'] number → NoMatch Payload rest →
      StopsInside number ('('.toNat :: rest)

/-! ## Two parses -/

/-- A number was read, in range or not. -/
def Parsed.Converted (parsed : Parsed) : Prop := parsed.status = .success ∨ parsed.status = .rangeFail

/-- The parses are the same, or the scan fails where a part stops. -/
def Compared (Q : List Nat → List Nat → Prop) (input : List Nat) (scan strto : Parsed) : Prop :=
  strto = scan ∨ (scan.status = .matchFail ∧ strto.Converted ∧ ∃ number, input = number ++ strto.rest ∧ Q number strto.rest)

theorem special_converted (convert : Bool) (value : Binary64) (rest : List Nat) : (special convert value rest).Converted :=
  .inl rfl

theorem Parsed.Converted.not_matchFail {parsed : Parsed} (h : parsed.Converted) : parsed.status ≠ .matchFail := by
  intro hno
  unfold Parsed.Converted at h
  rw [hno] at h
  rcases h with h | h <;> cases h

/-- The exponent is the same, or incomplete. -/
theorem parseExponent_compare {marker : Char} {m : Nat} (hm : asciiEqualCi m marker = true) {rest : List Nat}
    (hlen : rest.length < 2 ^ 32) :
    ((parseExponent .scan m rest).1 = .success ∧ parseExponent .strto m rest = parseExponent .scan m rest) ∨
      ((parseExponent .scan m rest).1 = .matchFail ∧ (parseExponent .strto m rest).1 = .success ∧
        (parseExponent .strto m rest).2.2 = m :: rest ∧ IncompleteExponent marker (m :: rest)) := by
  have hback : (parseExponent .strto m rest).2.2 = m :: rest → IncompleteExponent marker (m :: rest) := by
    intro heq
    obtain ⟨text, hlongest⟩ := exponent_longest hm hlen
    rw [heq] at hlongest
    have hnil : text = [] := List.self_eq_append_left.1 hlongest.split
    refine ⟨⟨m, rest, rfl, hm⟩, fun {text' tail} hin he => ?_⟩
    have hle := hlongest.length_le hin he
    rw [hnil] at hle
    exact List.eq_nil_of_length_eq_zero (Nat.le_zero.1 hle)
  obtain ⟨scan, hscan⟩ : ∃ r, parseExponent .scan m rest = r := ⟨_, rfl⟩
  obtain ⟨strto, hstrto⟩ : ∃ r, parseExponent .strto m rest = r := ⟨_, rfl⟩
  rw [hstrto] at hback
  rw [hscan, hstrto]
  unfold parseExponent at hscan hstrto
  cases rest with
  | nil =>
    subst hscan hstrto
    exact .inr ⟨rfl, rfl, rfl, hback rfl⟩
  | cons c rest' =>
    dsimp only at hscan hstrto
    split at hscan
    · rename_i hnil
      rw [hnil] at hstrto
      subst hscan hstrto
      exact .inr ⟨rfl, rfl, rfl, hback rfl⟩
    · rename_i behind hne
      split at hstrto
      · rename_i hnil
        exact absurd hnil hne
      generalize exponentLoop { negative := c = '-'.toNat } 0 (if isSign c = true then rest' else c :: rest') = result
        at hscan hstrto
      obtain ⟨e, digits, rest''⟩ := result
      dsimp only at hscan hstrto
      by_cases h0 : digits = 0
      · rw [if_pos h0] at hscan hstrto
        subst hscan hstrto
        exact .inr ⟨rfl, rfl, rfl, hback rfl⟩
      · rw [if_neg h0] at hscan hstrto
        subst hscan hstrto
        exact .inl ⟨rfl, rfl⟩

section
variable {radix : Radix} (h : radix.Plain)
include h

/-- The numbers of a radix: there is no digit, or both read the number, or its exponent
is incomplete. -/
theorem Radix.Plain.parse_compare (negative convert : Bool) {input : List Nat} (hlen : input.length < 2 ^ 32)
    {scan strto : Parsed} (hscan : radix.parse .scan negative convert input = scan)
    (hstrto : radix.parse .strto negative convert input = strto) :
    (NoMatch (Mantissa radix.digitOf) input ∧ scan.status = .matchFail ∧ strto = scan) ∨
      (scan.Converted ∧ strto = scan) ∨
      (scan.status = .matchFail ∧ strto.Converted ∧ ∃ mantissa, input = mantissa ++ strto.rest ∧
        Mantissa radix.digitOf mantissa ∧ IncompleteExponent radix.marker strto.rest) := by
  have hloop := @digitLoop_eq radix.digitOf radix.digitLimit radix.base {} 0 (Nat.two_pow_pos 32) input
  have hdigits := (mantissaDigits_le (digitIn radix.digitOf) input).trans_lt hlen
  unfold Radix.parse at hscan hstrto
  generalize digitLoop radix.digitOf radix.digitLimit radix.base {} 0 false input = result at hloop hscan hstrto
  obtain ⟨a, digits, rest⟩ := result
  obtain ⟨hcount, hrest⟩ := Prod.mk.inj hloop
  rw [Nat.zero_add, Nat.mod_eq_of_lt hdigits] at hcount
  dsimp only at hcount hrest hscan hstrto
  by_cases h0 : digits = 0
  · rw [if_pos h0] at hscan hstrto
    subst hscan hstrto
    exact .inl ⟨mantissa_none h.point (hcount.symm.trans h0), rfl, rfl⟩
  rw [if_neg h0] at hscan hstrto
  have hfinish : ∀ (e : Exponent) (r : List Nat) (parsed : Parsed), (if convert then
      ⟨(radix.convert negative a e).status, some (radix.convert negative a e).value, r⟩ else ⟨.success, none, r⟩) = parsed →
      parsed.Converted ∧ parsed.rest = r := by
    rintro e r _ rfl
    cases convert
    · exact ⟨.inl rfl, rfl⟩
    · exact ⟨h.convert_status negative a e, rfl⟩
  cases rest with
  | nil =>
    exact .inr (.inl ⟨(hfinish _ _ _ hscan).1, hstrto.symm.trans hscan⟩)
  | cons c rest' =>
    dsimp only at hscan hstrto
    by_cases hc : asciiEqualCi c radix.marker = true
    · obtain ⟨mantissa, hm⟩ := mantissa_longest h.point (hcount ▸ h0)
      rw [← hrest] at hm
      have hlen' : rest'.length < 2 ^ 32 := by
        have := congrArg List.length hm.split
        rw [List.length_append, List.length_cons] at this
        omega
      rw [if_pos hc] at hscan hstrto
      rcases parseExponent_compare hc hlen' with ⟨hsuccess, hsame⟩ | ⟨hfail, hsuccess, hback, hincomplete⟩
      · rw [hsame] at hstrto
        rw [if_pos hsuccess] at hscan hstrto
        exact .inr (.inl ⟨(hfinish _ _ _ hscan).1, hstrto.symm.trans hscan⟩)
      · rw [if_neg (by rw [hfail]; nofun)] at hscan
        rw [if_pos hsuccess, hback] at hstrto
        obtain ⟨hconverted, hleft⟩ := hfinish _ _ _ hstrto
        rw [hleft]
        refine .inr (.inr ⟨?_, hconverted, mantissa, hm.split, hm.holds, hincomplete⟩)
        rw [← hscan]
        exact hfail
    · rw [if_neg hc] at hscan hstrto
      exact .inr (.inl ⟨(hfinish _ _ _ hscan).1, hstrto.symm.trans hscan⟩)

end

theorem parseInfinity_compare (negative convert : Bool) {c : Nat} (hc : asciiEqualCi c 'i' = true) (input : List Nat) :
    Compared StopsInside (c :: input) (parseInfinity .scan negative convert input)
      (parseInfinity .strto negative convert input) := by
  unfold parseInfinity
  rcases matchRequired_cases ['n', 'f'] input with ⟨word, rest, rfl, hword, hr⟩ | ⟨⟨rest, hr⟩, -⟩
  · rw [hr]
    cases rest with
    | nil => exact .inl rfl
    | cons c' rest =>
      dsimp only
      by_cases hi : asciiEqualCi c' 'i' = true
      · rw [if_pos hi, if_pos hi]
        rcases matchRequired_cases ['n', 'i', 't', 'y'] rest with ⟨word', rest', rfl, hword', hr'⟩ | ⟨⟨rest', hr'⟩, hnone⟩
        · rw [hr']
          exact .inl rfl
        · rw [hr']
          exact .inr ⟨rfl, special_converted _ _ _, c :: word, rfl, .infinity (.cons hc hword) hi hnone⟩
      · rw [if_neg hi, if_neg hi]
        exact .inl rfl
  · rw [hr]
    exact .inl rfl

theorem parseNan_compare (negative convert : Bool) {c : Nat} (hc : asciiEqualCi c 'n' = true) (input : List Nat) :
    Compared StopsInside (c :: input) (parseNan .scan negative convert input) (parseNan .strto negative convert input) := by
  unfold parseNan
  rcases matchRequired_cases ['a', 'n'] input with ⟨word, rest, rfl, hword, hr⟩ | ⟨⟨rest, hr⟩, -⟩
  · rw [hr]
    cases rest with
    | nil => exact .inl rfl
    | cons c' rest =>
      dsimp only
      by_cases hp : c' = '('.toNat
      · rw [if_pos hp, if_pos hp]
        -- A payload goes up to the first character that is none of its own.
        have hspan : ∀ {text tail : List Nat}, rest = text ++ tail → Payload text →
            rest.dropWhile nanPayloadChar = ')'.toNat :: tail := by
          rintro _ tail hin ⟨chars, hchars, rfl⟩
          rw [hin, List.append_assoc, List.singleton_append]
          refine (span_unique hchars fun d t hdt => ?_).2
          rw [← (List.cons.inj hdt).1]
          rfl
        cases hdrop : rest.dropWhile nanPayloadChar with
        | nil =>
          refine .inr ⟨rfl, special_converted _ _ _, c :: word, rfl, ?_⟩
          subst hp
          refine .nan (.cons hc hword) fun text tail hin hpayload => ?_
          rw [hspan hin hpayload] at hdrop
          cases hdrop
        | cons d rest' =>
          dsimp only
          by_cases hd : d = ')'.toNat
          · rw [if_pos hd, if_pos hd]
            exact .inl rfl
          · rw [if_neg hd, if_neg hd]
            refine .inr ⟨rfl, special_converted _ _ _, c :: word, rfl, ?_⟩
            subst hp
            refine .nan (.cons hc hword) fun text tail hin hpayload => ?_
            rw [hspan hin hpayload] at hdrop
            exact hd (List.cons.inj hdrop).1.symm
      · rw [if_neg hp, if_neg hp]
        exact .inl rfl
  · rw [hr]
    exact .inl rfl

theorem parseUnsigned_compare (negative convert : Bool) {input : List Nat} (hlen : input.length < 2 ^ 32) :
    Compared StopsInside input (parseUnsigned .scan negative convert input) (parseUnsigned .strto negative convert input) := by
  cases input with
  | nil => exact .inl rfl
  | cons c rest =>
    have hdecimal : Compared StopsInside (c :: rest) (parseDecimal .scan negative convert (c :: rest))
        (parseDecimal .strto negative convert (c :: rest)) := by
      rcases decimal_plain.parse_compare negative convert hlen rfl rfl with
        ⟨-, -, hsame⟩ | ⟨-, hsame⟩ | ⟨hfail, hconverted, mantissa, hsplit, hm, hincomplete⟩
      · exact .inl hsame
      · exact .inl hsame
      · exact .inr ⟨hfail, hconverted, mantissa, hsplit, .exponent hm hincomplete⟩
    unfold parseUnsigned
    dsimp only
    by_cases hi : asciiEqualCi c 'i' = true
    · rw [if_pos hi, if_pos hi]
      exact parseInfinity_compare negative convert hi rest
    rw [if_neg hi, if_neg hi]
    by_cases hn : asciiEqualCi c 'n' = true
    · rw [if_pos hn, if_pos hn]
      exact parseNan_compare negative convert hn rest
    rw [if_neg hn, if_neg hn]
    by_cases h0 : c = '0'.toNat
    · rw [if_pos h0, if_pos h0]
      cases rest with
      | nil => exact hdecimal
      | cons next rest' =>
        dsimp only
        by_cases hx : asciiEqualCi next 'x' = true
        · rw [if_pos hx, if_pos hx]
          have hlen' : rest'.length < 2 ^ 32 := by
            rw [List.length_cons, List.length_cons] at hlen
            omega
          subst h0
          rcases hex_plain.parse_compare negative convert hlen' rfl rfl with
            ⟨hnone, hfail, hsame⟩ | ⟨hconverted, hsame⟩ | ⟨hfail, hconverted, mantissa, hsplit, hm, hincomplete⟩
          · -- Without a digit behind the prefix the number is the zero.
            rw [if_neg (fun hno => nomatch hno.2), if_pos ⟨(congrArg Parsed.status hsame).trans hfail, rfl⟩]
            exact .inr ⟨hfail, special_converted _ _ _, ['0'.toNat], rfl, .hexPrefix hx hnone⟩
          · rw [if_neg (fun hno => nomatch hno.2), if_neg (fun hno => (hsame ▸ hconverted).not_matchFail hno.1)]
            exact .inl hsame
          · rw [if_neg (fun hno => nomatch hno.2), if_neg (fun hno => hconverted.not_matchFail hno.1)]
            exact .inr ⟨hfail, hconverted, _, congrArg (fun l => '0'.toNat :: next :: l) hsplit, .hexExponent hx hm hincomplete⟩
        · rw [if_neg hx, if_neg hx]
          exact hdecimal
    · rw [if_neg h0, if_neg h0]
      exact hdecimal

/-! ## The sign and the white space -/

/-- An optional sign, and a number that stops inside a part. -/
def SignedStop (text rest : List Nat) : Prop :=
  ∃ sign number, text = sign ++ number ∧ OptionalSign sign ∧ StopsInside number rest

theorem parseSigned_compare (convert : Bool) {input : List Nat} (hlen : input.length < 2 ^ 32) :
    Compared SignedStop input (parseSigned .scan convert input) (parseSigned .strto convert input) := by
  cases input with
  | nil => exact .inl rfl
  | cons c rest =>
    unfold parseSigned
    dsimp only
    by_cases hc : isSign c = true
    · rw [if_pos hc, if_pos hc]
      have hlen' : rest.length < 2 ^ 32 := Nat.lt_of_succ_lt hlen
      rcases parseUnsigned_compare (decide (c = '-'.toNat)) convert hlen' with
        hsame | ⟨hfail, hconverted, number, hsplit, hstop⟩
      · exact .inl hsame
      · exact .inr ⟨hfail, hconverted, c :: number, congrArg (List.cons c) hsplit, [c], number, rfl, .sign hc, hstop⟩
    · rw [if_neg hc, if_neg hc]
      rcases parseUnsigned_compare false convert hlen with hsame | ⟨hfail, hconverted, number, hsplit, hstop⟩
      · exact .inl hsame
      · exact .inr ⟨hfail, hconverted, number, hsplit, [], number, rfl, .none, hstop⟩

/-- A width that is not smaller than the text does not cut it. -/
theorem floatParse_wide {width : Nat} {input : List Nat} (h : input.length ≤ width) (policy : Policy) (convert : Bool) :
    floatParse width true policy convert input = parseSigned policy convert (input.dropWhile asciiSpace) := by
  have hle : (input.dropWhile asciiSpace).length ≤ width := (List.dropWhile_sublist _).length_le.trans h
  unfold floatParse
  dsimp only
  rw [if_pos rfl, List.take_of_length_le hle, List.drop_eq_nil_of_le hle, List.append_nil]

/-- The policies without a width that cuts: what a scan reads, `strtod` reads, with
the same value and the same end; and where a scan fails on what `strtod` reads, the
text stops inside a part that may follow the number. -/
theorem policies_agree {width : Nat} (convert : Bool) {input : List Nat} (h : input.length < 2 ^ 32)
    (hwidth : input.length ≤ width) {scan strto : Parsed} (hscan : floatParse width true .scan convert input = scan)
    (hstrto : floatParse widthMax true .strto convert input = strto) :
    (scan.Converted → strto = scan) ∧
      (¬scan.Converted → strto.Converted → ∃ spaces sign number, input = spaces ++ (sign ++ (number ++ strto.rest)) ∧
        (∀ c ∈ spaces, asciiSpace c = true) ∧ OptionalSign sign ∧ StopsInside number strto.rest) := by
  have hmax : widthMax = 2 ^ 64 - 1 := rfl
  have hbehind : (input.dropWhile asciiSpace).length < 2 ^ 32 := (List.dropWhile_sublist _).length_le.trans_lt h
  have hsplit := List.takeWhile_append_dropWhile (p := asciiSpace) (l := input)
  rw [floatParse_wide hwidth] at hscan
  rw [floatParse_wide (by omega)] at hstrto
  subst hscan hstrto
  rcases parseSigned_compare convert hbehind with hsame | ⟨hfail, hconverted, text, htext, sign, number, rfl, hsign, hstop⟩
  · refine ⟨fun _ => hsame, fun hno hyes => absurd (hsame ▸ hyes) hno⟩
  · refine ⟨fun hyes => absurd hfail hyes.not_matchFail, fun _ _ => ?_⟩
    refine ⟨input.takeWhile asciiSpace, sign, number, ?_, fun c hc => List.mem_takeWhile_imp hc, hsign, hstop⟩
    rw [← List.append_assoc sign, ← htext, hsplit]

end MiniLibc.FloatParse
