import MiniLibc.Internal.FloatParse
import MiniLibc.Lib.LongestMatch
/-!
# The grammar of a floating number

What a floating number is as text, apart from the parser, and the parser against
it: with marks to go back to, it reads the longest number at the front of its
input.
-/
open MiniLibc.LongestMatch

namespace MiniLibc.FloatParse

/-! ## The grammar -/

/-- The characters of a radix. -/
def digitIn (digitOf : Nat → Option Nat) (c : Nat) : Bool := (digitOf c).isSome

def AllDigits (digitOf : Nat → Option Nat) (text : List Nat) : Prop := ∀ c ∈ text, digitIn digitOf c = true

/-- Digits with at most one point among them, and at least one digit. -/
inductive Mantissa (digitOf : Nat → Option Nat) : List Nat → Prop where
  | whole {text : List Nat} : text ≠ [] → AllDigits digitOf text → Mantissa digitOf text
  | point {whole fraction : List Nat} : AllDigits digitOf whole → AllDigits digitOf fraction → whole ++ fraction ≠ [] →
      Mantissa digitOf (whole ++ '.'.toNat :: fraction)

inductive OptionalSign : List Nat → Prop where
  | none : OptionalSign []
  | sign {c : Nat} : isSign c = true → OptionalSign [c]

/-- Nothing, or a marker, an optional sign and at least one digit. -/
inductive OptionalExponent (marker : Char) : List Nat → Prop where
  | none : OptionalExponent marker []
  | complete {m : Nat} {sign digits : List Nat} : asciiEqualCi m marker = true → OptionalSign sign → digits ≠ [] →
      AllDigits asciiDigit digits → OptionalExponent marker (m :: (sign ++ digits))

/-- The letters of a word, in any case. -/
def Word (letters : List Char) (text : List Nat) : Prop :=
  List.Forall₂ (fun letter c => asciiEqualCi c letter = true) letters text

/-- A number without its sign. -/
inductive Magnitude : List Nat → Prop where
  | decimal {mantissa exponent : List Nat} : Mantissa asciiDigit mantissa → OptionalExponent 'e' exponent →
      Magnitude (mantissa ++ exponent)
  | hex {x : Nat} {mantissa exponent : List Nat} : asciiEqualCi x 'x' = true → Mantissa asciiHex mantissa →
      OptionalExponent 'p' exponent → Magnitude ('0'.toNat :: x :: (mantissa ++ exponent))
  | inf {text : List Nat} : Word ['i', 'n', 'f'] text → Magnitude text
  | infinity {text : List Nat} : Word ['i', 'n', 'f', 'i', 'n', 'i', 't', 'y'] text → Magnitude text
  | nan {text : List Nat} : Word ['n', 'a', 'n'] text → Magnitude text
  | payload {text chars : List Nat} : Word ['n', 'a', 'n'] text → (∀ c ∈ chars, nanPayloadChar c = true) →
      Magnitude (text ++ '('.toNat :: (chars ++ [')'.toNat]))

/-- White space, an optional sign, and a number. -/
def FloatText (text : List Nat) : Prop :=
  ∃ spaces sign magnitude, text = spaces ++ (sign ++ magnitude) ∧ (∀ c ∈ spaces, asciiSpace c = true) ∧
    OptionalSign sign ∧ Magnitude magnitude

/-! ## The mantissa -/

/-- What is left behind the digits and the point. -/
def mantissaRest (digit : Nat → Bool) (input : List Nat) : List Nat :=
  match input.dropWhile digit with
  | [] => []
  | c :: rest => if c = '.'.toNat then rest.dropWhile digit else c :: rest

/-- How many digits there are before it. -/
def mantissaDigits (digit : Nat → Bool) (input : List Nat) : Nat :=
  (input.takeWhile digit).length + match input.dropWhile digit with
    | [] => 0
    | c :: rest => if c = '.'.toNat then (rest.takeWhile digit).length else 0

theorem mantissaDigits_le (digit : Nat → Bool) (input : List Nat) : mantissaDigits digit input ≤ input.length := by
  have hsplit := congrArg List.length (List.takeWhile_append_dropWhile (p := digit) (l := input))
  rw [List.length_append] at hsplit
  unfold mantissaDigits
  split
  · omega
  · rename_i c rest heq
    rw [heq, List.length_cons] at hsplit
    have hle := (List.takeWhile_sublist digit (l := rest)).length_le
    split <;> omega

section
variable {digitOf : Nat → Option Nat} {digitLimit base : Nat}

theorem digitLoop_after (a : Digits) {n : Nat} (hn : n < 2 ^ 32) (input : List Nat) :
    (digitLoop digitOf digitLimit base a n true input).2 =
      ((n + (input.takeWhile (digitIn digitOf)).length) % 2 ^ 32,
        input.dropWhile (digitIn digitOf)) := by
  induction input generalizing a n with
  | nil =>
    simp only [digitLoop, List.takeWhile_nil, List.length_nil, Nat.add_zero, List.dropWhile_nil]
    rw [Nat.mod_eq_of_lt hn]
  | cons c rest ih =>
    unfold digitLoop
    cases hc : digitOf c with
    | none =>
      have hd : ¬ digitIn digitOf c = true := by simp [digitIn, hc]
      rw [List.takeWhile_cons_of_neg hd, List.dropWhile_cons_of_neg hd, List.length_nil]
      dsimp only
      rw [if_neg (by simp)]
      exact Prod.ext (Nat.mod_eq_of_lt hn).symm rfl
    | some digit =>
      have hd : digitIn digitOf c = true := by simp [digitIn, hc]
      dsimp only
      rw [ih _ (Nat.mod_lt _ (by positivity)), Nat.mod_add_mod, List.takeWhile_cons_of_pos hd,
        List.dropWhile_cons_of_pos hd, List.length_cons, Nat.add_right_comm, Nat.add_assoc]

theorem digitLoop_eq (a : Digits) {n : Nat} (hn : n < 2 ^ 32) (input : List Nat) :
    (digitLoop digitOf digitLimit base a n false input).2 =
      ((n + mantissaDigits (digitIn digitOf) input) % 2 ^ 32,
        mantissaRest (digitIn digitOf) input) := by
  induction input generalizing a n with
  | nil =>
    unfold digitLoop mantissaDigits mantissaRest
    rw [List.takeWhile_nil, List.length_nil, List.dropWhile_nil]
    exact Prod.ext (Nat.mod_eq_of_lt hn).symm rfl
  | cons c rest ih =>
    unfold digitLoop
    cases hc : digitOf c with
    | none =>
      have hd : ¬ digitIn digitOf c = true := by simp [digitIn, hc]
      unfold mantissaDigits mantissaRest
      rw [List.takeWhile_cons_of_neg hd, List.dropWhile_cons_of_neg hd, List.length_nil, Nat.zero_add]
      dsimp only
      by_cases hp : c = '.'.toNat
      · rw [if_pos (by simp [hp]), if_pos hp, if_pos hp, digitLoop_after a hn]
      · rw [if_neg fun h => hp h.1, if_neg hp, if_neg hp]
        exact Prod.ext (Nat.mod_eq_of_lt hn).symm rfl
    | some digit =>
      dsimp only
      have hd : digitIn digitOf c = true := by simp [digitIn, hc]
      rw [ih _ (Nat.mod_lt _ (by positivity)), Nat.mod_add_mod]
      unfold mantissaDigits mantissaRest
      rw [List.takeWhile_cons_of_pos hd, List.dropWhile_cons_of_pos hd, List.length_cons]
      refine Prod.ext ?_ rfl
      dsimp only
      congr 1
      omega

/-- A mantissa with its point at the front of an input splits it as the loop does. -/
theorem point_split (hpoint : digitIn digitOf '.'.toNat = false) {whole fraction input rest : List Nat}
    (hw : AllDigits digitOf whole) (hsplit : input = (whole ++ '.'.toNat :: fraction) ++ rest) :
    input.takeWhile (digitIn digitOf) = whole ∧
      input.dropWhile (digitIn digitOf) = '.'.toNat :: (fraction ++ rest) := by
  have hinput : input = whole ++ '.'.toNat :: (fraction ++ rest) := by
    rw [hsplit, List.append_assoc, List.cons_append]
  have hstop : ∀ c t, '.'.toNat :: (fraction ++ rest) = c :: t → digitIn digitOf c = false := by
    intro c t hct
    rw [← (List.cons.inj hct).1]
    exact hpoint
  rw [hinput]
  exact span_unique hw hstop

/-- The loop finds the longest mantissa. -/
theorem mantissa_longest (hpoint : digitIn digitOf '.'.toNat = false) {input : List Nat}
    (h : mantissaDigits (digitIn digitOf) input ≠ 0) :
    ∃ text, Longest (Mantissa digitOf) input text (mantissaRest (digitIn digitOf) input) := by
  have hsplit := List.takeWhile_append_dropWhile (p := digitIn digitOf) (l := input)
  have hwhole : AllDigits digitOf (input.takeWhile (digitIn digitOf)) := fun c hc => List.mem_takeWhile_imp hc
  have hle : ∀ {text rest : List Nat}, input = text ++ rest → AllDigits digitOf text →
      text.length ≤ (input.takeWhile (digitIn digitOf)).length := by
    intro text rest hin hall
    rw [hin]
    exact length_le_takeWhile _ hall
  by_cases hdot : ∃ rest, input.dropWhile (digitIn digitOf) = '.'.toNat :: rest
  · obtain ⟨rest, hrest⟩ := hdot
    have hfraction : AllDigits digitOf (rest.takeWhile (digitIn digitOf)) := fun c hc => List.mem_takeWhile_imp hc
    unfold mantissaDigits at h
    unfold mantissaRest
    rw [hrest] at h ⊢
    dsimp only at h ⊢
    rw [if_pos rfl] at h ⊢
    refine ⟨input.takeWhile (digitIn digitOf) ++ '.'.toNat :: rest.takeWhile (digitIn digitOf), ?_, ?_, ?_⟩
    · rw [List.append_assoc, List.cons_append, List.takeWhile_append_dropWhile, ← hrest, hsplit]
    · refine .point hwhole hfraction fun hnil => h ?_
      rw [← List.length_append, hnil, List.length_nil]
    · intro text' rest' hin hm
      rw [List.length_append, List.length_cons]
      cases hm with
      | whole _ hall =>
        have := hle hin hall
        omega
      | point hw hf _ =>
        obtain ⟨htake, hdrop⟩ := point_split hpoint hw hin
        rw [hrest] at hdrop
        rw [htake, (List.cons.inj hdrop).2, List.length_append, List.length_cons]
        have := length_le_takeWhile rest' hf
        omega
  · have hrest : mantissaRest (digitIn digitOf) input = input.dropWhile (digitIn digitOf) := by
      unfold mantissaRest
      split
      · rename_i heq
        exact heq.symm
      · rename_i c rest heq
        rw [if_neg (fun hc : c = '.'.toNat => hdot ⟨rest, hc ▸ heq⟩), heq]
    have hdigits : mantissaDigits (digitIn digitOf) input = (input.takeWhile (digitIn digitOf)).length := by
      unfold mantissaDigits
      split
      · rfl
      · rename_i c rest heq
        rw [if_neg (fun hc : c = '.'.toNat => hdot ⟨rest, hc ▸ heq⟩), Nat.add_zero]
    rw [hdigits] at h
    refine ⟨input.takeWhile (digitIn digitOf), ?_, ?_, ?_⟩
    · rw [hrest, hsplit]
    · exact .whole (fun hnil => h (by rw [hnil, List.length_nil])) hwhole
    · intro text' rest' hin hm
      cases hm with
      | whole _ hall => exact hle hin hall
      | point hw _ _ => exact absurd ⟨_, (point_split hpoint hw hin).2⟩ hdot

theorem mantissa_none (hpoint : digitIn digitOf '.'.toNat = false) {input : List Nat}
    (h : mantissaDigits (digitIn digitOf) input = 0) : NoMatch (Mantissa digitOf) input := by
  intro text rest hin hm
  unfold mantissaDigits at h
  cases hm with
  | whole hne hall =>
    have hle := length_le_takeWhile rest hall
    have hpos := List.length_pos_iff.2 hne
    rw [← hin] at hle
    omega
  | @point whole fraction hw hf hne =>
    obtain ⟨htake, hdrop⟩ := point_split hpoint hw hin
    rw [htake, hdrop] at h
    dsimp only at h
    rw [if_pos rfl] at h
    have hle := length_le_takeWhile rest hf
    have hpos := List.length_pos_iff.2 hne
    rw [List.length_append] at hpos
    omega

/-- A mantissa up to a character that cannot go on with it is the one the loop finds. -/
theorem mantissa_stop (hpoint : digitIn digitOf '.'.toNat = false) {input text rest : List Nat} {c : Nat}
    (hin : input = text ++ c :: rest) (hm : Mantissa digitOf text) (hc : digitIn digitOf c = false)
    (hdot : c ≠ '.'.toNat) : mantissaRest (digitIn digitOf) input = c :: rest := by
  have hstop : ∀ d t, c :: rest = d :: t → digitIn digitOf d = false := by
    intro d t hdt
    rw [← (List.cons.inj hdt).1]
    exact hc
  unfold mantissaRest
  cases hm with
  | whole _ hall =>
    rw [hin, (span_unique hall hstop).2]
    exact if_neg hdot
  | point hw hf _ =>
    rw [(point_split hpoint hw hin).2]
    dsimp only
    rw [if_pos rfl]
    exact (span_unique hf hstop).2

end

/-! ## The exponent -/

theorem exponentLoop_eq (e : Exponent) {n : Nat} (hn : n < 2 ^ 32) (input : List Nat) :
    (exponentLoop e n input).2 = ((n + (input.takeWhile (digitIn asciiDigit)).length) % 2 ^ 32,
      input.dropWhile (digitIn asciiDigit)) := by
  induction input generalizing e n with
  | nil =>
    unfold exponentLoop
    rw [List.takeWhile_nil, List.length_nil, List.dropWhile_nil]
    exact Prod.ext (Nat.mod_eq_of_lt hn).symm rfl
  | cons c rest ih =>
    unfold exponentLoop
    cases hc : asciiDigit c with
    | none =>
      have hd : ¬ digitIn asciiDigit c = true := by simp [digitIn, hc]
      rw [List.takeWhile_cons_of_neg hd, List.dropWhile_cons_of_neg hd, List.length_nil]
      exact Prod.ext (Nat.mod_eq_of_lt hn).symm rfl
    | some digit =>
      have hd : digitIn asciiDigit c = true := by simp [digitIn, hc]
      dsimp only
      rw [ih _ (Nat.mod_lt _ (by positivity)), Nat.mod_add_mod, List.takeWhile_cons_of_pos hd,
        List.dropWhile_cons_of_pos hd, List.length_cons, Nat.add_right_comm, Nat.add_assoc]

theorem isSign_digit {c : Nat} (h : isSign c = true) : digitIn asciiDigit c = false := by
  unfold isSign at h
  rcases of_decide_eq_true h with rfl | rfl <;> rfl

/-- What follows the sign of an exponent. -/
def behindSign : List Nat → List Nat
  | [] => []
  | c :: rest => if isSign c then rest else c :: rest

theorem behindSign_split (input : List Nat) : ∃ sign, OptionalSign sign ∧ input = sign ++ behindSign input := by
  cases input with
  | nil => exact ⟨[], .none, rfl⟩
  | cons c rest =>
    by_cases hc : isSign c = true
    · exact ⟨[c], .sign hc, by simp [behindSign, hc]⟩
    · exact ⟨[], .none, by simp [behindSign, hc]⟩

/-- A sign in front of something that does not start with one is split off. -/
theorem behindSign_unique {sign body : List Nat} (hsign : OptionalSign sign)
    (hbody : ∀ c t, body = c :: t → isSign c = false) : behindSign (sign ++ body) = body := by
  cases hsign with
  | sign hc => exact if_pos hc
  | none =>
    rw [List.nil_append]
    cases body with
    | nil => rfl
    | cons c t => exact if_neg (by simp [hbody c t rfl])

theorem parseExponent_strto (m : Nat) {rest : List Nat} (hlen : rest.length < 2 ^ 32) :
    (parseExponent .strto m rest).1 = .success ∧
      (parseExponent .strto m rest).2.2 =
        if (behindSign rest).takeWhile (digitIn asciiDigit) = [] then m :: rest
        else (behindSign rest).dropWhile (digitIn asciiDigit) := by
  unfold parseExponent
  cases rest with
  | nil => exact ⟨rfl, rfl⟩
  | cons c rest' =>
    dsimp only
    have hbehind : (if isSign c = true then rest' else c :: rest') = behindSign (c :: rest') := rfl
    rw [hbehind]
    have hlen' : (behindSign (c :: rest')).length < 2 ^ 32 := by
      obtain ⟨sign, -, hsplit⟩ := behindSign_split (c :: rest')
      rw [hsplit, List.length_append] at hlen
      omega
    split
    · rename_i hnil
      rw [hnil]
      exact ⟨rfl, rfl⟩
    · have hloop := exponentLoop_eq { negative := c = '-'.toNat } (Nat.two_pow_pos 32) (behindSign (c :: rest'))
      generalize exponentLoop { negative := c = '-'.toNat } 0 (behindSign (c :: rest')) = result at hloop ⊢
      obtain ⟨e, digits, rest''⟩ := result
      obtain ⟨hdigits, hrest⟩ := Prod.mk.inj hloop
      have htake := (List.takeWhile_sublist (digitIn asciiDigit) (l := behindSign (c :: rest'))).length_le
      rw [Nat.zero_add, Nat.mod_eq_of_lt (by omega)] at hdigits
      dsimp only at hdigits hrest ⊢
      rw [hdigits]
      by_cases h0 : (behindSign (c :: rest')).takeWhile (digitIn asciiDigit) = []
      · rw [if_pos (by rw [h0, List.length_nil]), if_pos h0]
        exact ⟨rfl, rfl⟩
      · rw [if_neg (fun h => h0 (List.eq_nil_of_length_eq_zero h)), if_neg h0]
        exact ⟨rfl, hrest⟩

/-- Behind its marker the exponent that is complete, or none. -/
theorem exponent_longest {marker : Char} {m : Nat} (hm : asciiEqualCi m marker = true) {rest : List Nat}
    (hlen : rest.length < 2 ^ 32) :
    ∃ text, Longest (OptionalExponent marker) (m :: rest) text (parseExponent .strto m rest).2.2 := by
  rw [(parseExponent_strto m hlen).2]
  obtain ⟨sign, hsign, hsplit⟩ := behindSign_split rest
  -- The digits of an exponent are those behind the sign.
  have hdigits : ∀ {m' : Nat} {sign' digits rest' : List Nat}, m :: rest = (m' :: (sign' ++ digits)) ++ rest' →
      OptionalSign sign' → digits ≠ [] → AllDigits asciiDigit digits → behindSign rest = digits ++ rest' := by
    intro m' sign' digits rest' hin hs hne hall
    rw [List.cons_append, List.append_assoc] at hin
    rw [(List.cons.inj hin).2]
    refine behindSign_unique hs fun c t hct => ?_
    obtain ⟨d, digits', rfl⟩ := List.exists_cons_of_ne_nil hne
    rw [List.cons_append] at hct
    rw [← (List.cons.inj hct).1]
    by_contra hc
    have := isSign_digit ((Bool.not_eq_false _).mp hc)
    rw [hall d (List.mem_cons_self ..)] at this
    cases this
  split
  · rename_i hnone
    refine ⟨[], rfl, .none, ?_⟩
    intro text' rest' hin he
    cases he with
    | none => exact Nat.le_refl 0
    | complete _ hs hne hall =>
      have hle := length_le_takeWhile rest' hall
      rw [← hdigits hin hs hne hall, hnone] at hle
      exact absurd (List.eq_nil_of_length_eq_zero (Nat.le_zero.1 hle)) hne
  · rename_i hsome
    refine ⟨m :: (sign ++ (behindSign rest).takeWhile (digitIn asciiDigit)), ?_, ?_, ?_⟩
    · rw [List.cons_append, List.append_assoc, List.takeWhile_append_dropWhile, ← hsplit]
    · exact .complete hm hsign hsome fun c hc => List.mem_takeWhile_imp hc
    · intro text' rest' hin he
      cases he with
      | none => exact Nat.zero_le _
      | @complete m' sign' digits _ hs hne hall =>
        have hle := length_le_takeWhile rest' hall
        have hbehind := hdigits hin hs hne hall
        rw [← hbehind] at hle
        rw [List.cons_append, List.append_assoc, ← hbehind] at hin
        have hsame := congrArg List.length ((List.cons.inj hin).2.symm.trans hsplit)
        simp only [List.length_append, List.length_cons] at hsame ⊢
        omega

/-! ## Numbers of a radix -/

theorem finishRange_status (value : Binary64) : (finishRange value).status = .success ∨ (finishRange value).status = .rangeFail := by
  unfold finishRange
  generalize (if value.less Binary64.zero = true then value.negate else value) = magnitude
  dsimp only
  split
  · exact .inr rfl
  · exact .inl rfl

theorem scale_status (powers : List Binary64) (bound : Int) (significand : Nat) (exponent : Int) (negative : Bool) :
    (scale powers bound significand exponent negative).status = .success ∨
      (scale powers bound significand exponent negative).status = .rangeFail := by
  unfold scale
  split
  · exact .inl rfl
  split
  · exact .inr rfl
  split
  · exact .inr rfl
  split
  · exact .inr rfl
  · exact .inr rfl
  · split
    · exact .inr rfl
    · exact finishRange_status _

/-- A radix whose point and marker are no digits, and whose scaling succeeds or is
out of range. -/
structure Radix.Plain (radix : Radix) : Prop where
  point : digitIn radix.digitOf '.'.toNat = false
  marker : ∀ c, asciiEqualCi c radix.marker = true → digitIn radix.digitOf c = false ∧ c ≠ '.'.toNat
  scale : ∀ significand exponent negative, (radix.scale significand exponent negative).status = .success ∨
    (radix.scale significand exponent negative).status = .rangeFail

theorem asciiEqualCi_cases {c : Nat} {lower : Char} (h : asciiEqualCi c lower = true) :
    c = lower.toNat ∨ c + 32 = lower.toNat := of_decide_eq_true h

theorem decimal_plain : decimal.Plain where
  point := rfl
  marker c hc := by
    have hcases : c = 101 ∨ c + 32 = 101 := asciiEqualCi_cases hc
    obtain rfl | rfl : c = 101 ∨ c = 69 := by omega
    · exact ⟨rfl, by decide⟩
    · exact ⟨rfl, by decide⟩
  scale := scale_status decimalPowers 511

theorem hex_plain : hex.Plain where
  point := rfl
  marker c hc := by
    have hcases : c = 112 ∨ c + 32 = 112 := asciiEqualCi_cases hc
    obtain rfl | rfl : c = 112 ∨ c = 80 := by omega
    · exact ⟨rfl, by decide⟩
    · exact ⟨rfl, by decide⟩
  scale := scale_status binaryPowers 2047

theorem Radix.Plain.convert_status {radix : Radix} (h : radix.Plain) (negative : Bool) (a : Digits) (e : Exponent) :
    (radix.convert negative a e).status = .success ∨ (radix.convert negative a e).status = .rangeFail := by
  unfold Radix.convert
  dsimp only
  split
  · exact .inl rfl
  split
  · exact .inr rfl
  · exact h.scale _ _ _

/-- A mantissa and an optional exponent. -/
def Radix.Number (radix : Radix) (text : List Nat) : Prop :=
  ∃ mantissa exponent, text = mantissa ++ exponent ∧ Mantissa radix.digitOf mantissa ∧
    OptionalExponent radix.marker exponent

/-- How a parse ends that has read the longest text of a pattern, or found none. -/
def Reads (P : List Nat → Prop) (input : List Nat) (parsed : Parsed) : Prop :=
  (parsed.status = .matchFail ∧ NoMatch P input) ∨
    ((parsed.status = .success ∨ parsed.status = .rangeFail) ∧ ∃ text, Longest P input text parsed.rest)

section
variable {radix : Radix} (h : radix.Plain)
include h

/-- Behind the longest mantissa comes its exponent. -/
theorem Radix.Plain.number_longest {input mantissa exponent rest rest' : List Nat}
    (hm : Longest (Mantissa radix.digitOf) input mantissa rest) (hrest : rest = mantissaRest (digitIn radix.digitOf) input)
    (he : Longest (OptionalExponent radix.marker) rest exponent rest') :
    Longest radix.Number input (mantissa ++ exponent) rest' where
  split := by rw [hm.split, he.split, List.append_assoc]
  holds := ⟨mantissa, exponent, rfl, hm.holds, he.holds⟩
  length_le {text' t} hin hnumber := by
    obtain ⟨mantissa', exponent', rfl, hm', he'⟩ := hnumber
    rw [List.append_assoc] at hin
    have hle := hm.length_le hin hm'
    rw [List.length_append, List.length_append]
    cases he' with
    | none =>
      rw [List.length_nil]
      omega
    | @complete m sign digits hmark hs hne hall =>
      -- The marker ends the mantissa, so the two mantissas are the same.
      obtain ⟨hmd, hmp⟩ := h.marker m hmark
      rw [List.cons_append] at hin
      have hstop := mantissa_stop h.point hin hm' hmd hmp
      rw [← hrest] at hstop
      have hle' := he.length_le (hstop.trans (List.cons_append ..).symm) (.complete hmark hs hne hall)
      omega

theorem Radix.Plain.parse_reads (negative : Bool) {input : List Nat} (hlen : input.length < 2 ^ 32) :
    Reads radix.Number input (radix.parse .strto negative true input) := by
  have hloop := @digitLoop_eq radix.digitOf radix.digitLimit radix.base {} 0 (Nat.two_pow_pos 32) input
  have hdigits := (mantissaDigits_le (digitIn radix.digitOf) input).trans_lt hlen
  unfold Radix.parse
  generalize digitLoop radix.digitOf radix.digitLimit radix.base {} 0 false input = result at hloop ⊢
  obtain ⟨a, digits, rest⟩ := result
  obtain ⟨hcount, hrest⟩ := Prod.mk.inj hloop
  rw [Nat.zero_add, Nat.mod_eq_of_lt hdigits] at hcount
  dsimp only at hcount hrest ⊢
  by_cases h0 : digits = 0
  · rw [if_pos h0]
    refine .inl ⟨rfl, fun text t hin hnumber => ?_⟩
    obtain ⟨mantissa, exponent, rfl, hm, -⟩ := hnumber
    rw [List.append_assoc] at hin
    exact mantissa_none h.point (hcount.symm.trans h0) mantissa _ hin hm
  rw [if_neg h0]
  obtain ⟨mantissa, hm⟩ := mantissa_longest h.point (hcount ▸ h0)
  rw [← hrest] at hm
  have hnone : ∀ {r : List Nat}, (∀ c t, r = c :: t → asciiEqualCi c radix.marker = false) →
      Longest (OptionalExponent radix.marker) r [] r := by
    intro r hr
    refine ⟨rfl, .none, fun {text' t} hin he => ?_⟩
    cases he with
    | none => exact Nat.le_refl 0
    | complete hmark =>
      have := hr _ _ hin
      rw [hmark] at this
      cases this
  cases rest with
  | nil =>
    refine .inr ⟨h.convert_status negative a {}, mantissa ++ [], ?_⟩
    exact h.number_longest hm hrest (hnone nofun)
  | cons c rest' =>
    dsimp only
    by_cases hc : asciiEqualCi c radix.marker = true
    · rw [if_pos hc]
      have hlen' : rest'.length < 2 ^ 32 := by
        have := congrArg List.length hm.split
        rw [List.length_append, List.length_cons] at this
        omega
      obtain ⟨exponent, he⟩ := exponent_longest hc hlen'
      obtain ⟨hstatus, -⟩ := parseExponent_strto c hlen'
      generalize parseExponent .strto c rest' = result at he hstatus ⊢
      obtain ⟨status, e, rest''⟩ := result
      dsimp only at he hstatus ⊢
      rw [if_pos hstatus]
      exact .inr ⟨h.convert_status negative a e, _, h.number_longest hm hrest he⟩
    · rw [if_neg hc]
      refine .inr ⟨h.convert_status negative a {}, mantissa ++ [], h.number_longest hm hrest (hnone ?_)⟩
      intro d t hdt
      rw [← (List.cons.inj hdt).1]
      simpa using hc

end

/-! ## Words -/

theorem Word.length {letters : List Char} {text : List Nat} (h : Word letters text) : text.length = letters.length :=
  (List.Forall₂.length_eq h).symm

/-- A required word is at the front of the input, or is not. -/
theorem matchRequired_cases (letters : List Char) (input : List Nat) :
    (∃ word rest, input = word ++ rest ∧ Word letters word ∧ matchRequired letters input = (.success, rest)) ∨
      ((∃ rest, matchRequired letters input = (.matchFail, rest)) ∧ NoMatch (Word letters) input) := by
  induction letters generalizing input with
  | nil => exact .inl ⟨[], input, rfl, .nil, by cases input <;> rfl⟩
  | cons letter letters ih =>
    have hcons : ∀ {text rest : List Nat}, input = text ++ rest → Word (letter :: letters) text →
        ∃ c t, text = c :: t ∧ input = c :: (t ++ rest) ∧ asciiEqualCi c letter = true ∧ Word letters t := by
      intro text rest hin hw
      cases hw with
      | cons hc ht => exact ⟨_, _, rfl, hin, hc, ht⟩
    cases input with
    | nil =>
      refine .inr ⟨⟨[], rfl⟩, fun text rest hin hw => ?_⟩
      obtain ⟨c, t, -, hnil, -⟩ := hcons hin hw
      cases hnil
    | cons c input =>
      unfold matchRequired
      by_cases hc : asciiEqualCi c letter = true
      · rw [if_pos hc]
        rcases ih input with ⟨word, rest, rfl, hword, hr⟩ | ⟨hr, hnone⟩
        · exact .inl ⟨c :: word, rest, rfl, .cons hc hword, hr⟩
        · refine .inr ⟨hr, fun text rest hin hw => ?_⟩
          obtain ⟨d, t, -, heq, -, ht⟩ := hcons hin hw
          exact hnone t rest (List.cons.inj heq).2 ht
      · rw [if_neg hc]
        refine .inr ⟨⟨_, rfl⟩, fun text rest hin hw => ?_⟩
        obtain ⟨d, t, -, heq, hd, -⟩ := hcons hin hw
        exact hc ((List.cons.inj heq).1 ▸ hd)

/-- A word of two parts. -/
theorem Word.split {letters letters' : List Char} {text : List Nat} (h : Word (letters ++ letters') text) :
    ∃ word word', text = word ++ word' ∧ Word letters word ∧ Word letters' word' := by
  induction letters generalizing text with
  | nil => exact ⟨[], text, rfl, .nil, h⟩
  | cons letter letters ih =>
    cases h with
    | @cons _ c _ _ hc ht =>
      obtain ⟨word, word', rfl, hw, hw'⟩ := ih ht
      exact ⟨c :: word, word', rfl, .cons hc hw, hw'⟩

/-! ## How a number starts -/

theorem Mantissa.head {digitOf : Nat → Option Nat} {text : List Nat} (h : Mantissa digitOf text) :
    ∃ c t, text = c :: t ∧ (digitIn digitOf c = true ∨ c = '.'.toNat) := by
  cases h with
  | whole hne hall =>
    obtain ⟨c, t, rfl⟩ := List.exists_cons_of_ne_nil hne
    exact ⟨c, t, rfl, .inl (hall c (List.mem_cons_self ..))⟩
  | @point whole fraction hw _ _ =>
    cases whole with
    | nil => exact ⟨_, _, rfl, .inr rfl⟩
    | cons c t => exact ⟨c, _, rfl, .inl (hw c (List.mem_cons_self ..))⟩

theorem digit_not_letter {c : Nat} (h : digitIn asciiDigit c = true ∨ c = '.'.toNat) :
    asciiEqualCi c 'i' = false ∧ asciiEqualCi c 'n' = false := by
  have hrange : c < 58 := by
    rcases h with h | rfl
    · unfold digitIn asciiDigit at h
      split at h
      · rename_i hc
        exact Nat.lt_succ_of_le hc.2
      · cases h
    · decide
  constructor <;> refine decide_eq_false ?_
  · rintro (h | h)
    · exact absurd (h ▸ hrange) (by decide)
    · have : c + 32 = 105 := h
      omega
  · rintro (h | h)
    · exact absurd (h ▸ hrange) (by decide)
    · have : c + 32 = 110 := h
      omega

theorem letters_apart {c : Nat} (hi : asciiEqualCi c 'i' = true) (hn : asciiEqualCi c 'n' = true) : False := by
  have h1 : c = 105 ∨ c + 32 = 105 := asciiEqualCi_cases hi
  have h2 : c = 110 ∨ c + 32 = 110 := asciiEqualCi_cases hn
  omega

/-- What a number is by its first character. -/
theorem magnitude_head {text : List Nat} (h : Magnitude text) :
    ∃ c t, text = c :: t ∧
      ((asciiEqualCi c 'i' = true ∧ (Word ['i', 'n', 'f'] text ∨ Word ['i', 'n', 'f', 'i', 'n', 'i', 't', 'y'] text)) ∨
      (asciiEqualCi c 'n' = true ∧ (Word ['n', 'a', 'n'] text ∨ ∃ word chars, Word ['n', 'a', 'n'] word ∧
        (∀ c ∈ chars, nanPayloadChar c = true) ∧ text = word ++ '('.toNat :: (chars ++ [')'.toNat]))) ∨
      ((digitIn asciiDigit c = true ∨ c = '.'.toNat) ∧ (decimal.Number text ∨
        ∃ x t', text = '0'.toNat :: x :: t' ∧ asciiEqualCi x 'x' = true ∧ hex.Number t'))) := by
  cases h with
  | @decimal mantissa exponent hm he =>
    obtain ⟨c, t, rfl, hc⟩ := hm.head
    exact ⟨c, _, rfl, .inr (.inr ⟨hc, .inl ⟨_, exponent, rfl, hm, he⟩⟩)⟩
  | @hex x mantissa exponent hx hm he =>
    exact ⟨_, _, rfl, .inr (.inr ⟨.inl rfl, .inr ⟨x, _, rfl, hx, mantissa, exponent, rfl, hm, he⟩⟩)⟩
  | inf hw =>
    cases hw with
    | cons hc ht => exact ⟨_, _, rfl, .inl ⟨hc, .inl (.cons hc ht)⟩⟩
  | infinity hw =>
    cases hw with
    | cons hc ht => exact ⟨_, _, rfl, .inl ⟨hc, .inr (.cons hc ht)⟩⟩
  | nan hw =>
    cases hw with
    | cons hc ht => exact ⟨_, _, rfl, .inr (.inl ⟨hc, .inl (.cons hc ht)⟩)⟩
  | @payload word chars hw hchars =>
    cases hw with
    | cons hc ht => exact ⟨_, _, rfl, .inr (.inl ⟨hc, .inr ⟨_, chars, .cons hc ht, hchars, rfl⟩⟩)⟩

/-- After its first character a word is what was required. -/
theorem Word.tail {letter : Char} {letters letters' : List Char} {c : Nat} {input text rest : List Nat}
    (hin : c :: input = text ++ rest) (h : Word (letter :: (letters ++ letters')) text) :
    ∃ word word', text = c :: (word ++ word') ∧ input = word ++ (word' ++ rest) ∧ Word letters word ∧ Word letters' word' := by
  cases h with
  | cons hc ht =>
    obtain ⟨word, word', rfl, hw, hw'⟩ := Word.split ht
    rw [List.cons_append, List.append_assoc] at hin
    obtain ⟨rfl, rfl⟩ := List.cons.inj hin
    exact ⟨word, word', rfl, rfl, hw, hw'⟩

/-- Two words of as many letters at the front of one input are the same. -/
theorem Word.same {letters letters' : List Char} {word word' rest rest' : List Nat} (h : Word letters word)
    (h' : Word letters' word') (hlen : letters.length = letters'.length) (hin : word ++ rest = word' ++ rest') :
    word = word' ∧ rest = rest' :=
  List.append_inj hin (h.length.trans (hlen.trans h'.length.symm))

theorem parseInfinity_reads (negative : Bool) {c : Nat} (hc : asciiEqualCi c 'i' = true) (input : List Nat) :
    Reads Magnitude (c :: input) (parseInfinity .strto negative true input) := by
  -- A number at the front of this input is `inf` or `infinity`.
  have hcases : ∀ {text rest : List Nat}, c :: input = text ++ rest → Magnitude text →
      ∃ word word', text = c :: (word ++ word') ∧ input = word ++ (word' ++ rest) ∧ Word ['n', 'f'] word ∧
        (word' = [] ∨ Word ['i', 'n', 'i', 't', 'y'] word') := by
    intro text rest hin hm
    obtain ⟨d, t, rfl, hd⟩ := magnitude_head hm
    obtain rfl : c = d := (List.cons.inj hin).1
    rcases hd with ⟨-, hw | hw⟩ | ⟨hn, -⟩ | ⟨hdigit, -⟩
    · obtain ⟨word, word', h1, h2, h3, h4⟩ := @Word.tail 'i' ['n', 'f'] [] c input _ rest hin hw
      exact ⟨word, word', h1, h2, h3, .inl (List.eq_nil_of_length_eq_zero h4.length)⟩
    · obtain ⟨word, word', h1, h2, h3, h4⟩ :=
        @Word.tail 'i' ['n', 'f'] ['i', 'n', 'i', 't', 'y'] c input _ rest hin hw
      exact ⟨word, word', h1, h2, h3, .inr h4⟩
    · exact absurd hn fun hn => letters_apart hc hn
    · rw [(digit_not_letter hdigit).1] at hc
      cases hc
  unfold parseInfinity
  rcases matchRequired_cases ['n', 'f'] input with ⟨word, rest, rfl, hword, hr⟩ | ⟨⟨rest, hr⟩, hnone⟩
  · rw [hr]
    have hinf : ∀ {text rest' : List Nat}, c :: (word ++ rest) = text ++ rest' → Magnitude text →
        text = c :: word ∨ ∃ tail, text = c :: (word ++ tail) ∧ Word ['i', 'n', 'i', 't', 'y'] tail ∧
          rest = tail ++ rest' := by
      intro text rest' hin hm
      obtain ⟨word', tail, rfl, hsplit, hword', htail⟩ := hcases hin hm
      obtain ⟨rfl, rfl⟩ := hword.same hword' rfl hsplit
      rcases htail with rfl | htail
      · exact .inl (by rw [List.append_nil])
      · exact .inr ⟨tail, rfl, htail, rfl⟩
    have hshort : (∀ tail rest', rest = tail ++ rest' → ¬ Word ['i', 'n', 'i', 't', 'y'] tail) →
        ∃ text, Longest Magnitude (c :: (word ++ rest)) text rest := by
      intro hno
      refine ⟨c :: word, rfl, .inf (.cons hc hword), fun {text rest'} hin hm => ?_⟩
      rcases hinf hin hm with rfl | ⟨tail, -, htail, hrest⟩
      · exact Nat.le_refl _
      · exact absurd htail (hno tail rest' hrest)
    cases rest with
    | nil =>
      refine .inr ⟨.inl rfl, hshort fun tail rest' hrest htail => ?_⟩
      have := htail.length
      rw [(List.append_eq_nil_iff.1 hrest.symm).1] at this
      cases this
    | cons c' rest =>
      dsimp only
      by_cases hi : asciiEqualCi c' 'i' = true
      · rw [if_pos hi]
        rcases matchRequired_cases ['n', 'i', 't', 'y'] rest with ⟨word', rest', rfl, hword', hr'⟩ | ⟨⟨rest', hr'⟩, hnone⟩
        · rw [hr']
          have hlong : Word ['i', 'n', 'f', 'i', 'n', 'i', 't', 'y'] (c :: (word ++ c' :: word')) :=
            .cons hc (List.rel_append hword (.cons hi hword'))
          refine .inr ⟨.inl rfl, c :: (word ++ c' :: word'), ?_, .infinity hlong, fun {text t} hin hm => ?_⟩
          · rw [List.cons_append, List.append_assoc, List.cons_append]
            rfl
          · rw [hlong.length]
            rcases hinf hin hm with rfl | ⟨tail, rfl, htail, -⟩
            · have := hword.length
              rw [List.length_cons, this]
              decide
            · have h1 := hword.length
              have h2 := htail.length
              rw [List.length_cons, List.length_append, h1, h2]
              exact Nat.le_refl 8
        · rw [hr']
          refine .inr ⟨.inl rfl, hshort fun tail t hrest htail => ?_⟩
          cases htail with
          | cons _ ht =>
            exact hnone _ t (List.cons.inj hrest).2 ht
      · rw [if_neg hi]
        refine .inr ⟨.inl rfl, hshort fun tail t hrest htail => ?_⟩
        cases htail with
        | cons hd _ => exact hi ((List.cons.inj hrest).1 ▸ hd)
  · rw [hr]
    refine .inl ⟨rfl, fun text rest' hin hm => ?_⟩
    obtain ⟨word, word', -, hsplit, hword, -⟩ := hcases hin hm
    exact hnone word _ hsplit hword

theorem parseNan_reads (negative : Bool) {c : Nat} (hc : asciiEqualCi c 'n' = true) (input : List Nat) :
    Reads Magnitude (c :: input) (parseNan .strto negative true input) := by
  -- A number at the front of this input is `nan`, alone or with its parenthesis.
  have hcases : ∀ {text rest : List Nat}, c :: input = text ++ rest → Magnitude text →
      ∃ word tail, text = c :: (word ++ tail) ∧ input = word ++ (tail ++ rest) ∧ Word ['a', 'n'] word ∧
        (tail = [] ∨ ∃ chars, (∀ d ∈ chars, nanPayloadChar d = true) ∧ tail = '('.toNat :: (chars ++ [')'.toNat])) := by
    intro text rest hin hm
    obtain ⟨d, t, htext, hd⟩ := magnitude_head hm
    obtain rfl : c = d := by
      rw [htext] at hin
      exact (List.cons.inj hin).1
    rcases hd with ⟨hi, -⟩ | ⟨-, hw | ⟨word, chars, hw, hchars, rfl⟩⟩ | ⟨hdigit, -⟩
    · exact absurd hi fun hi => letters_apart hi hc
    · obtain ⟨word, word', h1, h2, h3, h4⟩ := @Word.tail 'n' ['a', 'n'] [] c input _ rest hin hw
      exact ⟨word, word', h1, h2, h3, .inl (List.eq_nil_of_length_eq_zero h4.length)⟩
    · rw [List.append_assoc] at hin
      obtain ⟨word', word'', rfl, h2, h3, h4⟩ := @Word.tail 'n' ['a', 'n'] [] c input _ _ hin hw
      obtain rfl := List.eq_nil_of_length_eq_zero h4.length
      refine ⟨word', _, ?_, h2, h3, .inr ⟨chars, hchars, rfl⟩⟩
      rw [List.append_nil, List.cons_append]
    · rw [(digit_not_letter hdigit).2] at hc
      cases hc
  unfold parseNan
  rcases matchRequired_cases ['a', 'n'] input with ⟨word, rest, rfl, hword, hr⟩ | ⟨⟨rest, hr⟩, hnone⟩
  · rw [hr]
    have hnan : ∀ {text rest' : List Nat}, c :: (word ++ rest) = text ++ rest' → Magnitude text →
        text = c :: word ∨ ∃ chars, (∀ d ∈ chars, nanPayloadChar d = true) ∧
          text = c :: (word ++ '('.toNat :: (chars ++ [')'.toNat])) ∧ rest = '('.toNat :: (chars ++ ')'.toNat :: rest') := by
      intro text rest' hin hm
      obtain ⟨word', tail, rfl, hsplit, hword', htail⟩ := hcases hin hm
      obtain ⟨rfl, rfl⟩ := hword.same hword' rfl hsplit
      rcases htail with rfl | ⟨chars, hchars, rfl⟩
      · exact .inl (by rw [List.append_nil])
      · refine .inr ⟨chars, hchars, rfl, ?_⟩
        rw [List.cons_append, List.append_assoc, List.singleton_append]
    have hshort : (∀ chars rest', (∀ d ∈ chars, nanPayloadChar d = true) → rest ≠ '('.toNat :: (chars ++ ')'.toNat :: rest')) →
        ∃ text, Longest Magnitude (c :: (word ++ rest)) text rest := by
      intro hno
      refine ⟨c :: word, rfl, .nan (.cons hc hword), fun {text rest'} hin hm => ?_⟩
      rcases hnan hin hm with rfl | ⟨chars, hchars, -, hrest⟩
      · exact Nat.le_refl _
      · exact absurd hrest (hno chars rest' hchars)
    cases rest with
    | nil => exact .inr ⟨.inl rfl, hshort fun _ _ _ => nofun⟩
    | cons c' rest =>
      dsimp only
      by_cases hp : c' = '('.toNat
      · rw [if_pos hp]
        -- The characters of a payload are all that stand before the parenthesis.
        have hspan : ∀ {chars rest' : List Nat}, (∀ d ∈ chars, nanPayloadChar d = true) →
            rest = chars ++ ')'.toNat :: rest' →
            rest.takeWhile nanPayloadChar = chars ∧ rest.dropWhile nanPayloadChar = ')'.toNat :: rest' := by
          intro chars rest' hchars hrest
          rw [hrest]
          refine span_unique hchars fun d t hdt => ?_
          rw [← (List.cons.inj hdt).1]
          rfl
        have hsplit := List.takeWhile_append_dropWhile (p := nanPayloadChar) (l := rest)
        cases hdrop : rest.dropWhile nanPayloadChar with
        | nil =>
          refine .inr ⟨.inl rfl, hshort fun chars rest' hchars hrest => ?_⟩
          rw [(hspan hchars (List.cons.inj hrest).2).2] at hdrop
          cases hdrop
        | cons d rest' =>
          dsimp only
          by_cases hd : d = ')'.toNat
          · rw [if_pos hd]
            rw [hdrop, hd] at hsplit
            have hchars : ∀ d ∈ rest.takeWhile nanPayloadChar, nanPayloadChar d = true := fun d hd =>
              List.mem_takeWhile_imp hd
            refine .inr ⟨.inl rfl, c :: word ++ '('.toNat :: (rest.takeWhile nanPayloadChar ++ [')'.toNat]), ?_,
              .payload (.cons hc hword) hchars, fun {text t} hin hm => ?_⟩
            · rw [List.append_assoc, List.cons_append, List.cons_append, List.append_assoc, List.singleton_append]
              show _ = c :: (word ++ '('.toNat :: (List.takeWhile nanPayloadChar rest ++ ')'.toNat :: rest'))
              rw [hsplit, hp]
            · rcases hnan hin hm with rfl | ⟨chars, hchars', rfl, hrest⟩
              · rw [List.length_append]
                exact Nat.le_add_right _ _
              · rw [(hspan hchars' (List.cons.inj hrest).2).1]
                exact Nat.le_refl _
          · rw [if_neg hd]
            refine .inr ⟨.inl rfl, hshort fun chars t hchars hrest => ?_⟩
            rw [(hspan hchars (List.cons.inj hrest).2).2] at hdrop
            exact hd (List.cons.inj hdrop).1.symm
      · rw [if_neg hp]
        exact .inr ⟨.inl rfl, hshort fun chars rest' _ hrest => hp (List.cons.inj hrest).1⟩
  · rw [hr]
    refine .inl ⟨rfl, fun text rest' hin hm => ?_⟩
    obtain ⟨word, tail, -, hsplit, hword, -⟩ := hcases hin hm
    exact hnone word _ hsplit hword

/-! ## Numbers without a sign -/

theorem Reads.congr {P Q : List Nat → Prop} {input : List Nat} {parsed : Parsed} (h : Reads P input parsed)
    (hpq : ∀ {text rest : List Nat}, input = text ++ rest → (Q text ↔ P text)) : Reads Q input parsed := by
  rcases h with ⟨hs, hnone⟩ | ⟨hs, text, hlongest⟩
  · exact .inl ⟨hs, hnone.mono fun hin hq => (hpq hin).1 hq⟩
  · exact .inr ⟨hs, text, hlongest.congr hpq⟩

theorem isX_apart {x : Nat} (h : asciiEqualCi x 'x' = true) :
    digitIn asciiDigit x = false ∧ x ≠ '.'.toNat ∧ asciiEqualCi x 'e' = false := by
  have hcases : x = 120 ∨ x + 32 = 120 := asciiEqualCi_cases h
  obtain rfl | rfl : x = 120 ∨ x = 88 := by omega
  · exact ⟨rfl, by decide, rfl⟩
  · exact ⟨rfl, by decide, rfl⟩

/-- In front of the letter of a prefix the decimal number is the zero. -/
theorem zero_longest {x : Nat} (hx : asciiEqualCi x 'x' = true) (rest : List Nat) :
    Longest decimal.Number ('0'.toNat :: x :: rest) ['0'.toNat] (x :: rest) := by
  obtain ⟨hdigit, hdot, hmark⟩ := isX_apart hx
  have hzero : AllDigits asciiDigit ['0'.toNat] := by
    intro c hc
    obtain rfl := List.mem_singleton.1 hc
    rfl
  have hsingle : '0'.toNat :: x :: rest = ['0'.toNat] ++ x :: rest := rfl
  have hrest := mantissa_stop decimal_plain.point hsingle (.whole (List.cons_ne_nil _ _) hzero) hdigit hdot
  have hdigits : mantissaDigits (digitIn asciiDigit) ('0'.toNat :: x :: rest) ≠ 0 := by
    unfold mantissaDigits
    rw [List.takeWhile_cons_of_pos rfl, List.length_cons]
    omega
  obtain ⟨mantissa, hm⟩ := mantissa_longest decimal_plain.point hdigits
  have hone : mantissa = ['0'.toNat] := by
    have hsplit := hm.split
    rw [hrest] at hsplit
    have happ : ['0'.toNat] ++ x :: rest = mantissa ++ x :: rest := hsplit
    exact (List.append_cancel_right happ).symm
  have he : Longest (OptionalExponent decimal.marker) (x :: rest) [] (x :: rest) := by
    refine ⟨rfl, .none, fun {text' t} hin he => ?_⟩
    cases he with
    | none => exact Nat.le_refl 0
    | complete hm' =>
      rw [← (List.cons.inj hin).1] at hm'
      exact absurd (hmark.symm.trans hm') Bool.false_ne_true
  rw [hrest, hone] at hm
  exact decimal_plain.number_longest hm hrest.symm he

theorem parseUnsigned_reads (negative : Bool) {input : List Nat} (hlen : input.length < 2 ^ 32) :
    Reads Magnitude input (parseUnsigned .strto negative true input) := by
  cases input with
  | nil =>
    refine .inl ⟨rfl, fun text rest hin hm => ?_⟩
    obtain ⟨c, t, rfl, -⟩ := magnitude_head hm
    cases hin
  | cons c rest =>
    unfold parseUnsigned
    dsimp only
    by_cases hi : asciiEqualCi c 'i' = true
    · rw [if_pos hi]
      exact parseInfinity_reads negative hi rest
    rw [if_neg hi]
    by_cases hn : asciiEqualCi c 'n' = true
    · rw [if_pos hn]
      exact parseNan_reads negative hn rest
    rw [if_neg hn]
    -- What is left is decimal, or hexadecimal behind a prefix.
    have hcases : ∀ {text t : List Nat}, c :: rest = text ++ t → Magnitude text →
        decimal.Number text ∨ ∃ x t', text = '0'.toNat :: x :: t' ∧ asciiEqualCi x 'x' = true ∧ hex.Number t' := by
      intro text t hin hm
      obtain ⟨d, t', htext, hd⟩ := magnitude_head hm
      rw [htext, List.cons_append] at hin
      obtain rfl : c = d := (List.cons.inj hin).1
      rcases hd with ⟨hi', -⟩ | ⟨hn', -⟩ | ⟨-, hnumber⟩
      · exact absurd hi' hi
      · exact absurd hn' hn
      · exact hnumber
    have hdecimal : (∀ x t, c :: rest = '0'.toNat :: x :: t → ¬ asciiEqualCi x 'x' = true) →
        Reads Magnitude (c :: rest) (parseDecimal .strto negative true (c :: rest)) := by
      intro hno
      refine (decimal_plain.parse_reads negative hlen).congr fun {text t} hin => ⟨fun hm => ?_, fun hd => ?_⟩
      · rcases hcases hin hm with hd | ⟨x, t', rfl, hx, -⟩
        · exact hd
        · exact absurd hx (hno x (t' ++ t) hin)
      · obtain ⟨mantissa, exponent, rfl, hm, he⟩ := hd
        exact .decimal hm he
    by_cases h0 : c = '0'.toNat
    · rw [if_pos h0]
      cases rest with
      | nil => exact hdecimal fun x t hin => nomatch (List.cons.inj hin).2
      | cons next rest' =>
        dsimp only
        by_cases hx : asciiEqualCi next 'x' = true
        · rw [if_pos hx]
          subst h0
          have hlen' : rest'.length < 2 ^ 32 := by
            rw [List.length_cons, List.length_cons] at hlen
            omega
          have hzero := zero_longest hx rest'
          rcases hex_plain.parse_reads negative hlen' with ⟨hs, hnone⟩ | ⟨hs, text, hlongest⟩
          · rw [if_pos ⟨hs, rfl⟩]
            refine .inr ⟨.inl rfl, ['0'.toNat], rfl, ?_, fun {text t} hin hm => ?_⟩
            · obtain ⟨mantissa, exponent, heq, hm, he⟩ := hzero.holds
              rw [heq]
              exact .decimal hm he
            · rcases hcases hin hm with hd | ⟨x, t', rfl, -, hnumber⟩
              · exact hzero.length_le hin hd
              · exact absurd hnumber (hnone t' t (List.cons.inj (List.cons.inj hin).2).2)
          · rw [if_neg (by
              rintro ⟨hfail, -⟩
              have hfail' : (hex.parse .strto negative true rest').status = .matchFail := hfail
              rw [hfail'] at hs
              rcases hs with hs | hs <;> cases hs)]
            refine .inr ⟨hs, '0'.toNat :: next :: text, ?_, ?_, fun {text' t} hin hm => ?_⟩
            · rw [List.cons_append, List.cons_append]
              exact congrArg (fun l => '0'.toNat :: next :: l) hlongest.split
            · obtain ⟨mantissa, exponent, rfl, hm, he⟩ := hlongest.holds
              exact .hex hx hm he
            · rcases hcases hin hm with hd | ⟨x, t', rfl, -, hnumber⟩
              · have := hzero.length_le hin hd
                rw [List.length_cons, List.length_cons]
                rw [List.length_singleton] at this
                omega
              · have := hlongest.length_le (List.cons.inj (List.cons.inj hin).2).2 hnumber
                simp only [List.length_cons]
                omega
        · rw [if_neg hx]
          exact hdecimal fun x t hin => (List.cons.inj (List.cons.inj hin).2).1 ▸ hx
    · rw [if_neg h0]
      exact hdecimal fun x t hin => absurd (List.cons.inj hin).1 h0

/-! ## The sign and the white space -/

/-- An optional sign and a number. -/
def Signed (text : List Nat) : Prop := ∃ sign magnitude, text = sign ++ magnitude ∧ OptionalSign sign ∧ Magnitude magnitude

/-- A number does not start with a sign or with white space. -/
theorem magnitude_start {c : Nat} {t : List Nat} (h : Magnitude (c :: t)) : isSign c = false ∧ asciiSpace c = false := by
  obtain ⟨d, t', hcons, hd⟩ := magnitude_head h
  obtain rfl : c = d := (List.cons.inj hcons).1
  have hrange : 46 ≤ c := by
    rcases hd with ⟨hi, -⟩ | ⟨hn, -⟩ | ⟨hdigit, -⟩
    · have : c = 105 ∨ c + 32 = 105 := asciiEqualCi_cases hi
      omega
    · have : c = 110 ∨ c + 32 = 110 := asciiEqualCi_cases hn
      omega
    · rcases hdigit with hdigit | rfl
      · unfold digitIn asciiDigit at hdigit
        split at hdigit
        · rename_i hc
          have : 48 ≤ c := hc.1
          omega
        · cases hdigit
      · decide
  constructor
  · refine decide_eq_false ?_
    rintro (h | h)
    · rw [h] at hrange
      exact absurd hrange (by decide)
    · rw [h] at hrange
      exact absurd hrange (by decide)
  · refine decide_eq_false ?_
    omega

theorem sign_not_space {c : Nat} (h : isSign c = true) : asciiSpace c = false := by
  rcases (of_decide_eq_true h : c = '+'.toNat ∨ c = '-'.toNat) with rfl | rfl <;> rfl

theorem Signed.start {c : Nat} {t : List Nat} (h : Signed (c :: t)) : asciiSpace c = false := by
  obtain ⟨sign, magnitude, heq, hsign, hm⟩ := h
  cases hsign with
  | none =>
    rw [List.nil_append] at heq
    exact (magnitude_start (heq ▸ hm)).2
  | sign hc => exact sign_not_space ((List.cons.inj heq).1 ▸ hc)

theorem magnitude_ne_nil {text : List Nat} (h : Magnitude text) : text ≠ [] := by
  obtain ⟨c, t, rfl, -⟩ := magnitude_head h
  exact List.cons_ne_nil _ _

theorem Signed.ne_nil {text : List Nat} (h : Signed text) : text ≠ [] := by
  obtain ⟨sign, magnitude, rfl, -, hm⟩ := h
  exact List.append_ne_nil_of_right_ne_nil _ (magnitude_ne_nil hm)

/-- A sign behind the white space is taken, and nothing else is. -/
theorem parseSigned_reads {c : Nat} {rest : List Nat} (hlen : (c :: rest).length < 2 ^ 32) :
    Reads Signed (c :: rest) (parseSigned .strto true (c :: rest)) := by
  unfold parseSigned
  dsimp only
  by_cases hc : isSign c = true
  · rw [if_pos hc]
    have hfrom : ∀ {text t : List Nat}, [c] ++ rest = text ++ t → Signed text → ∃ m, text = [c] ++ m ∧ Magnitude m := by
      intro text t hin hs
      obtain ⟨sign, magnitude, rfl, hsign, hm⟩ := hs
      cases hsign with
      | none =>
        obtain ⟨d, t', rfl⟩ := List.exists_cons_of_ne_nil (magnitude_ne_nil hm)
        have hd := (magnitude_start hm).1
        rw [← (List.cons.inj hin).1, hc] at hd
        cases hd
      | sign _ =>
        obtain rfl := (List.cons.inj hin).1
        exact ⟨magnitude, rfl, hm⟩
    have hlen' : rest.length < 2 ^ 32 := Nat.lt_of_succ_lt hlen
    rcases parseUnsigned_reads (decide (c = '-'.toNat)) hlen' with ⟨hs, hnone⟩ | ⟨hs, text, hlongest⟩
    · exact .inl ⟨hs, hnone.behind hfrom⟩
    · exact .inr ⟨hs, [c] ++ text, hlongest.behind (fun hm => ⟨[c], text, rfl, .sign hc, hm⟩) hfrom⟩
  · rw [if_neg hc]
    refine (parseUnsigned_reads false hlen).congr fun {text t} hin => ⟨fun hs => ?_, fun hm => ⟨[], text, rfl, .none, hm⟩⟩
    obtain ⟨sign, magnitude, rfl, hsign, hm⟩ := hs
    cases hsign with
    | none => exact hm
    | sign hd =>
      rw [← (List.cons.inj hin).1] at hd
      exact absurd hd hc

/-- The white space of a number is all that its input starts with. -/
theorem FloatText.behind {input text rest : List Nat} (hin : input = text ++ rest) (h : FloatText text) :
    ∃ t, text = input.takeWhile asciiSpace ++ t ∧ Signed t := by
  obtain ⟨spaces, sign, magnitude, rfl, hspaces, hsign, hm⟩ := h
  have hsigned : Signed (sign ++ magnitude) := ⟨sign, magnitude, rfl, hsign, hm⟩
  have hstop : ∀ c t, sign ++ magnitude ++ rest = c :: t → asciiSpace c = false := by
    intro c t hct
    obtain ⟨d, t', heq⟩ := List.exists_cons_of_ne_nil hsigned.ne_nil
    rw [heq, List.cons_append] at hct
    rw [← (List.cons.inj hct).1]
    exact (heq ▸ hsigned).start
  rw [List.append_assoc] at hin
  rw [hin, (span_unique hspaces hstop).1]
  exact ⟨_, rfl, hsigned⟩

/-! ## The end pointer -/

/-- The end pointer is the start when nothing was read, and behind the number else. -/
theorem parseString_end {nptr : List Nat} {parsed : Parsed}
    (hparsed : floatParse widthMax true .strto true nptr = parsed) :
    (parsed.status = .matchFail → (parseString nptr).2.2 = 0) ∧
      (parsed.status = .success ∨ parsed.status = .rangeFail → (parseString nptr).2.2 = nptr.length - parsed.rest.length) := by
  constructor
  · intro hs
    unfold parseString
    dsimp only
    rw [hparsed, hs]
  · rintro (hs | hs) <;>
      unfold parseString <;>
      dsimp only <;>
      rw [hparsed, hs]

/-- `strtod` stops behind the longest number at the front of its string, and at the
start of the string exactly when there is none. -/
theorem strtod_longest {nptr : List Nat} (h : nptr.length < 2 ^ 32) :
    ((parseString nptr).2.2 = 0 ↔ NoMatch FloatText nptr) ∧
      (¬ NoMatch FloatText nptr →
        Longest FloatText nptr (nptr.take (parseString nptr).2.2) (nptr.drop (parseString nptr).2.2)) := by
  have hsplit := List.takeWhile_append_dropWhile (p := asciiSpace) (l := nptr)
  have hspaces : ∀ c ∈ nptr.takeWhile asciiSpace, asciiSpace c = true := fun c hc => List.mem_takeWhile_imp hc
  have hfrom : ∀ {text t : List Nat}, nptr.takeWhile asciiSpace ++ nptr.dropWhile asciiSpace = text ++ t →
      FloatText text → ∃ t', text = nptr.takeWhile asciiSpace ++ t' ∧ Signed t' := by
    intro text t hin ht
    rw [hsplit] at hin
    exact ht.behind hin
  have hto : ∀ {t : List Nat}, Signed t → FloatText (nptr.takeWhile asciiSpace ++ t) := by
    rintro _ ⟨sign, magnitude, rfl, hsign, hm⟩
    exact ⟨_, sign, magnitude, rfl, hspaces, hsign, hm⟩
  -- The width never cuts the string.
  have hbehind := congrArg List.length hsplit
  rw [List.length_append] at hbehind
  have hwidth : (nptr.dropWhile asciiSpace).length ≤ widthMax := by
    have : widthMax = 2 ^ 64 - 1 := rfl
    omega
  have hparsed : floatParse widthMax true .strto true nptr = parseSigned .strto true (nptr.dropWhile asciiSpace) := by
    unfold floatParse
    dsimp only
    rw [if_pos rfl, List.take_of_length_le hwidth, List.drop_eq_nil_of_le hwidth, List.append_nil]
  have hnone : NoMatch Signed (nptr.dropWhile asciiSpace) → (parseString nptr).2.2 = 0 →
      ((parseString nptr).2.2 = 0 ↔ NoMatch FloatText nptr) ∧ (¬ NoMatch FloatText nptr →
        Longest FloatText nptr (nptr.take (parseString nptr).2.2) (nptr.drop (parseString nptr).2.2)) := by
    intro hno hzero
    have hno' : NoMatch FloatText nptr := by
      have := hno.behind hfrom
      rwa [hsplit] at this
    exact ⟨iff_of_true hzero hno', fun hyes => absurd hno' hyes⟩
  cases hdrop : nptr.dropWhile asciiSpace with
  | nil =>
    rw [hdrop] at hnone hparsed
    refine hnone (fun text rest hin hs => hs.ne_nil (List.append_eq_nil_iff.1 hin.symm).1) ?_
    unfold parseString
    dsimp only
    rw [hparsed]
    rfl
  | cons c rest =>
    rw [hdrop] at hnone hbehind hparsed hsplit hfrom
    have hlen : (c :: rest).length < 2 ^ 32 := by omega
    have hend := parseString_end hparsed
    rcases parseSigned_reads hlen with ⟨hs, hno⟩ | ⟨hs, text, hlongest⟩
    · exact hnone hno (hend.1 hs)
    · have hall := hlongest.behind hto hfrom
      rw [hsplit] at hall
      have hvalue : (parseString nptr).2.2 = (nptr.takeWhile asciiSpace ++ text).length := by
        rw [hend.2 hs]
        have := congrArg List.length hall.split
        rw [List.length_append] at this
        omega
      rw [hvalue]
      have hyes : ¬ NoMatch FloatText nptr := fun hno => hno _ _ hall.split hall.holds
      have hpos := List.length_pos_iff.2 hlongest.holds.ne_nil
      refine ⟨iff_of_false ?_ hyes, fun _ => ?_⟩
      · rw [List.length_append]
        omega
      · have htake : nptr.take (nptr.takeWhile asciiSpace ++ text).length = nptr.takeWhile asciiSpace ++ text :=
          (congrArg (List.take _) hall.split).trans (List.take_left' rfl)
        have hrest : nptr.drop (nptr.takeWhile asciiSpace ++ text).length =
            (parseSigned .strto true (c :: rest)).rest :=
          (congrArg (List.drop _) hall.split).trans (List.drop_left' rfl)
        rw [htake, hrest]
        exact hall

/-- The digits behind a prefix and the tail of a word are missing: the number ends
before them. -/
theorem strtod_longest_prefix :
    Longest FloatText (" -0xg".toList.map Char.toNat) (" -0".toList.map Char.toNat) ("xg".toList.map Char.toNat) := by
  have h := @strtod_longest (" -0xg".toList.map Char.toNat) (by decide)
  have hend : (parseString (" -0xg".toList.map Char.toNat)).2.2 = 3 := by decide
  rw [hend] at h
  exact h.2 fun hno => absurd (h.1.2 hno) (by decide)

end MiniLibc.FloatParse
