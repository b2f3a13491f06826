import MiniLibc.Stdio.Formatter
/-!
# ASCII parts of a format

A specification is written in ASCII, and a number is printed in it, so neither
depends on the encoding of the text around.
-/
open MiniLibc.Args MiniLibc.Numeral

namespace MiniLibc.Stdio

/-! ## Specifications -/

/-- What is left of `p` behind some ASCII bytes. -/
def AsciiFront (p rest : List UInt8) : Prop := ∃ front, p = front ++ rest ∧ ∀ b ∈ front, b.toNat < 128

namespace AsciiFront

theorem refl (p : List UInt8) : AsciiFront p p := ⟨[], rfl, by simp⟩

theorem trans {p q rest : List UInt8} (h : AsciiFront p q) (h' : AsciiFront q rest) : AsciiFront p rest := by
  obtain ⟨front, rfl, hf⟩ := h
  obtain ⟨front', rfl, hf'⟩ := h'
  refine ⟨front ++ front', (List.append_assoc ..).symm, fun b hb => ?_⟩
  rcases List.mem_append.1 hb with hb | hb
  · exact hf b hb
  · exact hf' b hb

theorem cons {c : UInt8} {p rest : List UInt8} (hc : c.toNat < 128) (h : AsciiFront p rest) : AsciiFront (c :: p) rest :=
  trans ⟨[c], rfl, fun _ hb => by rwa [List.mem_singleton.1 hb]⟩ h

/-- A byte that was looked at. -/
theorem drop {c : UInt8} {p : List UInt8} (hp : byteAt p = c) (h0 : c ≠ 0) (hc : c.toNat < 128) :
    AsciiFront p (p.drop 1) := by
  cases p with
  | nil => exact absurd hp.symm h0
  | cons d p =>
    obtain rfl : d = c := hp
    exact cons hc (refl p)

end AsciiFront

theorem parseFlags_front (spec : FormatSpec) (p : List UInt8) : AsciiFront p (parseFlags spec p).2 := by
  induction p generalizing spec with
  | nil => exact .refl []
  | cons c p ih =>
    unfold parseFlags
    split
    · rename_i h
      exact .cons (by rw [h]; decide) (ih _)
    split
    · rename_i h
      exact .cons (by rw [h]; decide) (ih _)
    split
    · rename_i h
      exact .cons (by rw [h]; decide) (ih _)
    split
    · rename_i h
      exact .cons (by rw [h]; decide) (ih _)
    split
    · rename_i h
      exact .cons (by rw [h]; decide) (ih _)
    · exact .refl _

theorem isDigitByte_lt {c : UInt8} (h : isDigitByte c = true) : c.toNat < 128 := by
  have hnine : c.toNat ≤ 57 := (of_decide_eq_true h).2
  omega

theorem decimalLoop_front {result value : FormatNumber} {p rest : List UInt8}
    (h : decimalLoop result p = some (value, rest)) :
    AsciiFront p rest := by
  induction p generalizing result with
  | nil =>
    cases h
    exact .refl []
  | cons c p ih =>
    unfold decimalLoop at h
    split at h
    · rename_i hc
      dsimp only at h
      split at h
      · cases h
      · exact .cons (isDigitByte_lt hc) (ih h)
    · cases h
      exact .refl _

theorem parseFormatDecimal_front {start value : FormatNumber} {p rest : List UInt8}
    (h : parseFormatDecimal start p = some (value, rest)) : AsciiFront p rest := by
  unfold parseFormatDecimal at h
  split at h
  · exact decimalLoop_front h
  · cases h
    exact .refl p

theorem parseLength_front (p : List UInt8) : AsciiFront p (parseLength p).2 := by
  unfold parseLength
  split
  · rename_i h
    have hone := AsciiFront.drop h (by decide) (by decide)
    split
    · rename_i h'
      have := hone.trans (AsciiFront.drop h' (by decide) (by decide))
      rwa [List.drop_drop] at this
    · exact hone
  split
  · rename_i h
    have hone := AsciiFront.drop h (by decide) (by decide)
    split
    · rename_i h'
      have := hone.trans (AsciiFront.drop h' (by decide) (by decide))
      rwa [List.drop_drop] at this
    · exact hone
  · exact .refl p

section Machine

variable {α : Type} {next : α → Fetch → Nat × α}

theorem parseFormatWidth_front {spec spec' : FormatSpec} {p rest : List UInt8} {args args' : α}
    (h : parseFormatWidth next spec p args = some (spec', rest, args')) : AsciiFront p rest := by
  unfold parseFormatWidth at h
  split at h
  · rename_i hstar
    dsimp only at h
    obtain ⟨_, -, heq⟩ := Option.map_eq_some_iff.1 h
    cases heq
    exact .drop hstar (by decide) (by decide)
  · obtain ⟨⟨value, q⟩, hq, heq⟩ := Option.map_eq_some_iff.1 h
    cases heq
    exact parseFormatDecimal_front hq

theorem parsePrecision_front {spec spec' : FormatSpec} {p rest : List UInt8} {args args' : α}
    (h : parsePrecision next spec p args = some (spec', rest, args')) : AsciiFront p rest := by
  unfold parsePrecision at h
  split at h
  · rename_i hdot
    have hone := AsciiFront.drop hdot (by decide) (by decide)
    dsimp only at h
    split at h
    · rename_i hstar
      cases h
      exact hone.trans (.drop hstar (by decide) (by decide))
    · obtain ⟨⟨value, q⟩, hq, heq⟩ := Option.map_eq_some_iff.1 h
      cases heq
      exact hone.trans (parseFormatDecimal_front hq)
  · cases h
    exact .refl p

/-- A specification is ASCII up to its conversion. -/
theorem parseFormatSpec_front {spec : FormatSpec} {p rest : List UInt8} {args args' : α}
    (h : parseFormatSpec next p args = some (spec, rest, args')) :
    ∃ front c, p = front ++ c :: rest ∧ (∀ b ∈ front, b.toNat < 128) ∧ spec.conversion = c.toNat := by
  unfold parseFormatSpec at h
  have hflags := parseFlags_front {} p
  obtain ⟨⟨spec₁, p₁⟩, heq⟩ : ∃ r, parseFlags {} p = r := ⟨_, rfl⟩
  rw [heq] at h hflags
  dsimp only at h hflags
  rcases hwidth : parseFormatWidth next spec₁ p₁ args with _ | ⟨spec₂, p₂, args₂⟩
  · rw [hwidth] at h
    cases h
  rw [hwidth] at h
  dsimp only at h
  rcases hprecision : parsePrecision next spec₂ p₂ args₂ with _ | ⟨spec₃, p₃, args₃⟩
  · rw [hprecision] at h
    cases h
  rw [hprecision] at h
  dsimp only at h
  split at h
  · cases h
  rename_i hzero
  obtain ⟨front, hp, hfront⟩ := ((hflags.trans (parseFormatWidth_front hwidth)).trans
    (parsePrecision_front hprecision)).trans (parseLength_front p₃)
  cases hq : (parseLength p₃).2 with
  | nil =>
    rw [hq] at hzero
    exact absurd rfl hzero
  | cons c q =>
    rw [hq] at h hp
    cases h
    exact ⟨front, c, hp, hfront, rfl⟩

end Machine

/-! ## Numbers -/

/-- A text of ASCII codes. -/
def AsciiCodes (text : List Nat) : Prop := ∀ c ∈ text, c < 128

namespace AsciiCodes

theorem nil : AsciiCodes [] := by simp [AsciiCodes]

theorem append {text text' : List Nat} (h : AsciiCodes text) (h' : AsciiCodes text') : AsciiCodes (text ++ text') := by
  intro c hc
  rcases List.mem_append.1 hc with hc | hc
  · exact h c hc
  · exact h' c hc

theorem cons {c : Nat} {text : List Nat} (hc : c < 128) (h : AsciiCodes text) : AsciiCodes (c :: text) := by
  intro d hd
  rcases List.mem_cons.1 hd with rfl | hd
  · exact hc
  · exact h d hd

theorem replicate {c : Nat} (n : Nat) (hc : c < 128) : AsciiCodes (List.replicate n c) := by
  intro d hd
  rwa [List.eq_of_mem_replicate hd]

theorem map {β : Type} {f : β → Nat} {l : List β} (h : ∀ x ∈ l, f x < 128) : AsciiCodes (l.map f) := by
  intro c hc
  obtain ⟨x, hx, rfl⟩ := List.mem_map.1 hc
  exact h x hx

/-- A part of it. -/
theorem sub {text part : List Nat} (h : AsciiCodes text) (hp : ∀ c ∈ part, c ∈ text) : AsciiCodes part :=
  fun c hc => h c (hp c hc)

theorem ite {p : Prop} [Decidable p] {text text' : List Nat} (h : AsciiCodes text) (h' : AsciiCodes text') :
    AsciiCodes (if p then text else text') := by
  split
  · exact h
  · exact h'

/-- A digit of it, or nothing. -/
theorem getD {text : List Nat} (h : AsciiCodes text) (i : Nat) : text.getD i 0 < 128 := by
  rw [List.getD_eq_getElem?_getD]
  cases hi : text[i]? with
  | none => decide
  | some c => exact h c (List.mem_of_getElem? hi)

end AsciiCodes

theorem digitChar_lt (uppercase : Bool) (d : Nat) : digitChar uppercase d < 128 := by
  have hall : AsciiCodes (alphabet uppercase) := by
    unfold AsciiCodes
    cases uppercase <;> decide
  exact hall.getD d

theorem decimalChars_ascii {digits : List Nat} (h : ∀ d ∈ digits, d < 10) : AsciiCodes (decimalChars digits) := by
  have hzero : '0'.toNat = 48 := rfl
  exact .map fun d hd => by
    have := h d hd
    omega

theorem emitSpaces_ascii (wanted : Bool) (spaces : Nat) : AsciiCodes (rendering (emitSpaces wanted spaces)) := by
  rw [rendering_emitSpaces]
  exact .replicate _ (by decide)

theorem numberSign_ascii (spec : FormatSpec) (negative signedConversion : Bool) :
    AsciiCodes (numberSign spec negative signedConversion) := by
  unfold numberSign AsciiCodes
  cases signedConversion <;> cases negative <;> cases spec.plus <;> cases spec.space <;> decide

theorem basePrefix_ascii (spec : FormatSpec) (magnitude base : Nat) (uppercase : Bool) :
    AsciiCodes (basePrefix spec magnitude base uppercase) := by
  unfold basePrefix
  refine .ite ?_ .nil
  unfold AsciiCodes
  cases uppercase <;> decide

theorem numberDigits_ascii (spec : FormatSpec) (magnitude base : Nat) (uppercase : Bool) :
    AsciiCodes (numberDigits spec magnitude base uppercase).1 := by
  have hdigits : AsciiCodes (if spec.precisionSet ∧ spec.precision = 0 ∧ magnitude = 0 then []
      else makeDigits magnitude base uppercase) := .ite .nil (.map fun d _ => digitChar_lt uppercase d)
  unfold numberDigits
  dsimp only
  generalize (if spec.precisionSet ∧ spec.precision = 0 ∧ magnitude = 0 then []
    else makeDigits magnitude base uppercase) = digits at hdigits ⊢
  generalize (if spec.precisionSet ∧ spec.precision > digits.length then usub spec.precision (uint digits.length)
    else 0) = zeros
  by_cases hoctal : spec.alternate = true ∧ base = 8
  · rw [if_pos hoctal]
    split
    · exact .cons (by decide) .nil
    · split
      · exact hdigits
      · exact hdigits
  · rw [if_neg hoctal]
    exact hdigits

/-- Integers are printed in ASCII. -/
theorem emitNumber_ascii (spec : FormatSpec) (magnitude : Nat) (negative : Bool) (base : Nat)
    (uppercase signedConversion : Bool) :
    AsciiCodes (rendering (emitNumber spec magnitude negative base uppercase signedConversion)) := by
  unfold emitNumber
  dsimp only
  simp only [rendering_append, rendering_prefix, rendering_digits, rendering_cons, rendering_nil, List.append_nil]
  refine (((emitSpaces_ascii _ _).append ((numberSign_ascii _ _ _).append (basePrefix_ascii _ _ _ _))).append
    ((AsciiCodes.replicate _ (by decide)).append (.replicate _ (by decide)))).append ?_ |>.append (emitSpaces_ascii _ _)
  exact (numberDigits_ascii spec magnitude base uppercase).sub fun c hc => List.mem_reverse.1 hc

/-! ## Floating numbers -/

theorem floatSign_ascii (spec : FormatSpec) (negative : Bool) : AsciiCodes (floatSign spec negative) := by
  unfold floatSign AsciiCodes
  cases negative <;> cases spec.plus <;> cases spec.space <;> decide

theorem emitFloatText_ascii (spec : FormatSpec) (negative zeroAllowed : Bool) {radixPrefix text : List Nat}
    (hr : AsciiCodes radixPrefix) (ht : AsciiCodes text) :
    AsciiCodes (rendering (emitFloatText spec negative radixPrefix text zeroAllowed)) := by
  unfold emitFloatText
  dsimp only
  simp only [rendering_append, rendering_prefix, rendering_cons, rendering_nil, List.append_nil]
  exact (((((emitSpaces_ascii _ _).append (floatSign_ascii _ _)).append hr).append
    (.replicate _ (by decide))).append ht).append (emitSpaces_ascii _ _)

theorem appendExponent_ascii {marker : Nat} (hm : marker < 128) (exponent : Int) (minimumDigits : Nat) :
    AsciiCodes (appendExponent marker exponent minimumDigits) := by
  have hdigits := decimalChars_ascii (lowDigits_lt (show 0 < 10 by decide) minimumDigits exponent.natAbs)
  unfold appendExponent
  refine (AsciiCodes.cons hm (.cons ?_ .nil)).append (hdigits.sub fun c hc => List.mem_reverse.1 hc)
  split <;> decide

theorem makeSignificantDecimal_ascii (value : Binary64) (digitCount : Nat) :
    AsciiCodes (makeSignificantDecimal value digitCount).1 := by
  have hfixed := fun n => decimalChars_ascii (fixedDigits_lt (show 0 < 10 by decide) digitCount n)
  unfold makeSignificantDecimal
  split
  · exact decimalChars_ascii fun d hd => by
      rw [List.eq_of_mem_replicate hd]
      decide
  · exact hfixed _

theorem makeFixedText_ascii {spec : FormatSpec} {value : Binary64} {text : List Nat}
    (h : makeFixedText spec value = some text) : AsciiCodes text := by
  unfold makeFixedText at h
  dsimp only at h
  generalize (if spec.precisionSet then spec.precision else 6) = precision at h
  obtain ⟨-, h⟩ := Option.ite_none_left_eq_some.1 h
  cases h
  have hwhole : ∀ n, AsciiCodes (makeDigits n 10 false).reverse := fun n =>
    (AsciiCodes.map fun d _ => digitChar_lt false d).sub fun c hc => List.mem_reverse.1 hc
  refine ((hwhole _).append (.ite (.cons (by decide) .nil) .nil)).append ?_
  exact decimalChars_ascii (fixedDigits_lt (by decide) _ _)

theorem makeScientificText_ascii {spec : FormatSpec} {value : Binary64} {text : List Nat}
    (h : makeScientificText spec value = some text) : AsciiCodes text := by
  unfold makeScientificText at h
  dsimp only at h
  generalize (if spec.precisionSet then spec.precision else 6) = precision at h
  obtain ⟨-, h⟩ := Option.ite_none_left_eq_some.1 h
  cases h
  have hdigits := makeSignificantDecimal_ascii value (precision + 1)
  refine ((hdigits.sub fun c hc => List.mem_of_mem_take hc).append
    (.ite (.cons (by decide) (hdigits.sub fun c hc => List.mem_of_mem_drop hc)) .nil)).append
    (appendExponent_ascii ?_ _ _)
  split <;> decide

theorem makeGeneralText_ascii {spec : FormatSpec} {value : Binary64} {text : List Nat}
    (h : makeGeneralText spec value = some text) : AsciiCodes text := by
  unfold makeGeneralText at h
  dsimp only at h
  generalize (if spec.precisionSet then spec.precision else 6) = requested at h
  generalize (if requested = 0 then 1 else requested) = precision at h
  have hdigits := makeSignificantDecimal_ascii value precision
  obtain ⟨⟨digits, exponent⟩, hpair⟩ : ∃ r, makeSignificantDecimal value precision = r := ⟨_, rfl⟩
  rw [hpair] at h hdigits
  dsimp only at h hdigits
  obtain ⟨-, h⟩ := Option.ite_none_left_eq_some.1 h
  generalize (if spec.alternate then precision else effectiveDigits digits precision) = effective at h
  have htake : AsciiCodes (digits.take effective) := hdigits.sub fun c hc => List.mem_of_mem_take hc
  split at h
  · cases h
    refine ((hdigits.sub fun c hc => List.mem_of_mem_take hc).append
      (.ite (.cons (by decide) (htake.sub fun c hc => List.mem_of_mem_drop hc)) .nil)).append
      (appendExponent_ascii ?_ _ _)
    split <;> decide
  split at h
  · cases h
    exact ((AsciiCodes.cons (by decide) (.cons (by decide) .nil)).append (.replicate _ (by decide))).append htake
  · cases h
    refine AsciiCodes.append (.map fun i _ => ?_)
      (.ite (.cons (by decide) (htake.sub fun c hc => List.mem_of_mem_drop hc)) .nil)
    split
    · exact hdigits.getD i
    · decide

theorem makeHexText_ascii {spec : FormatSpec} {parts : FloatParts} {text : List Nat}
    (h : makeHexText spec parts = some text) : AsciiCodes text := by
  have hhex : ∀ value uppercase, hexDigit value uppercase < 128 := fun value uppercase => digitChar_lt uppercase _
  unfold makeHexText at h
  dsimp only at h
  obtain ⟨-, h⟩ := Option.ite_none_left_eq_some.1 h
  cases h
  refine ((AsciiCodes.cons (hhex _ _) .nil).append
    (.ite (.cons (by decide) (.map fun i _ => hhex _ _)) .nil)).append (appendExponent_ascii ?_ _ _)
  split <;> decide

/-- Floating numbers are printed in ASCII. -/
theorem emitFloating_ascii {spec : FormatSpec} {value : Binary64} {calls : List Emit}
    (h : emitFloating spec value = some calls) : AsciiCodes (rendering calls) := by
  have hspecial : ∀ special ∈ ["INF", "inf", "NAN", "nan"], AsciiCodes (special.toList.map Char.toNat) := by
    unfold AsciiCodes
    decide
  have hbase : ∀ uppercase : Bool, AsciiCodes ((if uppercase then "0X" else "0x" : String).toList.map Char.toNat) := by
    unfold AsciiCodes
    intro uppercase
    cases uppercase <;> decide
  unfold emitFloating at h
  dsimp only at h
  split at h
  · cases h
  split at h
  · cases h
    refine emitFloatText_ascii _ _ _ .nil (hspecial _ ?_)
    split <;> split <;> simp
  split at h
  · obtain ⟨text, ht, rfl⟩ := Option.map_eq_some_iff.1 h
    exact emitFloatText_ascii _ _ _ .nil (makeFixedText_ascii ht)
  split at h
  · obtain ⟨text, ht, rfl⟩ := Option.map_eq_some_iff.1 h
    exact emitFloatText_ascii _ _ _ .nil (makeScientificText_ascii ht)
  split at h
  · obtain ⟨text, ht, rfl⟩ := Option.map_eq_some_iff.1 h
    exact emitFloatText_ascii _ _ _ .nil (makeGeneralText_ascii ht)
  split at h
  · obtain ⟨text, ht, rfl⟩ := Option.map_eq_some_iff.1 h
    exact emitFloatText_ascii _ _ _ (hbase _) (makeHexText_ascii ht)
  · cases h

end MiniLibc.Stdio
