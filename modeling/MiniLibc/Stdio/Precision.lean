import MiniLibc.Stdio.FormatString
import MiniLibc.Wchar.Restart
/-!
# What a precision lets a string conversion read

`Needed` are the elements of an argument that decide its first `P` output units: up
to the one that ends the text, or up to the `P`-th unit. Each of the four string
conversions reads one element more when the units are all there, because its loop
looks at the next element before it looks at the precision.
-/
open MiniLibc.Wchar

namespace MiniLibc.Stdio

variable {α : Type}

/-- The next character of an array: `none` if the array ends in it, `some none` if it
ends the text or is invalid, and else how many elements and output units it has. -/
abbrev NextUnit (α : Type) := List α → Option (Option (Nat × Nat))

/-- The elements that decide the output from `total` units on. They end with the last
unit that fits exactly (`true`), or with a character that ends the output (`false`). -/
inductive Needed (next : NextUnit α) (P : Nat) : (total : Nat) → List α → Bool → Prop where
  | filled : Needed next P P [] true
  | stop {total : Nat} {c : List α} : total < P → next c = some none → (∀ k < c.length, next (c.take k) = none) →
      Needed next P total c false
  | tooLong {total units : Nat} {c : List α} : total < P → next c = some (some (c.length, units)) → P < total + units →
      Needed next P total c false
  | more {total units : Nat} {c l : List α} {full : Bool} : total < P → next c = some (some (c.length, units)) →
      total + units ≤ P → Needed next P (total + units) l full → Needed next P total (c ++ l) full

/-- The conversion gives the same output and status whatever stands behind `l`, and
also if nothing does. -/
def ReadsOnly (convert : List α → Option Emission) (l : List α) : Prop :=
  ∀ rest rest', convert (l ++ rest) = convert (l ++ rest')

/-- A character that is one element: its units, unless it ends the text. -/
def nextElement (units : α → Option Nat) : NextUnit α
  | [] => none
  | c :: _ => some ((units c).map (1, ·))

def byteUnit (c : UInt8) : Option Nat := if c = 0 then none else some 1

/-- A wide character counts one unit, or the bytes of its encoding. -/
def wideUnit (mode : SinkMode) (c : Int) : Option Nat :=
  if c = 0 then none
  else (encodeWideValue c mode.utf8).map fun bytes => if mode.wideSemantics then 1 else bytes.length

/-- A multibyte character counts one unit. -/
def nextMultibyte (utf8 : Bool) : NextUnit UInt8
  | [] => none
  | c :: s => if c = 0 then some none else (decodeMultibyteCharacter utf8 (c :: s)).map fun used => used.map (·, 1)

/-! ## Single elements -/

section Element
variable {units : α → Option Nat} {P : Nat}

/-- The cases of `Needed` when every character is one element. -/
theorem needed_element {total : Nat} {l : List α} {full : Bool} (h : Needed (nextElement units) P total l full) :
    (l = [] ∧ full = true ∧ total = P) ∨ (total < P ∧ full = false ∧ ∃ c, l = [c] ∧ units c = none) ∨
      (total < P ∧ full = false ∧ ∃ c n, l = [c] ∧ units c = some n ∧ P < total + n) ∨
      (total < P ∧ ∃ c n l', l = c :: l' ∧ units c = some n ∧ total + n ≤ P ∧
        Needed (nextElement units) P (total + n) l' full) := by
  have hsome : ∀ {c : List α} {n : Nat}, nextElement units c = some (some (c.length, n)) →
      ∃ x, c = [x] ∧ units x = some n := by
    intro c n hc
    cases c with
    | nil => cases hc
    | cons x c =>
      simp only [nextElement, Option.some.injEq, Option.map_eq_some_iff, Prod.mk.injEq, List.length_cons] at hc
      obtain ⟨m, hm, h1, rfl⟩ := hc
      have : c = [] := List.eq_nil_of_length_eq_zero (by omega)
      exact ⟨x, by rw [this], hm⟩
  cases h with
  | filled => exact .inl ⟨rfl, rfl, rfl⟩
  | stop ht hc hmin =>
    refine .inr (.inl ⟨ht, rfl, ?_⟩)
    cases l with
    | nil => cases hc
    | cons x l =>
      have hx : units x = none := by simpa [nextElement] using hc
      refine ⟨x, ?_, hx⟩
      cases l with
      | nil => rfl
      | cons y l =>
        have := hmin 1 (by simp)
        simp [nextElement] at this
  | tooLong ht hc hP =>
    obtain ⟨x, rfl, hx⟩ := hsome hc
    exact .inr (.inr (.inl ⟨ht, rfl, x, _, rfl, hx, hP⟩))
  | more ht hc hP hl =>
    obtain ⟨x, rfl, hx⟩ := hsome hc
    exact .inr (.inr (.inr ⟨ht, x, _, _, rfl, hx, hP, hl⟩))

end Element

/-! ## Narrow strings -/

/-- With all units there the loop goes on to whatever comes next, else it stops. -/
theorem stringLengthLimit_needed {P : Nat} {l : List UInt8} {total : Nat} {full : Bool}
    (h : Needed (nextElement byteUnit) P total l full) :
    (full = true → ∀ rest, stringLengthLimit true P (l ++ rest) total = stringLengthLimit true P rest P) ∧
      (full = false → ∃ length, length ≤ total + l.length ∧
        ∀ rest, stringLengthLimit true P (l ++ rest) total = some length) := by
  induction l generalizing total with
  | nil =>
    rcases needed_element h with ⟨-, rfl, rfl⟩ | ⟨-, -, c, hl, -⟩ | ⟨-, -, c, n, hl, -⟩ | ⟨-, c, n, l', hl, -⟩
    · exact ⟨fun _ _ => rfl, by rintro ⟨⟩⟩
    all_goals cases hl
  | cons c l ih =>
    rcases needed_element h with ⟨hl, -⟩ | ⟨ht, rfl, c', hl, hc⟩ | ⟨ht, -, c', n, hl, hc, hn⟩ |
      ⟨ht, c', n, l', hl, hc, hn, hrest⟩
    · cases hl
    · cases hl
      have h0 : c = 0 := by simpa [byteUnit] using hc
      refine ⟨by rintro ⟨⟩, fun _ => ⟨total, by omega, fun rest => ?_⟩⟩
      rw [List.singleton_append, stringLengthLimit, if_neg (by simp [h0])]
    · simp only [byteUnit, Option.ite_none_left_eq_some, Option.some.injEq] at hc
      omega
    · cases hl
      simp only [byteUnit, Option.ite_none_left_eq_some, Option.some.injEq] at hc
      obtain ⟨hc0, rfl⟩ := hc
      have hstep : ∀ rest, stringLengthLimit true P (c :: l ++ rest) total =
          stringLengthLimit true P (l ++ rest) (total + 1) := by
        intro rest
        rw [List.cons_append, stringLengthLimit, if_pos ⟨hc0, .inr ht⟩]
      obtain ⟨h1, h2⟩ := ih hrest
      refine ⟨fun hf rest => (hstep rest).trans (h1 hf rest), fun hf => ?_⟩
      obtain ⟨length, hle, hrun⟩ := h2 hf
      exact ⟨length, by rw [List.length_cons]; omega, fun rest => (hstep rest).trans (hrun rest)⟩

theorem emitString_readsOnly {spec : FormatSpec} (hp : spec.precisionSet = true) {l : List UInt8} {full : Bool}
    (h : Needed (nextElement byteUnit) spec.precision 0 l full) :
    ReadsOnly (fun value => emitString spec (some value)) l ↔ full = false := by
  obtain ⟨h1, h2⟩ := stringLengthLimit_needed h
  constructor
  · intro hr
    cases full with
    | false => rfl
    | true =>
      have := hr [] [0]
      simp only [emitString, Option.getD_some, hp, h1 rfl, stringLengthLimit, Option.map_none] at this
      simp at this
  · intro hf rest rest'
    obtain ⟨length, hle, hrun⟩ := h2 hf
    simp only [emitString, Option.getD_some, hp, hrun, Option.map_some]
    rw [List.take_append_of_le_length (by omega), List.take_append_of_le_length (by omega)]

/-! ## Wide strings -/

/-- The units two counters stand for. -/
def countedUnits (mode : SinkMode) (characters bytesTotal : Nat) : Nat :=
  if mode.wideSemantics then characters else bytesTotal

theorem encodeValue_length {c : Int} {utf8 : Bool} {bytes : List UInt8} (h : encodeValue c utf8 = some bytes) :
    0 < bytes.length ∧ bytes.length ≤ 4 := by
  unfold encodeValue at h
  simp only at h
  repeat' split at h
  all_goals first
    | contradiction
    | (obtain rfl := Option.some.inj h; simp)

/-- The character that counts `n` units moves both counters. -/
theorem wideUnit_some {mode : SinkMode} {c : Int} {n : Nat} (h : wideUnit mode c = some n) :
    ∃ bytes, c ≠ 0 ∧ encodeWideValue c mode.utf8 = some bytes ∧ bytes.length ≤ 4 ∧ 0 < n ∧
      n = if mode.wideSemantics then 1 else bytes.length := by
  rw [wideUnit, Option.ite_none_left_eq_some, Option.map_eq_some_iff] at h
  obtain ⟨h0, bytes, he, rfl⟩ := h
  obtain ⟨hpos, hle⟩ := encodeValue_length he
  exact ⟨bytes, h0, he, hle, by split <;> omega, rfl⟩

/-- A character within the precision: the loop goes on behind it. -/
theorem wideStringLoop_fits {mode : SinkMode} {P : Nat} (hP : P ≤ printfIntMax) {c : Int} {n : Nat}
    (hc : wideUnit mode c = some n) {characters bytesTotal : Nat} (hb : bytesTotal ≤ 4 * countedUnits mode characters bytesTotal)
    (hn : countedUnits mode characters bytesTotal + n ≤ P) :
    ∃ bytesTotal', bytesTotal' ≤ 4 * countedUnits mode (characters + 1) bytesTotal' ∧
      countedUnits mode (characters + 1) bytesTotal' = countedUnits mode characters bytesTotal + n ∧
      ∀ rest, wideStringLoop mode true P (c :: rest) characters bytesTotal =
        wideStringLoop mode true P rest (characters + 1) bytesTotal' := by
  obtain ⟨bytes, h0, he, hle, hn0, hn'⟩ := wideUnit_some hc
  have hmax : bytesTotal ≤ sizeMax - bytes.length := by
    have : 4 * printfIntMax ≤ sizeMax - 4 := by decide
    omega
  have hcount : countedUnits mode (characters + 1) (bytesTotal + bytes.length) = countedUnits mode characters bytesTotal + n := by
    unfold countedUnits
    split at hn' <;> simp_all
  refine ⟨bytesTotal + bytes.length, ?_, hcount, fun rest => ?_⟩
  · rw [hcount]
    unfold countedUnits at hb ⊢
    split at hn' <;> simp_all
    omega
  · rw [wideStringLoop, if_neg h0]
    simp only [he]
    rw [if_neg, if_neg, if_neg (by omega)]
    · rintro ⟨hw, -, hgt⟩
      simp_all [countedUnits]
      omega
    · rintro ⟨hw, -, hge⟩
      simp_all [countedUnits]
      omega

theorem wideStringLoop_needed {mode : SinkMode} {P : Nat} (hP : P ≤ printfIntMax) {l : List Int}
    {characters bytesTotal : Nat} (hb : bytesTotal ≤ 4 * countedUnits mode characters bytesTotal) {full : Bool}
    (h : Needed (nextElement (wideUnit mode)) P (countedUnits mode characters bytesTotal) l full) :
    (full = true → ∃ characters' bytesTotal', countedUnits mode characters' bytesTotal' = P ∧
      ∀ rest, wideStringLoop mode true P (l ++ rest) characters bytesTotal =
        wideStringLoop mode true P rest characters' bytesTotal') ∧
      (full = false → ∃ r, (∀ n m, r = .ok (n, m) → n ≤ characters + l.length) ∧
        ∀ rest, wideStringLoop mode true P (l ++ rest) characters bytesTotal = some r) := by
  induction l generalizing characters bytesTotal with
  | nil =>
    rcases needed_element h with ⟨-, rfl, ht⟩ | ⟨-, -, c, hl, -⟩ | ⟨-, -, c, n, hl, -⟩ | ⟨-, c, n, l', hl, -⟩
    · exact ⟨fun _ => ⟨characters, bytesTotal, ht, fun _ => rfl⟩, by rintro ⟨⟩⟩
    all_goals cases hl
  | cons c l ih =>
    rcases needed_element h with ⟨hl, -⟩ | ⟨ht, rfl, c', hl, hc⟩ | ⟨ht, rfl, c', n, hl, hc, hn⟩ |
      ⟨ht, c', n, l', hl, hc, hn, hrest⟩
    · cases hl
    · -- the terminator, or a character that has no encoding
      cases hl
      refine ⟨by rintro ⟨⟩, fun _ => ?_⟩
      by_cases h0 : c = 0
      · refine ⟨.ok (characters, bytesTotal), fun n m hr => ?_, fun rest => ?_⟩
        · cases hr
          omega
        · rw [List.singleton_append, wideStringLoop, if_pos h0]
      · rw [wideUnit, if_neg h0, Option.map_eq_none_iff] at hc
        refine ⟨.error eilseq, fun n m hr => (by cases hr), fun rest => ?_⟩
        rw [List.singleton_append, wideStringLoop, if_neg h0]
        simp only [hc]
    · -- a character that does not fit: only bytes are cut so
      cases hl
      obtain ⟨bytes, h0, he, hle, hn0, hn'⟩ := wideUnit_some hc
      refine ⟨by rintro ⟨⟩, fun _ => ⟨.ok (characters, bytesTotal), fun n m hr => ?_, fun rest => ?_⟩⟩
      · cases hr
        omega
      · rw [List.singleton_append, wideStringLoop, if_neg h0]
        simp only [he]
        cases hw : mode.wideSemantics with
        | true => simp only [hw, if_true] at hn'; omega
        | false =>
          rw [if_neg (by simp), if_pos]
          simp_all [countedUnits]
    · cases hl
      obtain ⟨bytesTotal', hb', hcount, hstep⟩ := wideStringLoop_fits hP hc hb hn
      rw [← hcount] at hrest
      obtain ⟨h1, h2⟩ := ih hb' hrest
      constructor
      · intro hf
        obtain ⟨characters', bytesTotal'', hu, hrun⟩ := h1 hf
        exact ⟨characters', bytesTotal'', hu, fun rest => (hstep (l ++ rest)).trans (hrun rest)⟩
      · intro hf
        obtain ⟨r, hr, hrun⟩ := h2 hf
        refine ⟨r, fun n m he => ?_, fun rest => (hstep (l ++ rest)).trans (hrun rest)⟩
        have := hr n m he
        rw [List.length_cons]
        omega

theorem emitWideString_readsOnly {mode : SinkMode} {spec : FormatSpec} (hp : spec.precisionSet = true) {l : List Int}
    {full : Bool} (h : Needed (nextElement (wideUnit mode)) spec.precision 0 l full) :
    ReadsOnly (fun value => emitWideString mode spec (some value)) l ↔ full = false := by
  have hzero : countedUnits mode 0 0 = 0 := by simp [countedUnits]
  rw [← hzero] at h
  obtain ⟨h1, h2⟩ := wideStringLoop_needed spec.precision_le (Nat.zero_le _) h
  constructor
  · intro hr
    cases full with
    | false => rfl
    | true =>
      obtain ⟨characters, bytesTotal, -, hrun⟩ := h1 rfl
      have := hr [] [0]
      simp only [emitWideString, Option.getD_some, hp, hrun, wideStringLoop, Option.map_none] at this
      simp at this
  · intro hf rest rest'
    obtain ⟨r, hle, hrun⟩ := h2 hf
    simp only [emitWideString, Option.getD_some, hp, hrun, Option.map_some]
    cases r with
    | error e => rfl
    | ok counts =>
      obtain ⟨n, m⟩ := counts
      have := hle n m rfl
      dsimp only
      rw [List.take_append_of_le_length (by omega), List.take_append_of_le_length (by omega)]

/-! ## Multibyte strings of the wide family -/

section Multibyte
variable {utf8 : Bool}

/-- A byte that decides the character decides it whatever comes next. -/
theorem decodeMultibyteLoop_append {c : List UInt8} {state : MbState} {used : Nat} {r : Option Nat}
    (h : decodeMultibyteLoop utf8 c state used = some r) (rest : List UInt8) :
    decodeMultibyteLoop utf8 (c ++ rest) state used = some r := by
  induction c generalizing state used with
  | nil => cases h
  | cons byte c ih =>
    rw [List.cons_append]
    unfold decodeMultibyteLoop at h ⊢
    rcases hm : mbrtowcMode (some [byte]) state utf8 with ⟨result, pwc, next⟩
    simp only [hm] at h ⊢
    cases result with
    | length n => exact h
    | eilseq => exact h
    | incomplete =>
      cases c with
      | nil => cases h
      | cons d c =>
        simp only [List.cons_append] at h ⊢ ih
        split at h
        · rename_i h0
          rw [if_pos h0, h]
        · rename_i h0
          rw [if_neg h0]
          exact ih h

theorem decodeMultibyteLoop_length {c : List UInt8} {state : MbState} {used n : Nat}
    (h : decodeMultibyteLoop utf8 c state used = some (some n)) : used < n ∧ n ≤ used + patience state := by
  have hpos : ∀ s : MbState, 0 < patience s := by
    intro s
    rw [patience]
    split <;> omega
  induction c generalizing state used with
  | nil => cases h
  | cons byte c ih =>
    unfold decodeMultibyteLoop at h
    rcases hm : mbrtowcMode (some [byte]) state utf8 with ⟨result, pwc, next⟩
    simp only [hm] at h
    have := hpos state
    cases result with
    | length m =>
      simp only [Option.some.injEq] at h
      omega
    | eilseq => cases h
    | incomplete =>
      have hlt := patience_lt hm
      cases c with
      | nil => cases h
      | cons d c =>
        simp only at h
        split at h
        · cases h
        · have := ih h
          omega

theorem decodeMultibyteCharacter_append {b : UInt8} {c : List UInt8} {r : Option Nat}
    (h : decodeMultibyteCharacter utf8 (b :: c) = some r) (rest : List UInt8) :
    decodeMultibyteCharacter utf8 (b :: (c ++ rest)) = some r := by
  have hbyte : byteAt (b :: (c ++ rest)) = byteAt (b :: c) := rfl
  rw [decodeMultibyteCharacter] at h ⊢
  rw [hbyte]
  split at h
  · rename_i h0
    rw [if_pos h0, h]
  · rename_i h0
    rw [if_neg h0]
    exact decodeMultibyteLoop_append h rest

theorem decodeMultibyteCharacter_length {c : List UInt8} {n : Nat}
    (h : decodeMultibyteCharacter utf8 c = some (some n)) : 0 < n ∧ n ≤ 4 := by
  rw [decodeMultibyteCharacter] at h
  split at h
  · cases h
  · have := decodeMultibyteLoop_length h
    have h4 : patience {} = 4 := rfl
    omega

/-- A character within the precision: the loop goes on behind it. -/
theorem multibyteStringLoop_fits {P : Nat} (hP : P ≤ printfIntMax) {c : List UInt8} {n : Nat}
    (hc : nextMultibyte utf8 c = some (some (c.length, n))) {total bytesTotal : Nat} (ht : total < P)
    (hb : bytesTotal ≤ 4 * total) :
    n = 1 ∧ bytesTotal + c.length ≤ 4 * (total + 1) ∧ ∀ rest fuel, (c ++ rest).length ≤ fuel →
      ∃ fuel', rest.length ≤ fuel' ∧ multibyteStringLoop utf8 true P fuel (c ++ rest) total bytesTotal =
        multibyteStringLoop utf8 true P fuel' rest (total + 1) (bytesTotal + c.length) := by
  cases c with
  | nil => cases hc
  | cons b c =>
    rw [nextMultibyte] at hc
    split at hc
    · cases hc
    rename_i h0
    rw [Option.map_eq_some_iff] at hc
    obtain ⟨used, hd, hu⟩ := hc
    rw [Option.map_eq_some_iff] at hu
    obtain ⟨length, rfl, hl⟩ := hu
    obtain ⟨hlen, rfl⟩ := Prod.mk.inj hl
    obtain ⟨hpos, hle⟩ := decodeMultibyteCharacter_length hd
    have hmax : bytesTotal ≤ sizeMax - length := by
      have : 4 * printfIntMax ≤ sizeMax - 4 := by decide
      omega
    refine ⟨rfl, by omega, fun rest fuel hf => ?_⟩
    simp only [List.cons_append, List.length_cons, List.length_append] at hf hlen
    cases fuel with
    | zero => omega
    | succ fuel =>
      refine ⟨fuel, by omega, ?_⟩
      rw [List.cons_append, multibyteStringLoop, if_pos ⟨h0, .inr ht⟩]
      simp only [decodeMultibyteCharacter_append hd rest]
      rw [if_neg (by omega), hlen, ← List.cons_append, List.length_cons, ← List.length_cons (a := b), List.drop_left]

theorem multibyteStringLoop_needed {P : Nat} (hP : P ≤ printfIntMax) {l : List UInt8} {total : Nat} {full : Bool}
    (h : Needed (nextMultibyte utf8) P total l full) {bytesTotal : Nat} (hb : bytesTotal ≤ 4 * total) :
    (full = true → ∃ bytesTotal', ∀ rest fuel, (l ++ rest).length ≤ fuel → ∃ fuel', rest.length ≤ fuel' ∧
      multibyteStringLoop utf8 true P fuel (l ++ rest) total bytesTotal =
        multibyteStringLoop utf8 true P fuel' rest P bytesTotal') ∧
      (full = false → ∃ r, (∀ n m, r = .ok (n, m) → m ≤ bytesTotal + l.length) ∧
        ∀ rest fuel, (l ++ rest).length ≤ fuel →
          multibyteStringLoop utf8 true P fuel (l ++ rest) total bytesTotal = some r) := by
  induction h generalizing bytesTotal with
  | filled => exact ⟨fun _ => ⟨bytesTotal, fun rest fuel hf => ⟨fuel, hf, rfl⟩⟩, by rintro ⟨⟩⟩
  | @stop total c ht hc hmin =>
    refine ⟨by rintro ⟨⟩, fun _ => ?_⟩
    cases c with
    | nil => cases hc
    | cons b c =>
      rw [nextMultibyte] at hc
      have hfuel : ∀ {rest : List UInt8} {fuel : Nat}, (b :: c ++ rest).length ≤ fuel → ∃ f, fuel = f + 1 := by
        intro rest fuel hf
        simp only [List.cons_append, List.length_cons] at hf
        exact ⟨fuel - 1, by omega⟩
      split at hc
      · rename_i h0
        refine ⟨.ok (total, bytesTotal), fun n m hr => ?_, fun rest fuel hf => ?_⟩
        · cases hr
          omega
        · obtain ⟨f, rfl⟩ := hfuel hf
          rw [List.cons_append, multibyteStringLoop, if_neg (by simp [h0])]
      · rename_i h0
        rw [Option.map_eq_some_iff] at hc
        obtain ⟨used, hd, hu⟩ := hc
        rw [Option.map_eq_none_iff] at hu
        subst hu
        refine ⟨.error eilseq, fun n m hr => (by cases hr), fun rest fuel hf => ?_⟩
        obtain ⟨f, rfl⟩ := hfuel hf
        rw [List.cons_append, multibyteStringLoop, if_pos ⟨h0, .inr ht⟩]
        simp only [decodeMultibyteCharacter_append hd rest]
  | tooLong ht hc hlt =>
    obtain ⟨rfl, -⟩ := multibyteStringLoop_fits hP hc ht hb
    omega
  | more ht hc hle hl ih =>
    obtain ⟨rfl, hb', hstep⟩ := multibyteStringLoop_fits hP hc ht hb
    obtain ⟨h1, h2⟩ := ih hb'
    constructor
    · intro hf
      obtain ⟨bytesTotal', hrun⟩ := h1 hf
      refine ⟨bytesTotal', fun rest fuel hfuel => ?_⟩
      rw [List.append_assoc] at hfuel ⊢
      obtain ⟨f, hf1, he1⟩ := hstep _ fuel hfuel
      obtain ⟨f', hf2, he2⟩ := hrun rest f hf1
      exact ⟨f', hf2, he1.trans he2⟩
    · intro hf
      obtain ⟨r, hr, hrun⟩ := h2 hf
      refine ⟨r, fun n m he => ?_, fun rest fuel hfuel => ?_⟩
      · have := hr n m he
        rw [List.length_append]
        omega
      · rw [List.append_assoc] at hfuel ⊢
        obtain ⟨f, hf1, he1⟩ := hstep _ fuel hfuel
        exact he1.trans (hrun rest f hf1)

theorem emitMultibyteStringWide_readsOnly {mode : SinkMode} {spec : FormatSpec} (hp : spec.precisionSet = true)
    {l : List UInt8} {full : Bool} (h : Needed (nextMultibyte mode.utf8) spec.precision 0 l full) :
    ReadsOnly (fun value => emitMultibyteStringWide mode spec (some value)) l ↔ full = false := by
  obtain ⟨h1, h2⟩ := multibyteStringLoop_needed spec.precision_le h (Nat.zero_le (4 * 0))
  constructor
  · intro hr
    cases full with
    | false => rfl
    | true =>
      obtain ⟨bytesTotal, hrun⟩ := h1 rfl
      have := hr [] [0]
      obtain ⟨f, -, hnil⟩ := hrun [] _ (Nat.le_refl _)
      obtain ⟨f', hf', hnul⟩ := hrun [0] _ (Nat.le_refl _)
      have hout : ∀ fuel, multibyteStringLoop mode.utf8 true spec.precision fuel [] spec.precision bytesTotal = none := by
        intro fuel
        cases fuel <;> rfl
      have hend : multibyteStringLoop mode.utf8 true spec.precision f' [0] spec.precision bytesTotal =
          some (.ok (spec.precision, bytesTotal)) := by
        cases f' with
        | zero => simp at hf'
        | succ f' => simp [multibyteStringLoop]
      simp only [emitMultibyteStringWide, Option.getD_some, hp, hnil, hnul, hout, hend, Option.map_none] at this
      simp at this
  · intro hf rest rest'
    obtain ⟨r, hle, hrun⟩ := h2 hf
    simp only [emitMultibyteStringWide, Option.getD_some, hp, hrun _ _ (Nat.le_refl _), Option.map_some]
    cases r with
    | error e => rfl
    | ok counts =>
      obtain ⟨n, m⟩ := counts
      have := hle n m rfl
      dsimp only
      rw [List.take_append_of_le_length (by omega), List.take_append_of_le_length (by omega)]

end Multibyte

/-! ## The four conversions -/

/-- A precision bounds what a conversion reads exactly when the text ends, in its
terminator, in an invalid character or in one that does not fit, before all the units
are there. -/
theorem precision_reads (mode : SinkMode) (spec : FormatSpec) (hp : spec.precisionSet = true) :
    (∀ l full, Needed (nextElement byteUnit) spec.precision 0 l full →
      (ReadsOnly (fun value => emitString spec (some value)) l ↔ full = false)) ∧
    (∀ l full, Needed (nextElement (wideUnit mode)) spec.precision 0 l full →
      (ReadsOnly (fun value => emitWideString mode spec (some value)) l ↔ full = false)) ∧
    ∀ l full, Needed (nextMultibyte mode.utf8) spec.precision 0 l full →
      (ReadsOnly (fun value => emitMultibyteStringWide mode spec (some value)) l ↔ full = false) :=
  ⟨fun _ _ h => emitString_readsOnly hp h, fun _ _ h => emitWideString_readsOnly hp h,
    fun _ _ h => emitMultibyteStringWide_readsOnly hp h⟩

theorem one_le_intMax : 1 ≤ printfIntMax := by decide

/-- `%.1` -/
def oneUnit : FormatSpec :=
  { precisionSet := true, precision := 1, width_le := Nat.zero_le _, precision_le := one_le_intMax }

theorem needed_one {next : NextUnit α} {c : List α} (h : next c = some (some (c.length, 1))) :
    Needed next 1 0 c true := by
  have := Needed.more Nat.zero_lt_one h (Nat.le_refl 1) .filled
  rwa [List.append_nil] at this

theorem precision_reads_letter :
    ¬ ReadsOnly (fun value => emitString oneUnit (some value)) [65] ∧
      ReadsOnly (fun value => emitString oneUnit (some value)) [0] := by
  obtain ⟨h, -⟩ := precision_reads ⟨true, false⟩ oneUnit rfl
  refine ⟨fun hr => ?_, (h [0] false (.stop (by decide) rfl (by decide))).2 rfl⟩
  exact absurd ((h [65] true (needed_one rfl)).1 hr) (by decide)

/-- With the one unit there, an invalid wide character behind it fails the conversion,
and all of them read an element that need not be there. -/
theorem precision_reads_past :
    (Needed (nextElement byteUnit) 1 0 [65] true ∧ ¬ ReadsOnly (fun value => emitString oneUnit (some value)) [65]) ∧
    (Needed (nextElement (wideUnit ⟨true, false⟩)) 1 0 [65] true ∧
      (emitWideString ⟨true, false⟩ oneUnit (some [65, 0])).map Emission.error = some none ∧
      (emitWideString ⟨true, false⟩ oneUnit (some [65, -1])).map Emission.error = some (some eilseq)) ∧
    (Needed (nextElement (wideUnit ⟨true, true⟩)) 1 0 [65] true ∧
      (emitWideString ⟨true, true⟩ oneUnit (some [65, 0])).map Emission.error = some none ∧
      (emitWideString ⟨true, true⟩ oneUnit (some [65, -1])).map Emission.error = some (some eilseq)) ∧
    Needed (nextMultibyte true) 1 0 [65] true ∧
      ¬ ReadsOnly (fun value => emitMultibyteStringWide ⟨true, true⟩ oneUnit (some value)) [65] := by
  refine ⟨⟨needed_one rfl, fun h => ?_⟩, ⟨needed_one rfl, by decide, by decide⟩,
    ⟨needed_one rfl, by decide, by decide⟩, needed_one rfl, fun h => ?_⟩
  · exact absurd (congrArg (Option.map Emission.error) (h [] [0])) (by decide)
  · exact absurd (congrArg (Option.map Emission.error) (h [] [0])) (by decide)

end MiniLibc.Stdio
