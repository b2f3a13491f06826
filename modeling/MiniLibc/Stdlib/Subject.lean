import MiniLibc.Stdlib.Strto
/-!
# The subject sequence

What the standard calls the subject of an integer conversion, as a relation
between a text and the number it stands for, and `strtol`, `strtoll` and `strtoul`
against it: they find the longest prefix of the string that is one.
-/
open MiniLibc.Numeral

namespace MiniLibc.Stdlib

/-! ## The grammar -/

/-- Digits of the base, at least one. -/
def Numeral (base : Nat) (text : List Nat) : Prop := text ≠ [] ∧ ∀ c ∈ text, isDigitOf base c = true

/-- The unsigned part of a subject, and its value. Base 0 is the base of a constant. -/
inductive Unsigned : (base : Nat) → List Nat → Nat → Prop where
  | plain {base : Nat} {text : List Nat} : base ≠ 0 → Numeral base text → Unsigned base text (digitsValue base text)
  | hex {base x : Nat} {text : List Nat} : base = 0 ∨ base = 16 → isX x = true → Numeral 16 text →
      Unsigned base ('0'.toNat :: x :: text) (digitsValue 16 text)
  | octal {text : List Nat} : Numeral 8 ('0'.toNat :: text) →
      Unsigned 0 ('0'.toNat :: text) (digitsValue 8 ('0'.toNat :: text))
  | decimal {c : Nat} {text : List Nat} : c ≠ '0'.toNat → Numeral 10 (c :: text) →
      Unsigned 0 (c :: text) (digitsValue 10 (c :: text))

/-- The optional sign, and whether it is a minus. -/
inductive Sign : List Nat → Bool → Prop where
  | none : Sign [] false
  | plus : Sign ['+'.toNat] false
  | minus : Sign ['-'.toNat] true

/-- White space, and a subject: whether it has a minus, and its magnitude. -/
def Subject (base : Nat) (text : List Nat) (negative : Bool) (magnitude : Nat) : Prop :=
  ∃ spaces sign digits, text = spaces ++ (sign ++ digits) ∧ (∀ c ∈ spaces, isCSpace c = true) ∧
    Sign sign negative ∧ Unsigned base digits magnitude

/-- The longest prefix of a string that is a subject. -/
structure Longest (base : Nat) (s text : List Nat) (negative : Bool) (magnitude : Nat) : Prop where
  prefixed : text <+: s
  subject : Subject base text negative magnitude
  longest : ∀ text' negative' magnitude', text' <+: s → Subject base text' negative' magnitude' →
    text'.length ≤ text.length

/-! ## Prefixes -/

theorem digitRun_prefix (base : Nat) (s : List Nat) : digitRun base s <+: s := List.takeWhile_prefix _

theorem digitRun_digits (base : Nat) (s : List Nat) : ∀ c ∈ digitRun base s, isDigitOf base c = true :=
  fun _ hc => List.mem_takeWhile_imp hc

/-- Every text of digits at the front of a string is part of the run. -/
theorem prefix_digitRun {base : Nat} {text s : List Nat} (hp : text <+: s) (h : ∀ c ∈ text, isDigitOf base c = true) :
    text <+: digitRun base s := by
  obtain ⟨rest, rfl⟩ := hp
  unfold digitRun
  rw [List.takeWhile_append_of_pos h]
  exact List.prefix_append _ _

/-- A numeral at the front of a string is no longer than the run, and is the run if
it is as long. -/
theorem Numeral.within {base : Nat} {text s : List Nat} (h : Numeral base text) (hp : text <+: s) :
    digitRun base s ≠ [] ∧ text.length ≤ (digitRun base s).length ∧
      (text.length = (digitRun base s).length → text = digitRun base s) := by
  have hrun := prefix_digitRun hp h.2
  refine ⟨?_, hrun.length_le, hrun.eq_of_length⟩
  rintro hnil
  rw [hnil] at hrun
  exact h.1 (List.prefix_nil.1 hrun)

theorem digitRun_numeral {base : Nat} {s : List Nat} (h : digitRun base s ≠ []) : Numeral base (digitRun base s) :=
  ⟨h, digitRun_digits base s⟩

theorem charAt_zero {s : List Nat} {c : Nat} (hc : c ≠ 0) (h : charAt s 0 = c) : ∃ rest, s = c :: rest := by
  cases s with
  | nil => exact absurd h.symm hc
  | cons d rest => exact ⟨rest, by rw [← h]; rfl⟩

theorem isX_ne_zero {x : Nat} (h : isX x = true) : x ≠ 0 := by
  rintro rfl
  revert h
  decide

/-- The letter of a prefix is a digit in no base that has one. -/
theorem isX_digit {x base : Nat} (hb : base ≤ 16) (h : isX x = true) : isDigitOf base x = false := by
  have hvalue : digitValue x = some 33 := by
    unfold isX at h
    rcases (of_decide_eq_true h : x = 'x'.toNat ∨ x = 'X'.toNat) with rfl | rfl <;> rfl
  unfold isDigitOf
  rw [hvalue]
  exact decide_eq_false (by omega)

/-! ## Behind the sign -/

/-- In `s` the base `b` was chosen and `taken` skipped, and the digits that follow
make the longest unsigned part. -/
structure Found (base : Nat) (s : List Nat) (b : Nat) (taken rest : List Nat) : Prop where
  split : s = taken ++ rest
  two_le : 2 ≤ b
  unsigned : digitRun b rest ≠ [] → Unsigned base (taken ++ digitRun b rest) (digitsValue b (digitRun b rest))
  within {text : List Nat} {v : Nat} : Unsigned base text v → text <+: s →
    digitRun b rest ≠ [] ∧ text.length ≤ (taken ++ digitRun b rest).length ∧
      (text.length = (taken ++ digitRun b rest).length → v = digitsValue b (digitRun b rest))

/-- Behind a prefix with a digit. -/
theorem found_hex {base x : Nat} {rest : List Nat} (hb : base = 0 ∨ base = 16) (hx : isX x = true)
    (hd : isDigitOf 16 (charAt rest 0) = true) : Found base ('0'.toNat :: x :: rest) 16 ['0'.toNat, x] rest := by
  have hrun : digitRun 16 rest ≠ [] := by
    cases rest with
    | nil => cases hd
    | cons c rest =>
      unfold digitRun
      rw [List.takeWhile_cons_of_pos (by exact hd)]
      exact List.cons_ne_nil _ _
  have hpos := List.length_pos_iff.2 hrun
  refine ⟨rfl, by decide, fun _ => .hex hb hx (digitRun_numeral hrun), fun {text v} hu hp => ⟨hrun, ?_⟩⟩
  -- A part without the prefix ends before its letter.
  have hshort : ∀ {base' : Nat}, base' ≤ 16 → (∀ c ∈ text, isDigitOf base' c = true) → text.length ≤ 1 := by
    intro base' hb' hall
    rcases text with _ | ⟨c, _ | ⟨d, text⟩⟩
    · exact Nat.zero_le _
    · exact Nat.le_refl _
    · obtain ⟨-, hp⟩ := List.cons_prefix_cons.1 hp
      obtain ⟨rfl, -⟩ := List.cons_prefix_cons.1 hp
      have := hall d (by simp)
      rw [isX_digit hb' hx] at this
      cases this
  simp only [List.length_append, List.length_cons, List.length_nil]
  cases hu with
  | plain hb0 hn =>
    have := hshort (by omega) hn.2
    omega
  | hex _ _ hn =>
    obtain ⟨-, hp⟩ := List.cons_prefix_cons.1 hp
    obtain ⟨-, hp⟩ := List.cons_prefix_cons.1 hp
    obtain ⟨-, hle, heq⟩ := hn.within hp
    simp only [List.length_cons]
    refine ⟨by omega, fun h => ?_⟩
    rw [heq (by omega)]
  | octal hn =>
    have := hshort (by decide) hn.2
    omega
  | decimal hc _ => exact absurd (List.cons_prefix_cons.1 hp).1 hc

/-- Where there is no such prefix. -/
theorem found_plain {base b : Nat} {s : List Nat}
    (hhex : base = 0 ∨ base = 16 → ∀ x text, isX x = true → Numeral 16 text → ¬ '0'.toNat :: x :: text <+: s)
    (hb : base ≠ 0 ∧ b = base ∧ 2 ≤ base ∨ base = 0 ∧ b = (if charAt s 0 = '0'.toNat then 8 else 10)) :
    Found base s b [] s := by
  have hhead : ∀ {c : Nat} {text : List Nat}, c :: text <+: s → charAt s 0 = c := by
    rintro c text ⟨rest, rfl⟩
    rfl
  refine ⟨rfl, ?_, fun hrun => ?_, fun {text v} hu hp => ?_⟩
  · rcases hb with ⟨-, rfl, h2⟩ | ⟨-, rfl⟩
    · exact h2
    · split <;> decide
  · rcases hb with ⟨h0, rfl, -⟩ | ⟨rfl, rfl⟩
    · exact .plain h0 (digitRun_numeral hrun)
    · have hn := digitRun_numeral hrun
      have hp := digitRun_prefix (if charAt s 0 = '0'.toNat then 8 else 10) s
      generalize digitRun (if charAt s 0 = '0'.toNat then 8 else 10) s = run at hn hp hrun
      obtain ⟨c, text, rfl⟩ := List.exists_cons_of_ne_nil hrun
      have hc := hhead hp
      rw [hc] at hn ⊢
      by_cases h0 : c = '0'.toNat
      · subst h0
        exact .octal hn
      · rw [if_neg h0] at hn ⊢
        exact .decimal h0 hn
  · have hdone : ∀ {base' : Nat} {text : List Nat}, Numeral base' text → text <+: s → b = base' →
        digitRun b s ≠ [] ∧ text.length ≤ ([] ++ digitRun b s).length ∧
          (text.length = ([] ++ digitRun b s).length → digitsValue base' text = digitsValue b (digitRun b s)) := by
      rintro base' text hn hp rfl
      obtain ⟨hne, hle, heq⟩ := hn.within hp
      exact ⟨hne, hle, fun h => congrArg _ (heq h)⟩
    cases hu with
    | plain h0 hn =>
      rcases hb with ⟨-, rfl, -⟩ | ⟨rfl, -⟩
      · exact hdone hn hp rfl
      · exact absurd rfl h0
    | hex hb' hx hn => exact absurd hp (hhex hb' _ _ hx hn)
    | octal hn =>
      rcases hb with ⟨h0, -, -⟩ | ⟨-, rfl⟩
      · exact absurd rfl h0
      · exact hdone hn hp (if_pos (hhead hp))
    | decimal hc hn =>
      rcases hb with ⟨h0, -, -⟩ | ⟨-, rfl⟩
      · exact absurd rfl h0
      · exact hdone hn hp (if_neg (by rw [hhead hp]; exact hc))

theorem charAt_prefix {s : List Nat} (h0 : charAt s 0 = '0'.toNat) (hx : isX (charAt s 1) = true) :
    ∃ x rest, s = '0'.toNat :: x :: rest ∧ isX x = true := by
  obtain ⟨t, rfl⟩ := charAt_zero (by decide) h0
  obtain ⟨rest, ht⟩ := charAt_zero (isX_ne_zero hx) (show charAt t 0 = charAt t 0 from rfl)
  exact ⟨charAt t 0, rest, congrArg _ ht, hx⟩

theorem takePrefix_found {base : Nat} (hb : base = 0 ∨ 2 ≤ base) (s : List Nat) :
    ∃ taken, Found base s (takePrefix base s).1 taken (takePrefix base s).2 := by
  by_cases hhex : (base = 0 ∨ base = 16) ∧ charAt s 0 = '0'.toNat ∧ isX (charAt s 1) = true ∧
      isDigitOf 16 (charAt s 2) = true
  · obtain ⟨hb16, h0, hx, hd⟩ := hhex
    obtain ⟨x, rest, rfl, -⟩ := charAt_prefix h0 hx
    have htake : takePrefix base ('0'.toNat :: x :: rest) = (16, rest) := by
      unfold takePrefix
      rcases hb16 with rfl | rfl
      · rw [if_pos rfl, if_pos h0, if_pos hx, if_pos hd]
        rfl
      · rw [if_neg (by decide), if_pos ⟨rfl, h0, hx⟩, if_pos hd]
        rfl
    rw [htake]
    exact ⟨_, found_hex hb16 hx hd⟩
  · have hno : base = 0 ∨ base = 16 → ∀ x text, isX x = true → Numeral 16 text → ¬ '0'.toNat :: x :: text <+: s := by
      rintro hb16 x text hx ⟨hne, hall⟩ ⟨rest, rfl⟩
      obtain ⟨c, text, rfl⟩ := List.exists_cons_of_ne_nil hne
      exact hhex ⟨hb16, rfl, hx, hall c (by simp)⟩
    refine ⟨[], ?_⟩
    unfold takePrefix
    by_cases h0 : base = 0
    · rw [if_pos h0]
      have hbase : ∀ {b : Nat}, b = (if charAt s 0 = '0'.toNat then 8 else 10) → Found base s b [] s :=
        fun h => found_plain hno (.inr ⟨h0, h⟩)
      split
      · rename_i hz
        have h8 : 8 = if charAt s 0 = '0'.toNat then 8 else 10 := (if_pos hz).symm
        split
        · rename_i hx
          rw [if_neg (fun hd => hhex ⟨.inl h0, hz, hx, hd⟩)]
          exact hbase h8
        · exact hbase h8
      · rename_i hz
        exact hbase (if_neg hz).symm
    · have hbase : Found base s base [] s := found_plain hno (.inl ⟨h0, rfl, hb.resolve_left h0⟩)
      rw [if_neg h0]
      split
      · rename_i hx
        rw [if_neg (fun hd => hhex ⟨.inr hx.1, hx.2.1, hx.2.2, hd⟩)]
        exact hbase
      · exact hbase

/-! ## Spaces and signs -/

theorem space_digit {c : Nat} (h : isCSpace c = true) : digitValue c = none := by
  unfold isCSpace at h
  rcases of_decide_eq_true h with rfl | rfl | rfl | rfl | rfl | rfl <;> rfl

/-- The unsigned part starts with a digit. -/
theorem Unsigned.head {base : Nat} {text : List Nat} {v : Nat} (h : Unsigned base text v) :
    ∃ c rest, text = c :: rest ∧ (digitValue c).isSome = true := by
  have hnumeral : ∀ {base : Nat} {c : Nat} {rest : List Nat}, Numeral base (c :: rest) → (digitValue c).isSome = true := by
    intro base c rest hn
    obtain ⟨d, hd, -⟩ := isDigitOf_iff.1 (hn.2 c (by simp))
    rw [hd]
    rfl
  cases h with
  | plain _ hn =>
    obtain ⟨c, rest, rfl⟩ := List.exists_cons_of_ne_nil hn.1
    exact ⟨c, rest, rfl, hnumeral hn⟩
  | hex => exact ⟨_, _, rfl, rfl⟩
  | octal => exact ⟨_, _, rfl, rfl⟩
  | decimal _ hn => exact ⟨_, _, rfl, hnumeral hn⟩

/-- The sign taken is that of every subject here. -/
theorem takeSign_spec (s : List Nat) :
    ∃ sign, s = sign ++ (takeSign s).2 ∧ Sign sign (takeSign s).1 ∧
      ∀ {sign' : List Nat} {negative' : Bool} {base : Nat} {digits : List Nat} {v : Nat}, Sign sign' negative' →
        Unsigned base digits v → sign' ++ digits <+: s →
          sign' = sign ∧ negative' = (takeSign s).1 ∧ digits <+: (takeSign s).2 := by
  unfold takeSign
  by_cases hsign : charAt s 0 = '+'.toNat ∨ charAt s 0 = '-'.toNat
  · rw [if_pos hsign]
    have hrest : ∃ c rest, s = c :: rest ∧ (c = '+'.toNat ∨ c = '-'.toNat) := by
      rcases hsign with h | h
      · obtain ⟨rest, rfl⟩ := charAt_zero (by decide) h
        exact ⟨_, rest, rfl, .inl rfl⟩
      · obtain ⟨rest, rfl⟩ := charAt_zero (by decide) h
        exact ⟨_, rest, rfl, .inr rfl⟩
    obtain ⟨c, rest, rfl, hc⟩ := hrest
    have hnone : digitValue c = none := by
      rcases hc with rfl | rfl <;> rfl
    refine ⟨[c], rfl, ?_, fun {sign' negative' base digits v} hs hu hp => ?_⟩
    · rcases hc with rfl | rfl
      · exact .plus
      · exact .minus
    · cases hs with
      | none =>
        obtain ⟨d, rest', rfl, hd⟩ := hu.head
        obtain ⟨rfl, -⟩ := List.cons_prefix_cons.1 hp
        rw [hnone] at hd
        cases hd
      | plus =>
        obtain ⟨rfl, hp'⟩ := List.cons_prefix_cons.1 hp
        exact ⟨rfl, rfl, hp'⟩
      | minus =>
        obtain ⟨rfl, hp'⟩ := List.cons_prefix_cons.1 hp
        exact ⟨rfl, rfl, hp'⟩
  · rw [if_neg hsign]
    refine ⟨[], rfl, .none, fun {sign' negative' base digits v} hs hu hp => ?_⟩
    cases hs with
    | none => exact ⟨rfl, rfl, hp⟩
    | plus =>
      obtain ⟨rest, rfl⟩ := hp
      exact absurd (.inl rfl) hsign
    | minus =>
      obtain ⟨rest, rfl⟩ := hp
      exact absurd (.inr rfl) hsign

/-- What follows the spaces of a subject does not start with one. -/
theorem subject_head {base : Nat} {sign digits : List Nat} {negative : Bool} {v : Nat} (hs : Sign sign negative)
    (hu : Unsigned base digits v) : ∃ c rest, sign ++ digits = c :: rest ∧ isCSpace c = false := by
  cases hs with
  | none =>
    obtain ⟨c, rest, rfl, hc⟩ := hu.head
    refine ⟨c, rest, rfl, ?_⟩
    by_contra hspace
    rw [space_digit (by simpa using hspace)] at hc
    cases hc
  | plus => exact ⟨_, _, rfl, rfl⟩
  | minus => exact ⟨_, _, rfl, rfl⟩

/-- Spaces at the front of a string with something else behind them. -/
theorem spaces_prefix {spaces rest s : List Nat} {c : Nat} (hall : ∀ c ∈ spaces, isCSpace c = true)
    (hc : isCSpace c = false) (h : spaces ++ c :: rest <+: s) :
    spaces = s.takeWhile isCSpace ∧ c :: rest <+: s.dropWhile isCSpace := by
  obtain ⟨tail, rfl⟩ := h
  rw [List.append_assoc, List.takeWhile_append_of_pos hall, List.dropWhile_append_of_pos hall, List.cons_append,
    List.takeWhile_cons_of_neg (by simp [hc]), List.dropWhile_cons_of_neg (by simp [hc]), List.append_nil]
  exact ⟨rfl, tail, rfl⟩

/-! ## The functions -/

/-- The prefix of the string that the functions read: the longest subject, which is
the only one of its length, or there is none. -/
theorem longest_read {base : Nat} (hb : base = 0 ∨ 2 ≤ base) (s : List Nat) :
    let signed := takeSign (s.dropWhile isCSpace)
    let based := takePrefix base signed.2
    let run := digitRun based.1 based.2
    ∃ text, s = text ++ based.2.dropWhile (isDigitOf based.1) ∧ 2 ≤ based.1 ∧
      (run ≠ [] → Subject base text signed.1 (digitsValue based.1 run)) ∧
      ∀ {text' : List Nat} {negative' : Bool} {v' : Nat}, text' <+: s → Subject base text' negative' v' →
        run ≠ [] ∧ text'.length ≤ text.length ∧
          (text'.length = text.length → negative' = signed.1 ∧ v' = digitsValue based.1 run) := by
  intro signed based run
  obtain ⟨sign, hsplit, hsign, hsigns⟩ := takeSign_spec (s.dropWhile isCSpace)
  obtain ⟨taken, hfound⟩ := takePrefix_found hb signed.2
  have hrun : based.2 = run ++ based.2.dropWhile (isDigitOf based.1) := List.takeWhile_append_dropWhile.symm
  refine ⟨s.takeWhile isCSpace ++ (sign ++ (taken ++ run)), ?_, hfound.two_le, ?_, ?_⟩
  · calc s = s.takeWhile isCSpace ++ s.dropWhile isCSpace := List.takeWhile_append_dropWhile.symm
      _ = s.takeWhile isCSpace ++ (sign ++ (taken ++ (run ++ based.2.dropWhile (isDigitOf based.1)))) := by
        rw [← hrun, ← hfound.split, ← hsplit]
      _ = _ := by simp only [List.append_assoc]
  · intro hne
    exact ⟨_, _, _, rfl, fun c hc => List.mem_takeWhile_imp hc, hsign, hfound.unsigned hne⟩
  · rintro text' negative' v' hp ⟨spaces, sign', digits, rfl, hall, hs, hu⟩
    obtain ⟨c, rest, hhead, hc⟩ := subject_head hs hu
    rw [hhead] at hp
    obtain ⟨rfl, hp'⟩ := spaces_prefix hall hc hp
    rw [← hhead] at hp'
    obtain ⟨rfl, rfl, hp''⟩ := hsigns hs hu hp'
    obtain ⟨hne, hle, heq⟩ := hfound.within hu hp''
    have hlength : digits.length ≤ (taken ++ run).length := hle
    have hsame : digits.length = (taken ++ run).length → v' = digitsValue based.1 run := heq
    refine ⟨hne, ?_, fun h => ⟨rfl, hsame ?_⟩⟩
    · simp only [List.length_append] at hlength ⊢
      omega
    · simp only [List.length_append] at h ⊢
      omega

/-- The result is that of the longest subject: its value, the end of it, and `ERANGE`
if it is out of range; without a subject it is zero and the start. -/
structure Converts (base : Nat) (s : List Nat) (value : Bool → Nat → Int) (inRange : Bool → Nat → Prop) (r : Strto) :
    Prop where
  none : (∀ text negative magnitude, text <+: s → ¬Subject base text negative magnitude) → r = ⟨0, some 0, none⟩
  value {text : List Nat} {negative : Bool} {magnitude : Nat} : Longest base s text negative magnitude →
    r.value = value negative magnitude ∧ r.endptr = some text.length
  errno {text : List Nat} {negative : Bool} {magnitude : Nat} : Longest base s text negative magnitude →
    (inRange negative magnitude → r.errno = Option.none) ∧ (¬inRange negative magnitude → r.errno = some erange)

/-- A base that is a base. -/
def ValidBase (base : Nat) : Prop := base = 0 ∨ (2 ≤ base ∧ base ≤ 36)

theorem strto_converts {base : Nat} (hb : ValidBase base) (s : List Nat) {limit : Bool → Nat}
    {result : Bool → Option Nat → Int} (hl : ∀ negative, 36 ≤ limit negative ∧ limit negative < 2 ^ 64) :
    Converts base s (fun negative v => result negative (if v ≤ limit negative then some v else none))
      (fun negative v => v ≤ limit negative) (strto limit result s base) := by
  have hb2 : base = 0 ∨ 2 ≤ base := hb.imp_right And.left
  have hvalid : ¬((base : Int) ≠ 0 ∧ ((base : Int) < 2 ∨ (base : Int) > 36)) := by
    rcases hb with rfl | h
    · simp
    · omega
  obtain ⟨text, hs, htwo, hsubject, hall⟩ := longest_read hb2 s
  unfold strto
  rw [if_neg hvalid, Int.toNat_natCast]
  dsimp only at hs htwo hsubject hall ⊢
  generalize takeSign (s.dropWhile isCSpace) = signed at hs htwo hsubject hall ⊢
  obtain ⟨negative, s₁⟩ := signed
  dsimp only at hs htwo hsubject hall ⊢
  generalize takePrefix base s₁ = based at hs htwo hsubject hall ⊢
  obtain ⟨b, s₂⟩ := based
  dsimp only at hs htwo hsubject hall ⊢
  obtain ⟨hany, hrest, hover, hvalue⟩ := accumulate_value (show 0 < b by omega) (hl negative).2 (hl negative).1 s₂
  generalize accumulate (limit negative) b {} s₂ = accumulated at hany hrest hover hvalue ⊢
  obtain ⟨a, s₃⟩ := accumulated
  dsimp only at hany hrest hover hvalue ⊢
  rw [hany, Bool.not_not]
  by_cases hrun : digitRun b s₂ = []
  · rw [if_pos (by simp [hrun])]
    refine ⟨fun _ => rfl, fun hlongest => ?_, fun hlongest => ?_⟩
    · exact absurd hrun (hall hlongest.prefixed hlongest.subject).1
    · exact absurd hrun (hall hlongest.prefixed hlongest.subject).1
  · rw [if_neg (by simpa using hrun)]
    have htext : text <+: s := ⟨_, hs.symm⟩
    have hend : s.length - s₃.length = text.length := by
      rw [hrest]
      have := congrArg List.length hs
      rw [List.length_append] at this
      omega
    have hthe : ∀ {text' : List Nat} {negative' : Bool} {magnitude : Nat}, Longest base s text' negative' magnitude →
        text' = text ∧ negative' = negative ∧ magnitude = digitsValue b (digitRun b s₂) := by
      intro text' negative' magnitude hlongest
      obtain ⟨-, hle, heq⟩ := hall hlongest.prefixed hlongest.subject
      have hlen : text'.length = text.length :=
        Nat.le_antisymm hle (hlongest.longest _ _ _ htext (hsubject hrun))
      exact ⟨(List.prefix_of_prefix_length_le hlongest.prefixed htext hle).eq_of_length hlen, heq hlen⟩
    have hcap : a.overflow = false → digitsValue b (digitRun b s₂) ≤ limit negative := by
      intro ho
      by_contra hgt
      rw [hover.2 (Nat.lt_of_not_le hgt)] at ho
      cases ho
    rw [hend]
    refine ⟨fun hno => absurd (hsubject hrun) (hno _ _ _ htext), fun hlongest => ?_, fun hlongest => ?_⟩
    · obtain ⟨rfl, rfl, rfl⟩ := hthe hlongest
      cases ho : a.overflow with
      | true => rw [if_pos rfl, if_neg (Nat.not_le.2 (hover.1 ho))]; exact ⟨rfl, rfl⟩
      | false => rw [if_neg Bool.false_ne_true, if_pos (hcap ho), hvalue ho]; exact ⟨rfl, rfl⟩
    · obtain ⟨rfl, rfl, rfl⟩ := hthe hlongest
      cases ho : a.overflow with
      | true => exact ⟨fun hle => absurd (hover.1 ho) (Nat.not_lt.2 hle), fun _ => rfl⟩
      | false => exact ⟨fun _ => rfl, fun hgt => absurd (hcap ho) hgt⟩

/-- The number a subject stands for. -/
def exact (negative : Bool) (magnitude : Nat) : Int := if negative then -magnitude else magnitude

/-- The range of `long` and `long long`. -/
def InLong (n : Int) : Prop := -2 ^ 63 ≤ n ∧ n ≤ 2 ^ 63 - 1

def clampLong (n : Int) : Int := max (-2 ^ 63) (min n (2 ^ 63 - 1))

/-- What `strtoul` returns of a magnitude. -/
def wrapped (negative : Bool) (magnitude : Nat) : Int :=
  if 2 ^ 64 - 1 < magnitude then 2 ^ 64 - 1 else exact negative magnitude % 2 ^ 64

theorem Converts.congr {base : Nat} {s : List Nat} {value value' : Bool → Nat → Int} {inRange inRange' : Bool → Nat → Prop}
    {r : Strto} (h : Converts base s value inRange r) (hv : ∀ negative v, value negative v = value' negative v)
    (hr : ∀ negative v, inRange negative v ↔ inRange' negative v) : Converts base s value' inRange' r := by
  obtain rfl : value = value' := funext fun negative => funext (hv negative)
  obtain rfl : inRange = inRange' := funext fun negative => funext fun v => propext (hr negative v)
  exact h

theorem inLong_exact (negative : Bool) (v : Nat) : v ≤ signedLimit negative ↔ InLong (exact negative v) := by
  unfold signedLimit longMax InLong exact
  cases negative
  · rw [if_neg Bool.false_ne_true, if_neg Bool.false_ne_true]
    omega
  · rw [if_pos rfl, if_pos rfl]
    omega

theorem signedResult_exact (negative : Bool) (v : Nat) :
    signedResult negative (if v ≤ signedLimit negative then some v else none) = clampLong (exact negative v) := by
  have hmax : (longMax : Int) = 2 ^ 63 - 1 := rfl
  unfold signedLimit clampLong exact
  cases negative
  · rw [if_neg Bool.false_ne_true, if_neg Bool.false_ne_true]
    split
    · show (v : Int) = _
      unfold longMax at *
      omega
    · show (longMax : Int) = _
      unfold longMax at *
      omega
  · rw [if_pos rfl, if_pos rfl]
    split
    · unfold signedResult
      dsimp only
      rw [if_pos rfl]
      split
      · rename_i heq
        rw [heq, hmax]
        rfl
      · unfold longMax at *
        omega
    · show -(longMax : Int) - 1 = _
      unfold longMax at *
      omega

theorem unsignedResult_exact (negative : Bool) (v : Nat) :
    unsignedResult negative (if v ≤ ulongMax then some v else none) = wrapped negative v := by
  unfold wrapped exact
  by_cases hle : v ≤ ulongMax
  · rw [if_pos hle, if_neg (by unfold ulongMax at hle; omega)]
    unfold ulongMax at hle
    cases negative
    · show (v : Int) = (v : Int) % 2 ^ 64
      omega
    · show (((2 ^ 64 - v) % 2 ^ 64 : Nat) : Int) = -(v : Int) % 2 ^ 64
      omega
  · rw [if_neg hle, if_pos (by unfold ulongMax at hle; omega)]
    rfl

/-- The three functions convert every string in every base. -/
theorem strto_subject {base : Nat} (hb : ValidBase base) (s : List Nat) :
    Converts base s (fun negative v => clampLong (exact negative v)) (fun negative v => InLong (exact negative v))
        (strtol s base) ∧
      Converts base s (fun negative v => clampLong (exact negative v)) (fun negative v => InLong (exact negative v))
        (strtoll s base) ∧
      Converts base s wrapped (fun _ v => v ≤ 2 ^ 64 - 1) (strtoul s base) := by
  have hsigned : Converts base s (fun negative v => clampLong (exact negative v))
      (fun negative v => InLong (exact negative v)) (strto signedLimit signedResult s base) := by
    refine (strto_converts hb s ?_).congr signedResult_exact inLong_exact
    intro negative
    cases negative <;> decide
  refine ⟨hsigned, hsigned, ?_⟩
  refine (strto_converts hb s ?_).congr unsignedResult_exact fun _ _ => Iff.rfl
  intro _
  decide

/-- The least `long` in base 16, with something behind it. -/
theorem strto_subject_least : Converts 16 ("  -0x8000000000000000g".toList.map Char.toNat)
    (fun negative v => clampLong (exact negative v)) (fun negative v => InLong (exact negative v))
    (strtol ("  -0x8000000000000000g".toList.map Char.toNat) (16 : Nat)) ∧
      strtol ("  -0x8000000000000000g".toList.map Char.toNat) (16 : Nat) = ⟨-2 ^ 63, some 21, none⟩ :=
  ⟨(strto_subject (.inr (by decide)) _).1, by decide⟩

end MiniLibc.Stdlib
