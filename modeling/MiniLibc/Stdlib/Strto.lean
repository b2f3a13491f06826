import MiniLibc.Lib.Numeral
/-!
# Integers from strings

`src/stdlib/strtol.c` and `strtoul.c`. A string is the list of its character codes
before the terminator, and a pointer into it is what follows there.
-/
open MiniLibc.Numeral

namespace MiniLibc.Stdlib

def einval : Nat := 22

def erange : Nat := 34

/-! ## Characters -/

/-- `is_c_space`. -/
def isCSpace (c : Nat) : Bool := c = ' '.toNat ∨ c = 9 ∨ c = 10 ∨ c = 11 ∨ c = 12 ∨ c = 13

/-- `digit_value`. `none` is `-1`. -/
def digitValue (c : Nat) : Option Nat :=
  if '0'.toNat ≤ c ∧ c ≤ '9'.toNat then some (c - '0'.toNat)
  else if 'a'.toNat ≤ c ∧ c ≤ 'z'.toNat then some (c - 'a'.toNat + 10)
  else if 'A'.toNat ≤ c ∧ c ≤ 'Z'.toNat then some (c - 'A'.toNat + 10)
  else none

def isX (c : Nat) : Bool := c = 'x'.toNat ∨ c = 'X'.toNat

/-- `s[i]`, which is the terminator behind the characters. -/
def charAt (s : List Nat) (i : Nat) : Nat := s.getD i 0

/-- The character is a digit of the base. -/
def isDigitOf (base c : Nat) : Bool := (digitValue c).any (· < base)

/-! ## The parts of the loop -/

/-- `negative`, and what follows the sign. -/
def takeSign (s : List Nat) : Bool × List Nat :=
  if charAt s 0 = '+'.toNat ∨ charAt s 0 = '-'.toNat then (charAt s 0 = '-'.toNat, s.drop 1) else (false, s)

/-- The base of the digits, and the string behind a hexadecimal prefix. -/
def takePrefix (base : Nat) (s : List Nat) : Nat × List Nat :=
  if base = 0 then
    if charAt s 0 = '0'.toNat then
      if isX (charAt s 1) then
        if isDigitOf 16 (charAt s 2) then (16, s.drop 2) else (8, s)
      else (8, s)
    else (10, s)
  else if base = 16 ∧ charAt s 0 = '0'.toNat ∧ isX (charAt s 1) then
    if isDigitOf 16 (charAt s 2) then (base, s.drop 2) else (base, s)
  else (base, s)

/-- `value`, `any` and `overflow`. -/
structure Accumulated where
  value : Nat := 0
  any : Bool := false
  overflow : Bool := false
deriving DecidableEq, Repr

/-- One digit. -/
def Accumulated.next (a : Accumulated) (limit base digit : Nat) : Accumulated :=
  if a.overflow then { a with any := true }
  else if a.value > (limit - digit) / base then { a with any := true, overflow := true }
  else { a with any := true, value := (a.value * base + digit) % 2 ^ 64 }

/-- The loop over the digits, and what follows them. -/
def accumulate (limit base : Nat) (a : Accumulated) : List Nat → Accumulated × List Nat
  | [] => (a, [])
  | c :: rest =>
    match digitValue c with
    | none => (a, c :: rest)
    | some digit =>
      if base ≤ digit then (a, c :: rest) else accumulate limit base (a.next limit base digit) rest

/-- The value returned, the offset stored through `endptr`, and the `errno` set. -/
structure Strto where
  value : Int
  endptr : Option Nat
  errno : Option Nat
deriving DecidableEq, Repr

/-- What the functions share. They differ in the limit under a sign, and in what they
return of a sign and a value, or of an overflow (`none`). -/
def strto (limit : Bool → Nat) (result : Bool → Option Nat → Int) (nptr : List Nat) (base : Int) : Strto :=
  if base ≠ 0 ∧ (base < 2 ∨ base > 36) then ⟨0, none, some einval⟩
  else
    let s := nptr.dropWhile isCSpace
    let (negative, s) := takeSign s
    let (base, s) := takePrefix base.toNat s
    let (a, s) := accumulate (limit negative) base {} s
    if !a.any then ⟨0, some 0, none⟩
    else
      let endptr := some (nptr.length - s.length)
      if a.overflow then ⟨result negative none, endptr, some erange⟩
      else ⟨result negative (some a.value), endptr, none⟩

/-- `long_max`. -/
def longMax : Nat := 2 ^ 63 - 1

def signedLimit (negative : Bool) : Nat := if negative then longMax + 1 else longMax

def signedResult (negative : Bool) : Option Nat → Int
  | none => if negative then -longMax - 1 else longMax
  | some value => if negative then if value = longMax + 1 then -longMax - 1 else -value else value

def strtol : List Nat → Int → Strto := strto signedLimit signedResult

def strtoll : List Nat → Int → Strto := strto signedLimit signedResult

/-- `~0UL`. -/
def ulongMax : Nat := 2 ^ 64 - 1

def unsignedResult (negative : Bool) : Option Nat → Int
  | none => ulongMax
  | some value => if negative then ((2 ^ 64 - value) % 2 ^ 64 : Nat) else value

def strtoul : List Nat → Int → Strto := strto (fun _ => ulongMax) unsignedResult

/-! ## The digits -/

/-- The digits that a string starts with. -/
def digitRun (base : Nat) (s : List Nat) : List Nat := s.takeWhile (isDigitOf base)

/-- The value of a text of digits. -/
def digitsValue (base : Nat) (text : List Nat) : Nat := readDigits base 0 (text.filterMap digitValue)

theorem isDigitOf_iff {base c : Nat} : isDigitOf base c = true ↔ ∃ d, digitValue c = some d ∧ d < base := by
  unfold isDigitOf
  cases digitValue c <;> simp

theorem digitValue_lt {c d : Nat} (h : digitValue c = some d) : d < 36 := by
  have h0 : '0'.toNat = 48 := rfl
  have h9 : '9'.toNat = 57 := rfl
  have ha : 'a'.toNat = 97 := rfl
  have hz : 'z'.toNat = 122 := rfl
  have hA : 'A'.toNat = 65 := rfl
  have hZ : 'Z'.toNat = 90 := rfl
  unfold digitValue at h
  split at h
  · cases h
    omega
  split at h
  · cases h
    omega
  split at h
  · cases h
    omega
  · cases h

/-- How the loop's variables stand for the number read so far. -/
structure Accumulated.Holds (a : Accumulated) (limit : Nat) (number : Option Nat) : Prop where
  overflow : a.overflow = number.isNone
  value : ∀ v, number = some v → a.value = v ∧ v ≤ limit

theorem Accumulated.Holds.next {a : Accumulated} {limit base digit : Nat} {number : Option Nat}
    (h : a.Holds limit number) (hb : 0 < base) (hd : digit ≤ limit) (hl : limit < 2 ^ 64) :
    (a.next limit base digit).Holds limit (readCapped limit base number [digit]) ∧ (a.next limit base digit).any = true := by
  unfold Accumulated.next
  cases number with
  | none =>
    have hover : a.overflow = true := h.overflow
    rw [if_pos hover]
    exact ⟨⟨h.overflow, nofun⟩, rfl⟩
  | some v =>
    obtain ⟨hv, hle⟩ := h.value v rfl
    have hstep : readCapped limit base (some v) [digit] =
        if v * base + digit ≤ limit then some (v * base + digit) else none := rfl
    rw [if_neg (by simp [h.overflow]), hstep, hv]
    by_cases hcap : v * base + digit ≤ limit
    · rw [if_neg (fun hlt => (quotient_lt_iff hb hd).1 hlt hcap), if_pos hcap]
      refine ⟨⟨h.overflow, ?_⟩, rfl⟩
      rintro _ ⟨⟩
      exact ⟨Nat.mod_eq_of_lt (by omega), hcap⟩
    · rw [if_pos ((quotient_lt_iff hb hd).2 hcap), if_neg hcap]
      exact ⟨⟨rfl, nofun⟩, rfl⟩

/-- The loop reads the digits the string starts with. -/
theorem accumulate_spec {limit base : Nat} (hb : 0 < base) (hl : limit < 2 ^ 64) (hlimit : 36 ≤ limit)
    {a : Accumulated} {number : Option Nat} (h : a.Holds limit number) (s : List Nat) :
    (accumulate limit base a s).1.Holds limit
        (readCapped limit base number ((digitRun base s).filterMap digitValue)) ∧
      (accumulate limit base a s).1.any = (a.any || !(digitRun base s).isEmpty) ∧
      (accumulate limit base a s).2 = s.dropWhile (isDigitOf base) := by
  induction s generalizing a number with
  | nil => exact ⟨h, by simp [accumulate, digitRun], rfl⟩
  | cons c rest ih =>
    unfold accumulate digitRun
    cases hc : digitValue c with
    | none =>
      have hno : isDigitOf base c = false := by simp [isDigitOf, hc]
      rw [List.takeWhile_cons_of_neg (by simp [hno]), List.dropWhile_cons_of_neg (by simp [hno])]
      exact ⟨h, by simp, rfl⟩
    | some digit =>
      dsimp only
      split
      · rename_i hbig
        have hno : isDigitOf base c = false := by simp [isDigitOf, hc, hbig]
        rw [List.takeWhile_cons_of_neg (by simp [hno]), List.dropWhile_cons_of_neg (by simp [hno])]
        exact ⟨h, by simp, rfl⟩
      · rename_i hsmall
        have hyes : isDigitOf base c = true := isDigitOf_iff.2 ⟨digit, hc, by omega⟩
        have hd := digitValue_lt hc
        obtain ⟨hnext, hany⟩ := h.next hb (show digit ≤ limit by omega) hl
        obtain ⟨hholds, hany', hrest⟩ := ih hnext
        rw [List.takeWhile_cons_of_pos hyes, List.dropWhile_cons_of_pos hyes, List.filterMap_cons_some hc]
        refine ⟨hholds, ?_, hrest⟩
        rw [hany', hany]
        simp

/-- From nothing, the loop has the value of the digits, or finds it over the limit. -/
theorem accumulate_value {limit base : Nat} (hb : 0 < base) (hl : limit < 2 ^ 64) (hlimit : 36 ≤ limit) (s : List Nat) :
    let a := (accumulate limit base {} s).1
    a.any = !(digitRun base s).isEmpty ∧ (accumulate limit base {} s).2 = s.dropWhile (isDigitOf base) ∧
      (a.overflow = true ↔ limit < digitsValue base (digitRun base s)) ∧
      (a.overflow = false → a.value = digitsValue base (digitRun base s)) := by
  intro a
  have hstart : Accumulated.Holds {} limit (some 0) := by
    refine ⟨rfl, ?_⟩
    rintro _ ⟨⟩
    exact ⟨rfl, Nat.zero_le _⟩
  obtain ⟨hholds, hany, hrest⟩ := accumulate_spec hb hl hlimit hstart s
  rw [readCapped_eq hb (Nat.zero_le _)] at hholds
  refine ⟨hany, hrest, ?_, ?_⟩
  · rw [hholds.overflow]
    unfold digitsValue
    split
    · rename_i hle
      simpa using hle
    · rename_i hgt
      simpa using Nat.lt_of_not_le hgt
  · intro hno
    have hov := hholds.overflow
    rw [hno] at hov
    split at hov
    · rename_i hle
      rw [if_pos hle] at hholds
      exact (hholds.value _ rfl).1
    · cases hov

end MiniLibc.Stdlib
