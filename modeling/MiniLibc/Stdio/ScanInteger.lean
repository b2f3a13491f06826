import MiniLibc.Stdio.ScanString
import MiniLibc.Stdlib.Subject
/-!
# Scanned integers

`scan_integer` over a string, and `strtol` and `strtoul` on the same string.
-/
open MiniLibc.FloatParse MiniLibc.Memory MiniLibc.Numeral
open MiniLibc.Stdlib (digitValue digitRun digitsValue isDigitOf isDigitOf_iff isCSpace isX charAt takeSign takePrefix strto
  strtol strtoul)

namespace MiniLibc.Stdio

variable {utf8 : Bool} {args : ScanArgs} {memory : Mem}

/-! ## Characters -/

theorem isScanSpace_nat (c : Nat) : isScanSpace c = isCSpace c := by
  unfold isScanSpace isCSpace
  have h32 : ' '.toNat = 32 := rfl
  apply decide_eq_decide.2
  omega

/-- The digits of the bases that the scanner has. -/
theorem scanDigitValue_nat {base : Nat} (hb : base ≤ 16) (c : Nat) :
    (scanDigitValue c).filter (· < base) = (digitValue c).filter (· < base) := by
  have h0 : '0'.toNat = 48 := rfl
  have h9 : '9'.toNat = 57 := rfl
  have ha : 'a'.toNat = 97 := rfl
  have hf : 'f'.toNat = 102 := rfl
  have hz : 'z'.toNat = 122 := rfl
  have hA : 'A'.toNat = 65 := rfl
  have hF : 'F'.toNat = 70 := rfl
  have hZ : 'Z'.toNat = 90 := rfl
  unfold scanDigitValue digitValue
  rw [h0, h9, ha, hf, hz, hA, hF, hZ]
  by_cases hdigit : 48 ≤ c ∧ c ≤ 57
  · have hvalue : ((c : Int) - (48 : Nat)).toNat = c - 48 := by omega
    rw [if_pos (by omega), if_pos hdigit, hvalue]
  rw [if_neg (by omega), if_neg hdigit]
  by_cases hlower : 97 ≤ c ∧ c ≤ 102
  · have hvalue : ((c : Int) - (97 : Nat) + 10).toNat = c - 97 + 10 := by omega
    rw [if_pos (by omega), if_pos (by omega), hvalue]
  rw [if_neg (by omega)]
  by_cases hupper : 65 ≤ c ∧ c ≤ 70
  · have hvalue : ((c : Int) - (65 : Nat) + 10).toNat = c - 65 + 10 := by omega
    rw [if_pos (by omega), if_neg (by omega), if_pos (by omega), hvalue]
  rw [if_neg (by omega)]
  -- The letters behind f are digits of no base here.
  split
  · rw [Option.filter_some, if_neg (by simp; omega), Option.filter_none]
  split
  · rw [Option.filter_some, if_neg (by simp; omega), Option.filter_none]
  · rfl

/-! ## The loop -/

/-- The digits, read one behind the other. -/
def ScanNumber.read (a : ScanNumber) (base : Nat) (digits : List Nat) : ScanNumber :=
  digits.foldl (fun a digit => a.accumulate base digit) a

/-- How the variables of the loop stand for the number read so far. -/
structure ScanNumber.Holds (a : ScanNumber) (count : Nat) (number : Option Nat) : Prop where
  digits : a.digits = count % 2 ^ 32
  overflow : a.overflow = number.isNone
  magnitude : ∀ v, number = some v → a.magnitude = v

theorem ScanNumber.Holds.accumulate {a : ScanNumber} {count base digit : Nat} {number : Option Nat}
    (h : a.Holds count number) (hb : 0 < base) (hd : digit ≤ 2 ^ 64 - 1) :
    (a.accumulate base digit).Holds (count + 1) (readCapped (2 ^ 64 - 1) base number [digit]) := by
  have hcount : (a.digits + 1) % 2 ^ 32 = (count + 1) % 2 ^ 32 := by
    rw [h.digits]
    omega
  unfold ScanNumber.accumulate
  dsimp only
  cases number with
  | none =>
    rw [if_pos (show a.overflow = true from h.overflow)]
    exact ⟨hcount, h.overflow, nofun⟩
  | some v =>
    have hstep : readCapped (2 ^ 64 - 1) base (some v) [digit] =
        if v * base + digit ≤ 2 ^ 64 - 1 then some (v * base + digit) else none := rfl
    rw [if_neg (by simp [h.overflow]), hstep, h.magnitude v rfl]
    by_cases hcap : v * base + digit ≤ 2 ^ 64 - 1
    · rw [if_neg (fun hlt => (quotient_lt_iff hb hd).1 hlt hcap), if_pos hcap]
      refine ⟨hcount, h.overflow, ?_⟩
      rintro _ ⟨⟩
      rfl
    · rw [if_pos ((quotient_lt_iff hb hd).2 hcap), if_neg hcap]
      exact ⟨hcount, rfl, nofun⟩

theorem ScanNumber.Holds.read {a : ScanNumber} {count base : Nat} {number : Option Nat} {digits : List Nat}
    (h : a.Holds count number) (hb : 0 < base) (hd : ∀ d ∈ digits, d ≤ 2 ^ 64 - 1) :
    (a.read base digits).Holds (count + digits.length) (readCapped (2 ^ 64 - 1) base number digits) := by
  induction digits generalizing a count number with
  | nil => exact h
  | cons d ds ih =>
    have hnext := ih (h.accumulate hb (hd d (List.mem_cons_self ..))) fun e he => hd e (List.mem_cons_of_mem d he)
    rw [Nat.add_right_comm] at hnext
    exact hnext

/-- A character is a digit of the base, or the loop ends at it. -/
theorem filter_digit (base c : Nat) :
    (isDigitOf base c = true ∧ ∃ digit, digitValue c = some digit ∧ (digitValue c).filter (· < base) = some digit) ∨
      (isDigitOf base c = false ∧ (digitValue c).filter (· < base) = none) := by
  unfold isDigitOf
  cases digitValue c with
  | none => exact .inr ⟨rfl, rfl⟩
  | some digit =>
    by_cases hlt : digit < base
    · exact .inl ⟨by simpa using hlt, digit, rfl, by simpa using hlt⟩
    · exact .inr ⟨by simpa using hlt, by simpa using hlt⟩

/-- The loop reads the digits the string starts with. -/
theorem integerLoop_list {base : Nat} (hb : base ≤ 16) (rest : List Nat) (c : Nat) (a : ScanNumber) {remaining : Nat}
    (hr : rest.length < remaining) :
    integerLoop (listSource utf8) base a c ⟨rest, args, memory⟩ remaining =
      (.success, a.read base ((digitRun base (c :: rest)).filterMap digitValue),
        ⟨(c :: rest).dropWhile (isDigitOf base), args, memory⟩) := by
  induction rest generalizing c a remaining with
  | nil =>
    obtain ⟨remaining, rfl⟩ : ∃ n, remaining = n + 1 := ⟨remaining - 1, by omega⟩
    unfold integerLoop digitRun
    rw [scanDigitValue_nat hb]
    rcases filter_digit base c with ⟨hyes, digit, hvalue, hfilter⟩ | ⟨hno, hfilter⟩
    · rw [hfilter, List.takeWhile_cons_of_pos hyes, List.dropWhile_cons_of_pos hyes, List.filterMap_cons_some hvalue]
      dsimp only
      split <;> rfl
    · rw [hfilter, List.takeWhile_cons_of_neg (by simp [hno]), List.dropWhile_cons_of_neg (by simp [hno])]
      rfl
  | cons d rest ih =>
    obtain ⟨remaining, rfl⟩ : ∃ n, remaining = n + 1 := ⟨remaining - 1, by omega⟩
    unfold integerLoop digitRun
    rw [scanDigitValue_nat hb]
    rcases filter_digit base c with ⟨hyes, digit, hvalue, hfilter⟩ | ⟨hno, hfilter⟩
    · rw [List.length_cons] at hr
      rw [hfilter, List.takeWhile_cons_of_pos hyes, List.dropWhile_cons_of_pos hyes, List.filterMap_cons_some hvalue]
      dsimp only
      rw [if_neg (by omega)]
      exact ih d (a.accumulate base digit) (by omega)
    · rw [hfilter, List.takeWhile_cons_of_neg (by simp [hno]), List.dropWhile_cons_of_neg (by simp [hno])]
      rfl

/-- White space ends within the string. -/
theorem skipSpace_list {space : Int → Bool} {p : Nat → Bool} (hp : ∀ c : Nat, space c = p c) {fuel : Nat} {l : List Nat}
    (hf : l.length < fuel) : (listSource utf8).skipSpace space fuel l = some (true, l.dropWhile p) := by
  induction l generalizing fuel with
  | nil =>
    obtain ⟨fuel, rfl⟩ : ∃ n, fuel = n + 1 := ⟨fuel - 1, by omega⟩
    rfl
  | cons c rest ih =>
    obtain ⟨fuel, rfl⟩ : ∃ n, fuel = n + 1 := ⟨fuel - 1, by omega⟩
    have hget : (listSource utf8).get (c :: rest) = (some (c : Int), rest) := rfl
    rw [List.length_cons] at hf
    unfold FloatSource.skipSpace
    rw [hget]
    dsimp only
    rw [hp c]
    by_cases hc : p c = true
    · rw [if_pos hc, List.dropWhile_cons_of_pos hc]
      exact ih (by omega)
    · rw [if_neg hc, List.dropWhile_cons_of_neg hc]
      rfl

/-! ## A conversion -/

/-- Behind the sign is a prefix without a digit, in a base that has one. -/
def IncompletePrefix (base : Nat) (s : List Nat) : Prop :=
  (base = 0 ∨ base = 16) ∧ charAt s 0 = '0'.toNat ∧ isX (charAt s 1) = true ∧ isDigitOf 16 (charAt s 2) = false

/-- What follows the white space and the sign. -/
def behindSign (s : List Nat) : List Nat := (takeSign (s.dropWhile isCSpace)).2

theorem isX_int (c : Nat) : ((c : Int) = 'x'.toNat ∨ (c : Int) = 'X'.toNat) ↔ isX c = true := by
  unfold isX
  rw [decide_eq_true_eq]
  omega

/-- The prefix that `strtol` takes, by what the scanner looks at. -/
theorem takePrefix_cases (base : Nat) (c : Nat) (rest : List Nat) :
    takePrefix base (c :: rest) =
      if (base = 0 ∨ base = 16) ∧ c = '0'.toNat then
        if isX (charAt rest 0) ∧ isDigitOf 16 (charAt rest 1) then (16, rest.drop 1)
        else (if base = 0 then 8 else 16, c :: rest)
      else (if base = 0 then 10 else base, c :: rest) := by
  have h0 : charAt (c :: rest) 0 = c := rfl
  have h1 : charAt (c :: rest) 1 = charAt rest 0 := rfl
  have h2 : charAt (c :: rest) 2 = charAt rest 1 := rfl
  have hdrop : (c :: rest).drop 2 = rest.drop 1 := rfl
  unfold takePrefix
  rw [h0, h1, h2, hdrop]
  by_cases hzero : base = 0
  · subst hzero
    by_cases hc : c = '0'.toNat <;> by_cases hx : isX (charAt rest 0) = true <;>
      by_cases hd : isDigitOf 16 (charAt rest 1) = true <;> simp [hc, hx, hd]
  · by_cases hsixteen : base = 16
    · subst hsixteen
      by_cases hc : c = '0'.toNat <;> by_cases hx : isX (charAt rest 0) = true <;>
        by_cases hd : isDigitOf 16 (charAt rest 1) = true <;> simp [hc, hx, hd]
    · simp [hzero, hsixteen]

/-- `scan_integer` behind the sign: it reads the digits that `strtol` reads, unless the
prefix is incomplete. -/
theorem integerDigits_list (spec : ScanSpec) {base : Nat} (hb : base ≤ 16) (signed negative : Bool) (c : Nat)
    (rest : List Nat) {remaining : Nat} (hr : rest.length + 1 < remaining) :
    let based := takePrefix base (c :: rest)
    (¬IncompletePrefix base (c :: rest) →
      integerDigits (listSource utf8) spec base signed negative c ⟨rest, args, memory⟩ remaining =
        integerDone (listSource utf8) spec signed negative
          (ScanNumber.read {} based.1 ((digitRun based.1 based.2).filterMap digitValue))
          ⟨based.2.dropWhile (isDigitOf based.1), args, memory⟩) ∧
      (IncompletePrefix base (c :: rest) →
        let r := integerDigits (listSource utf8) spec base signed negative c ⟨rest, args, memory⟩ remaining
        r.1 ≠ .success ∧ r.2.memory = memory) := by
  have hcast : ((c : Int) = '0'.toNat) ↔ c = '0'.toNat := by omega
  intro based
  have hbased : based = takePrefix base (c :: rest) := rfl
  rw [takePrefix_cases] at hbased
  unfold integerDigits
  dsimp only
  by_cases hzero : (base = 0 ∨ base = 16) ∧ c = '0'.toNat
  · rw [if_pos hzero] at hbased
    rw [if_pos ⟨hzero.1, hcast.2 hzero.2, by omega⟩]
    obtain ⟨hbase, rfl⟩ := hzero
    have hb' : (if base = 0 then 8 else 16) ≤ 16 := by split <;> omega
    have hdigit : isDigitOf (if base = 0 then 8 else 16) '0'.toNat = true := by split <;> decide
    generalize (if base = 0 then 8 else 16) = octal at hbased hb' hdigit ⊢
    have hplain : isX (charAt rest 0) ≠ true → ¬IncompletePrefix base ('0'.toNat :: rest) := fun hx h => hx h.2.2.1
    cases rest with
    | nil =>
      refine ⟨fun _ => ?_, fun h => absurd h (hplain (by decide))⟩
      have hno : ¬(isX (charAt [] 0) = true ∧ isDigitOf 16 (charAt [] 1) = true) := by decide
      rw [hbased, if_neg hno]
      unfold digitRun
      rw [List.takeWhile_cons_of_pos hdigit, List.dropWhile_cons_of_pos hdigit]
      rfl
    | cons next u =>
      rw [List.length_cons] at hr
      have hget : Scan.get (listSource utf8) ⟨next :: u, args, memory⟩ = (some (next : Int), ⟨u, args, memory⟩) := rfl
      rw [hget]
      dsimp only
      by_cases hx : isX next = true
      · rw [if_pos ((isX_int next).2 hx), if_neg (by omega)]
        cases u with
        | nil =>
          refine ⟨fun h => absurd ⟨hbase, rfl, hx, rfl⟩ h, fun _ => ⟨nofun, rfl⟩⟩
        | cons d v =>
          rw [List.length_cons] at hr
          have hget' : Scan.get (listSource utf8) ⟨d :: v, args, memory⟩ = (some (d : Int), ⟨v, args, memory⟩) := rfl
          rw [hget']
          dsimp only
          rw [integerLoop_list (Nat.le_refl 16) v d {} (by omega)]
          by_cases hd : isDigitOf 16 d = true
          · refine ⟨fun _ => ?_, fun h => absurd (hd.symm.trans h.2.2.2) (by decide)⟩
            rw [hbased, if_pos ⟨hx, hd⟩]
            rfl
          · refine ⟨fun h => absurd ⟨hbase, rfl, hx, Bool.eq_false_of_not_eq_true hd⟩ h, fun _ => ?_⟩
            unfold digitRun
            rw [List.takeWhile_cons_of_neg hd]
            exact ⟨nofun, rfl⟩
      · rw [if_neg (fun h => hx ((isX_int next).1 h))]
        refine ⟨fun _ => ?_, fun h => absurd h (hplain hx)⟩
        have hno : ¬(isX (charAt (next :: u) 0) = true ∧ isDigitOf 16 (charAt (next :: u) 1) = true) := fun h => hx h.1
        rw [integerLoop_list hb' u next _ (by omega), hbased, if_neg hno]
        have hvalue : digitValue '0'.toNat = some 0 := by decide
        unfold digitRun
        rw [List.takeWhile_cons_of_pos hdigit, List.dropWhile_cons_of_pos hdigit, List.filterMap_cons_some hvalue]
        rfl
  · rw [if_neg hzero] at hbased
    have hcomplete : ¬IncompletePrefix base (c :: rest) := fun h => hzero ⟨h.1, h.2.1⟩
    rw [if_neg (fun h => hzero ⟨h.1, hcast.1 h.2.1⟩)]
    refine ⟨fun _ => ?_, fun h => absurd h hcomplete⟩
    have hbase : (if base = 0 then if (c : Int) = '0'.toNat then 8 else 10 else base) = if base = 0 then 10 else base := by
      split
      · rename_i h0
        rw [if_neg (fun h => hzero ⟨.inl h0, hcast.1 h⟩)]
      · rfl
    have hb' : (if base = 0 then 10 else base) ≤ 16 := by split <;> omega
    rw [hbase, integerLoop_list hb' rest c {} (by omega), hbased]

theorem takePrefix_nil (base : Nat) : (takePrefix base []).2 = [] := by
  unfold takePrefix
  split
  · split <;> rfl
  · split
    · split <;> rfl
    · rfl

/-- What the scanner makes of the string behind the sign. -/
structure Scanned (utf8 : Bool) (spec : ScanSpec) (base : Nat) (signed negative : Bool) (args : ScanArgs) (memory : Mem)
    (s : List Nat) (r : ScanStatus × Scan (List Nat)) : Prop where
  fails : IncompletePrefix base s ∨ digitRun (takePrefix base s).1 (takePrefix base s).2 = [] →
    r.1 ≠ .success ∧ r.2.memory = memory
  reads : ¬IncompletePrefix base s → digitRun (takePrefix base s).1 (takePrefix base s).2 ≠ [] →
    r = integerDone (listSource utf8) spec signed negative
      (ScanNumber.read {} (takePrefix base s).1
        ((digitRun (takePrefix base s).1 (takePrefix base s).2).filterMap digitValue))
      ⟨(takePrefix base s).2.dropWhile (isDigitOf (takePrefix base s).1), args, memory⟩

theorem scanned_nil (spec : ScanSpec) (base : Nat) (signed negative : Bool) {r : ScanStatus × Scan (List Nat)}
    (hr : r.1 ≠ .success ∧ r.2.memory = memory) : Scanned utf8 spec base signed negative args memory [] r := by
  refine ⟨fun _ => hr, fun _ hrun => absurd ?_ hrun⟩
  rw [takePrefix_nil]
  rfl

theorem scanned_digits (spec : ScanSpec) {base : Nat} (hb : base ≤ 16) (signed negative : Bool) (c : Nat)
    (rest : List Nat) {remaining : Nat} (hr : rest.length + 1 < remaining) :
    Scanned utf8 spec base signed negative args memory (c :: rest)
      (integerDigits (listSource utf8) spec base signed negative c ⟨rest, args, memory⟩ remaining) := by
  obtain ⟨hcomplete, hincomplete⟩ := @integerDigits_list utf8 args memory spec base hb signed negative c rest
    remaining hr
  refine ⟨?_, fun h _ => hcomplete h⟩
  intro hfail
  by_cases hi : IncompletePrefix base (c :: rest)
  · exact hincomplete hi
  · rw [hcomplete hi, hfail.resolve_left hi]
    exact ⟨nofun, rfl⟩

/-- `scan_integer` of a string that is shorter than the widest field. -/
theorem scanInteger_list {spec : ScanSpec} (hw : spec.width = none) {base : Nat} (hb : base ≤ 16) (signed : Bool)
    {s : List Nat} {fuel : Nat} (hf : s.length < fuel) (hs : s.length < 2 ^ 32 - 1) :
    let sign := takeSign (s.dropWhile isCSpace)
    ∃ r, scanInteger (listSource utf8) fuel spec base signed ⟨s, args, memory⟩ = some r ∧
      Scanned utf8 spec base signed sign.1 args memory sign.2 r := by
  intro sign
  have hsign : sign = takeSign (s.dropWhile isCSpace) := rfl
  have hmax : scanWidthMax = 2 ^ 32 - 1 := rfl
  have hlen := List.length_dropWhile_le isCSpace s
  unfold scanInteger Scan.skipInputSpace
  rw [skipSpace_list isScanSpace_nat hf, hw]
  refine ⟨_, rfl, ?_⟩
  generalize s.dropWhile isCSpace = text at hsign hlen ⊢
  cases text with
  | nil =>
    rw [hsign]
    exact scanned_nil spec base signed false ⟨nofun, rfl⟩
  | cons c rest =>
    have hget : Scan.get (listSource utf8) ⟨c :: rest, args, memory⟩ = (some (c : Int), ⟨rest, args, memory⟩) := rfl
    rw [List.length_cons] at hlen
    dsimp only [Option.getD_none]
    rw [hget]
    dsimp only
    have hhead : charAt (c :: rest) 0 = c := rfl
    unfold takeSign at hsign
    rw [hhead] at hsign
    by_cases hc : c = '+'.toNat ∨ c = '-'.toNat
    · have hnegative : decide ((c : Int) = '-'.toNat) = decide (c = '-'.toNat) := decide_eq_decide.2 (by omega)
      rw [if_pos hc, List.drop_succ_cons, List.drop_zero] at hsign
      rw [if_pos (by omega), if_neg (by rw [hmax]; decide), hnegative, hsign]
      cases rest with
      | nil => exact scanned_nil spec base signed _ ⟨nofun, rfl⟩
      | cons c' rest =>
        rw [List.length_cons] at hlen
        exact scanned_digits spec hb signed _ c' rest (by omega)
    · rw [if_neg hc] at hsign
      rw [if_neg (by omega), hsign]
      exact scanned_digits spec hb signed false c rest (by omega)

/-! ## Against `strtol` and `strtoul` -/

theorem readDigit_le {base : Nat} {s : List Nat} : ∀ d ∈ (digitRun base s).filterMap digitValue, d ≤ 2 ^ 64 - 1 := by
  intro d hd
  obtain ⟨c, -, hc⟩ := List.mem_filterMap.1 hd
  have := Stdlib.digitValue_lt hc
  omega

/-- The number in the digits, which may be over the largest `unsigned long long`. -/
theorem read_holds {base : Nat} (hb : 0 < base) {s : List Nat} (hs : s.length < 2 ^ 32) :
    let a := ScanNumber.read {} base ((digitRun base s).filterMap digitValue)
    (a.digits = 0 ↔ digitRun base s = []) ∧ (a.overflow = true ↔ 2 ^ 64 - 1 < digitsValue base (digitRun base s)) ∧
      (a.overflow = false → a.magnitude = digitsValue base (digitRun base s)) := by
  intro a
  have hstart : ScanNumber.Holds {} 0 (some 0) := by
    refine ⟨rfl, rfl, ?_⟩
    rintro _ ⟨⟩
    rfl
  have hvalues : ((digitRun base s).filterMap digitValue).length = (digitRun base s).length := by
    refine List.filterMap_length_eq_length.2 fun c hc => ?_
    obtain ⟨d, hd, -⟩ := isDigitOf_iff.1 (List.mem_takeWhile_imp hc)
    rw [hd]
    rfl
  have hlen : (digitRun base s).length < 2 ^ 32 := (List.takeWhile_prefix _).length_le.trans_lt hs
  have hholds : a.Holds _ _ := hstart.read hb readDigit_le
  rw [readCapped_eq hb (Nat.zero_le _), Nat.zero_add, hvalues] at hholds
  refine ⟨?_, ?_, ?_⟩
  · rw [hholds.digits, Nat.mod_eq_of_lt hlen, List.length_eq_zero_iff]
  · rw [hholds.overflow]
    unfold digitsValue
    split
    · rename_i hle
      simpa using hle
    · rename_i hgt
      simpa using hgt
  · intro hno
    have hov := hholds.overflow
    rw [hno] at hov
    split at hov
    · rename_i hle
      rw [if_pos hle] at hholds
      exact hholds.magnitude _ rfl
    · cases hov

/-- `strto` by the digits it reads. -/
theorem strto_read {base : Nat} (hb : Stdlib.ValidBase base) {limit : Bool → Nat}
    {result : Bool → Option Nat → Int} (hl : ∀ negative, 36 ≤ limit negative ∧ limit negative < 2 ^ 64) (s : List Nat) :
    let sign := takeSign (s.dropWhile isCSpace)
    let based := takePrefix base sign.2
    let run := digitRun based.1 based.2
    let endptr := some (s.length - (based.2.dropWhile (isDigitOf based.1)).length)
    (run = [] → strto limit result s base = ⟨0, some 0, none⟩) ∧
      (run ≠ [] → strto limit result s base =
        if limit sign.1 < digitsValue based.1 run then ⟨result sign.1 none, endptr, some Stdlib.erange⟩
        else ⟨result sign.1 (some (digitsValue based.1 run)), endptr, none⟩) := by
  have hvalid : ¬((base : Int) ≠ 0 ∧ ((base : Int) < 2 ∨ (base : Int) > 36)) := by
    unfold Stdlib.ValidBase at hb
    omega
  obtain ⟨text, hs, htwo, -⟩ := Stdlib.longest_read (hb.imp_right And.left) s
  unfold strto
  rw [if_neg hvalid, Int.toNat_natCast]
  dsimp only at hs htwo ⊢
  generalize takeSign (s.dropWhile isCSpace) = signed at hs htwo ⊢
  obtain ⟨negative, s₁⟩ := signed
  dsimp only at hs htwo ⊢
  generalize takePrefix base s₁ = based at hs htwo ⊢
  obtain ⟨b, s₂⟩ := based
  dsimp only at hs htwo ⊢
  obtain ⟨hany, hrest, hover, hvalue⟩ :=
    Stdlib.accumulate_value (show 0 < b by omega) (hl negative).2 (hl negative).1 s₂
  generalize Stdlib.accumulate (limit negative) b {} s₂ = accumulated at hany hrest hover hvalue ⊢
  obtain ⟨a, s₃⟩ := accumulated
  dsimp only at hany hrest hover hvalue ⊢
  rw [hany, Bool.not_not, hrest]
  constructor
  · intro hrun
    rw [if_pos (by simp [hrun])]
  · intro hrun
    rw [if_neg (by simpa using hrun)]
    cases ho : a.overflow with
    | true => rw [if_pos rfl, if_pos (hover.1 ho)]
    | false =>
      have hle : ¬limit negative < digitsValue b (digitRun b s₂) := by
        intro hlt
        rw [hover.2 hlt] at ho
        cases ho
      rw [if_neg Bool.false_ne_true, if_neg hle, hvalue ho]

/-- The five conversions with the length of `long`. -/
inductive LongConversion where
  | ld
  | li
  | lu
  | lx
  | lo
deriving DecidableEq, Repr

namespace LongConversion

/-- The letter in the format. -/
def letter : LongConversion → UInt8
  | ld => 'd'.toUInt8
  | li => 'i'.toUInt8
  | lu => 'u'.toUInt8
  | lx => 'x'.toUInt8
  | lo => 'o'.toUInt8

/-- The format that is the conversion alone. -/
def format (conversion : LongConversion) : List UInt8 := ['%'.toUInt8, 'l'.toUInt8, conversion.letter]

/-- The base of the matching call. -/
def base : LongConversion → Nat
  | ld => 10
  | li => 0
  | lu => 10
  | lx => 16
  | lo => 8

def signed : LongConversion → Bool
  | ld | li => true
  | lu | lx | lo => false

/-- The matching call of `strtol` or `strtoul`. -/
def converted (conversion : LongConversion) (nptr : List Nat) : Stdlib.Strto :=
  if conversion.signed then strtol nptr conversion.base else strtoul nptr conversion.base

theorem noWidth (w : Nat) (h : none = some w) : 0 < w ∧ w ≤ scanWidthMax := by cases h

/-- What the conversion parses to. -/
def spec (conversion : LongConversion) : ScanSpec := { length := .l, conversion := conversion.letter, width_pos := noWidth }

theorem parses (conversion : LongConversion) :
    parseScanSpec ['l'.toUInt8, conversion.letter] = some (conversion.spec, []) := by
  cases conversion <;> rfl

theorem scans {σ : Type} (source : Source σ) (fuel : Nat) (conversion : LongConversion) (x : Scan σ) :
    scanConversion source fuel conversion.spec x =
      scanInteger source fuel conversion.spec conversion.base conversion.signed x := by
  cases conversion <;> rfl

end LongConversion

/-- A format that is one conversion. -/
theorem scanDispatch_single {σ : Type} (source : Source σ) (fuel : Nat) {p : List UInt8} {spec : ScanSpec}
    (hp : parseScanSpec p = some (spec, [])) (hc : spec.conversion ≠ '%'.toUInt8) (hs : spec.suppress = false)
    (x : Scan σ) :
    scanDispatch source fuel ('%'.toUInt8 :: p) x = (scanConversion source fuel spec x).map fun r =>
      (if r.1 = .success then 1 else handleStatus r.1 0, r.2) := by
  have hspace : ¬isFormatSpace (byteAt ('%'.toUInt8 :: p)) = true := by
    rw [byteAt_head]
    decide
  have hnonzero : ¬byteAt ('%'.toUInt8 :: p) = 0 := by
    rw [byteAt_head]
    decide
  have hpercent : ¬byteAt ('%'.toUInt8 :: p) ≠ '%'.toUInt8 := fun h => h (byteAt_head _ _)
  have hcounts : spec.conversion ≠ '%'.toUInt8 ∧ (!spec.suppress) = true := ⟨hc, by rw [hs]; rfl⟩
  have hend : ∀ rounds (y : Scan σ), scanLoop source fuel rounds [] 1 y = some (1, y) := by
    intro rounds y
    cases rounds <;> rfl
  unfold scanDispatch
  rw [List.length_cons, scanLoop, if_neg hnonzero, scanRound, if_neg hspace, if_neg hpercent, List.drop_succ_cons,
    List.drop_zero, hp]
  dsimp only
  rw [if_pos hcounts]
  obtain _ | ⟨status, y⟩ := scanConversion source fuel spec x
  · rfl
  rw [Option.map_some, Option.map_some]
  unfold endDirective
  by_cases hok : status = .success
  · rw [if_pos hok, if_pos hok]
    exact hend _ y
  · rw [if_neg hok, if_neg hok]

namespace LongConversion

def limit (conversion : LongConversion) (negative : Bool) : Nat :=
  if conversion.signed then Stdlib.signedLimit negative else Stdlib.ulongMax

def result (conversion : LongConversion) (negative : Bool) (value : Option Nat) : Int :=
  if conversion.signed then Stdlib.signedResult negative value else Stdlib.unsignedResult negative value

theorem converted_strto (conversion : LongConversion) (nptr : List Nat) :
    conversion.converted nptr = strto conversion.limit conversion.result nptr conversion.base := by
  cases conversion <;> rfl

theorem limit_bounds (conversion : LongConversion) (negative : Bool) :
    36 ≤ conversion.limit negative ∧ conversion.limit negative < 2 ^ 64 := by
  cases conversion <;> cases negative <;> decide

/-- The end of the conversion: a value within the limit of the call is stored. -/
theorem done (conversion : LongConversion) (negative : Bool) {a : ScanNumber} {v : Nat} (hdigits : a.digits ≠ 0)
    (hover : a.overflow = true ↔ 2 ^ 64 - 1 < v) (hvalue : a.overflow = false → a.magnitude = v) (x : Scan (List Nat)) :
    integerDone (listSource utf8) conversion.spec conversion.signed negative a x =
      if conversion.limit negative < v then (.rangeFail, x)
      else (.success, { x.nextWord.2 with
        memory := store x.nextWord.2.memory x.nextWord.1 8 (conversion.result negative (some v) % 2 ^ 64).toNat }) := by
  have hsuppress : ¬conversion.spec.suppress = true := Bool.false_ne_true
  have hlength : conversion.spec.length = .l := rfl
  have hsize : FormatLength.l.size = 8 := rfl
  have hsigned : Stdio.signedLimit .l = 2 ^ 63 - 1 := by decide
  have hunsigned : Stdio.unsignedLimit .l = 2 ^ 64 - 1 := by decide
  have hlimit := conversion.limit_bounds negative
  unfold integerDone
  rw [if_neg hdigits, if_neg hsuppress, hlength]
  cases ho : a.overflow with
  | true =>
    have := hover.1 ho
    rw [if_pos rfl, if_pos (by omega)]
    rfl
  | false =>
    have hv : v ≤ 2 ^ 64 - 1 := by
      by_contra hgt
      rw [hover.2 (by omega)] at ho
      cases ho
    rw [if_neg Bool.false_ne_true, hvalue ho]
    unfold limit result
    cases conversion.signed with
    | true =>
      rw [if_pos rfl, if_pos rfl, if_pos rfl]
      unfold Scan.assignSigned
      rw [hsigned, hsize]
      have hvalue' : (if negative = true then if v = 0 then (0 : Int) else -1 - ((v : Int) - 1) else v) =
          Stdlib.signedResult negative (some v) := by
        have hmax : (Stdlib.longMax : Int) = 2 ^ 63 - 1 := by decide
        have hmax' : Stdlib.longMax = 2 ^ 63 - 1 := rfl
        unfold Stdlib.signedResult
        cases negative <;> dsimp only
        · rw [if_neg Bool.false_ne_true, if_neg Bool.false_ne_true]
        · rw [if_pos rfl, if_pos rfl]
          split <;> split <;> omega
      by_cases hout : Stdlib.signedLimit negative < v
      · have hout' : ((!negative) = true ∧ 2 ^ 63 - 1 < v) ∨ (negative = true ∧ 2 ^ 63 - 1 + 1 < v) := by
          unfold Stdlib.signedLimit Stdlib.longMax at hout
          cases negative
          · exact .inl ⟨rfl, hout⟩
          · exact .inr ⟨rfl, hout⟩
        rw [if_pos hout, if_pos hout']
        rfl
      · have hin : ¬(((!negative) = true ∧ 2 ^ 63 - 1 < v) ∨ (negative = true ∧ 2 ^ 63 - 1 + 1 < v)) := by
          unfold Stdlib.signedLimit Stdlib.longMax at hout
          rintro (⟨hn, hlt⟩ | ⟨rfl, hlt⟩)
          · rw [show negative = false by simpa using hn, if_neg Bool.false_ne_true] at hout
            exact hout hlt
          · rw [if_pos rfl] at hout
            exact hout hlt
        rw [if_neg hout, if_neg hin]
        dsimp only
        rw [hvalue']
        rfl
    | false =>
      rw [if_neg Bool.false_ne_true, if_neg Bool.false_ne_true, if_neg Bool.false_ne_true]
      unfold Scan.assignUnsigned
      rw [hunsigned, hsize]
      have hin : ¬((!negative) = true ∧ 2 ^ 64 - 1 < v) := fun h => by omega
      have hin' : ¬Stdlib.ulongMax < v := by
        unfold Stdlib.ulongMax
        omega
      have hvalue' : (if negative = true then (2 ^ 64 - v) % 2 ^ 64 else v) =
          (Stdlib.unsignedResult negative (some v) % 2 ^ 64).toNat := by
        unfold Stdlib.unsignedResult
        dsimp only
        split
        · omega
        · omega
      rw [if_neg hin, if_neg hin']
      dsimp only
      rw [hvalue']
      rfl

end LongConversion

theorem takeSign_length (s : List Nat) : (takeSign s).2.length ≤ s.length := by
  unfold takeSign
  split
  · exact (List.length_drop ..).trans_le (Nat.sub_le ..)
  · exact Nat.le_refl _

theorem takePrefix_length (base : Nat) (s : List Nat) : (takePrefix base s).2.length ≤ s.length := by
  have hdrop : (s.drop 2).length ≤ s.length := (List.length_drop ..).trans_le (Nat.sub_le ..)
  unfold takePrefix
  split
  · split
    · split
      · split
        · exact hdrop
        · exact Nat.le_refl _
      · exact Nat.le_refl _
    · exact Nat.le_refl _
  · split
    · split
      · exact hdrop
      · exact Nat.le_refl _
    · exact Nat.le_refl _

/-- The matching call performs a conversion without `ERANGE`. -/
def InRange (converted : Stdlib.Strto) : Prop := converted.endptr ≠ some 0 ∧ converted.errno = none

/-- The scan over the list against the call. -/
theorem scanInteger_converted (conversion : LongConversion) {text : List Nat} {fuel : Nat} (hf : text.length < fuel)
    (h : text.length < 2 ^ 32 - 1) :
    let converted := conversion.converted text
    ∃ r, scanInteger (listSource utf8) fuel conversion.spec conversion.base conversion.signed ⟨text, args, memory⟩ =
        some r ∧
      (r.1 = .success ↔ InRange converted ∧ ¬IncompletePrefix conversion.base (behindSign text)) ∧
      (r.1 ≠ .success → r.2.memory = memory) ∧
      (r.1 = .success →
        r.2.memory = store memory (Scan.nextWord ⟨text, args, memory⟩).1 8 (converted.value % 2 ^ 64).toNat ∧
          ∃ n, converted.endptr = some n ∧ r.2.input = text.drop n) := by
  have hb : conversion.base ≤ 16 ∧ Stdlib.ValidBase conversion.base := by
    unfold Stdlib.ValidBase
    cases conversion <;> decide
  obtain ⟨r, hr, hscanned⟩ := @scanInteger_list utf8 args memory conversion.spec rfl conversion.base hb.1
    conversion.signed text fuel hf h
  obtain ⟨front, hfront, htwo, -⟩ := Stdlib.longest_read (hb.2.imp_right And.left) text
  obtain ⟨hnone, hsome⟩ := @strto_read conversion.base hb.2 conversion.limit conversion.result conversion.limit_bounds text
  rw [← conversion.converted_strto] at hnone hsome
  have hdigits : (takePrefix conversion.base (takeSign (text.dropWhile isCSpace)).2).2.length ≤ text.length :=
    (takePrefix_length _ _).trans ((takeSign_length _).trans (List.length_dropWhile_le _ _))
  unfold behindSign
  dsimp only at hr hscanned hfront htwo hnone hsome hdigits ⊢
  generalize takeSign (text.dropWhile isCSpace) = sign at hr hscanned hfront htwo hnone hsome hdigits ⊢
  obtain ⟨negative, s⟩ := sign
  dsimp only at hr hscanned hfront htwo hnone hsome hdigits ⊢
  obtain ⟨hfails, hreads⟩ := hscanned
  generalize takePrefix conversion.base s = based at hfails hreads hfront htwo hnone hsome hdigits
  obtain ⟨b, digits⟩ := based
  dsimp only at hfails hreads hfront htwo hnone hsome hdigits
  refine ⟨r, hr, ?_⟩
  by_cases hrun : digitRun b digits = []
  · obtain ⟨hstatus, hmemory⟩ := hfails (.inr hrun)
    rw [hnone hrun]
    exact ⟨iff_of_false hstatus fun hin => hin.1.1 rfl, fun _ => hmemory, fun hok => absurd hok hstatus⟩
  by_cases hincomplete : IncompletePrefix conversion.base s
  · obtain ⟨hstatus, hmemory⟩ := hfails (.inl hincomplete)
    exact ⟨iff_of_false hstatus fun hin => hin.2 hincomplete, fun _ => hmemory, fun hok => absurd hok hstatus⟩
  obtain ⟨hcount, hover, hvalue⟩ := read_holds (show 0 < b by omega) (show digits.length < 2 ^ 32 by omega)
  rw [hreads hincomplete hrun, conversion.done negative (fun h0 => hrun (hcount.1 h0)) hover hvalue, hsome hrun]
  by_cases hout : conversion.limit negative < digitsValue b (digitRun b digits)
  · rw [if_pos hout, if_pos hout]
    exact ⟨iff_of_false nofun fun hin => Option.some_ne_none _ hin.1.2, fun _ => rfl, fun hok => nomatch hok⟩
  · rw [if_neg hout, if_neg hout]
    have hfront' := congrArg List.length hfront
    have hsplit := congrArg List.length (List.takeWhile_append_dropWhile (p := isDigitOf b) (l := digits))
    have hpos := List.length_pos_iff.2 hrun
    unfold digitRun at hpos
    rw [List.length_append] at hfront' hsplit
    have hend : text.length - (digits.dropWhile (isDigitOf b)).length = front.length := by omega
    rw [hend]
    refine ⟨iff_of_true rfl ⟨⟨?_, rfl⟩, hincomplete⟩, fun hno => absurd rfl hno, fun _ => ⟨?_, _, rfl, ?_⟩⟩
    · intro h0
      have := Option.some.inj h0
      omega
    · dsimp only
      rw [nextWord_memory, nextWord_word _ text]
    · dsimp only
      rw [nextWord_input]
      exact (List.drop_left' rfl).symm.trans (congrArg (List.drop front.length) hfront.symm)

/-- A call whose format is one conversion of integers, by its scan of the list. -/
theorem sscanDispatch_integer {p : List UInt8} {spec : ScanSpec} {base : Nat} {signed : Bool} {input : List UInt8}
    (hp : parseScanSpec p = some (spec, [])) (hc : spec.conversion ≠ '%'.toUInt8) (hs : spec.suppress = false)
    (hscans : scanConversion (stringSource utf8) (input.length + 1) spec ⟨{ ahead := input }, args, memory⟩ =
      scanInteger (stringSource utf8) (input.length + 1) spec base signed ⟨{ ahead := input }, args, memory⟩)
    {r : ScanStatus × Scan (List Nat)} (hr : scanInteger (listSource utf8) (input.length + 1) spec base signed
      ⟨input.map UInt8.toNat, args, memory⟩ = some r) :
    ∃ x, sscanDispatch utf8 input ('%'.toUInt8 :: p) args memory =
        some (if r.1 = .success then 1 else handleStatus r.1 0, x) ∧
      x.memory = r.2.memory ∧ x.input.ahead.map UInt8.toNat = r.2.input := by
  have hmatch : Scan.Matches Leaves (⟨{ ahead := input }, args, memory⟩ : Scan (StringCursor UInt8))
      ⟨input.map UInt8.toNat, args, memory⟩ := ⟨rfl, rfl, rfl⟩
  have hsim := (string_list utf8).scanInteger (input.length + 1) spec base signed hmatch
  rw [hr] at hsim
  obtain ⟨⟨status, x⟩, hx⟩ : ∃ r', scanInteger (stringSource utf8) (input.length + 1) spec base signed
      ⟨{ ahead := input }, args, memory⟩ = some r' := by
    generalize scanInteger (stringSource utf8) (input.length + 1) spec base signed
      ⟨{ ahead := input }, args, memory⟩ = a at hsim
    cases hsim with
    | some _ => exact ⟨_, rfl⟩
  rw [hx] at hsim
  obtain ⟨hstatus, hend⟩ : EndsAlike Leaves (status, x) r := by
    cases hsim with
    | some h => exact h
  have hstatus' : status = r.1 := hstatus
  refine ⟨x, ?_, hend.memory, hend.input⟩
  unfold sscanDispatch
  rw [scanDispatch_single _ _ hp hc hs, hscans, hx, ← hstatus']
  rfl

/-- The scanner against `strtol` and `strtoul`: on a string shorter than the widest field
a conversion assigns exactly when the call converts within its range, unless the digits
are an incomplete prefix, and then it stores the value of the call and stops where the
call does. -/
theorem scan_strto (conversion : LongConversion) {input : List UInt8} (h : input.length < 2 ^ 32 - 1) (utf8 : Bool)
    (args : ScanArgs) (memory : Mem) :
    let text := input.map UInt8.toNat
    let converted := conversion.converted text
    ∃ value x, sscanDispatch utf8 input conversion.format args memory = some (value, x) ∧
      (value = 1 ↔ InRange converted ∧ ¬IncompletePrefix conversion.base (behindSign text)) ∧
      (value ≠ 1 → x.memory = memory) ∧
      (value = 1 →
        x.memory = store memory (Scan.nextWord ⟨input, args, memory⟩).1 8 (converted.value % 2 ^ 64).toNat ∧
          ∃ n, converted.endptr = some n ∧ x.input.ahead = input.drop n) := by
  intro text converted
  have hlen : text.length = input.length := List.length_map ..
  obtain ⟨r, hr, hiff, hfail, hdone⟩ := @scanInteger_converted utf8 args memory conversion text (input.length + 1)
    (by omega) (by omega)
  have hc : conversion.spec.conversion ≠ '%'.toUInt8 := by
    cases conversion <;> decide
  obtain ⟨x, hscan, hmemory, hleaves⟩ := sscanDispatch_integer conversion.parses hc rfl (conversion.scans _ _ _) hr
  refine ⟨_, x, hscan, ?_⟩
  have hone : (if r.1 = .success then 1 else handleStatus r.1 0) = 1 ↔ r.1 = .success := by
    by_cases hs : r.1 = .success
    · rw [if_pos hs]
      exact iff_of_true rfl hs
    · rw [if_neg hs]
      refine iff_of_false ?_ hs
      unfold handleStatus
      split <;> decide
  refine ⟨hone.trans hiff, fun hv => ?_, fun hv => ?_⟩
  · rw [hmemory]
    exact hfail fun hs => hv (hone.2 hs)
  · obtain ⟨hstored, n, hn, hrest⟩ := hdone (hone.1 hv)
    rw [hmemory, nextWord_word input text]
    refine ⟨hstored, n, hn, ?_⟩
    rw [hrest, ← List.map_drop] at hleaves
    exact List.map_injective_iff.2 (fun _ _ h => UInt8.toNat_inj.1 h) hleaves

/-- The least `long` in the base of a constant, with a letter behind it. -/
theorem scan_strto_least :
    ∃ value x, sscanDispatch true ("-0x8000000000000000g".toList.map Char.toUInt8) LongConversion.li.format
        ⟨[64], 0, 0, by decide⟩ (fun _ => 0) = some (value, x) ∧
      value = 1 ∧ x.memory = store (fun _ => 0) 64 8 (2 ^ 63) ∧ x.input.ahead = ['g'.toUInt8] := by
  obtain ⟨value, x, hscan, hiff, -, hdone⟩ := scan_strto .li
    (show ("-0x8000000000000000g".toList.map Char.toUInt8).length < 2 ^ 32 - 1 by decide) true
    ⟨[64], 0, 0, by decide⟩ fun _ => 0
  have hcall : LongConversion.li.converted (("-0x8000000000000000g".toList.map Char.toUInt8).map UInt8.toNat) =
      ⟨-2 ^ 63, some 19, none⟩ := by decide
  have hcomplete : isDigitOf 16 (charAt (behindSign (("-0x8000000000000000g".toList.map Char.toUInt8).map
      UInt8.toNat)) 2) = true := by decide
  rw [hcall] at hiff hdone
  have hone : value = 1 := hiff.2 ⟨⟨by decide, rfl⟩, fun h => absurd (hcomplete.symm.trans h.2.2.2) (by decide)⟩
  obtain ⟨hstored, n, hn, hrest⟩ := hdone hone
  obtain rfl : 19 = n := Option.some.inj hn
  exact ⟨value, x, hscan, hone, hstored, hrest⟩

end MiniLibc.Stdio
