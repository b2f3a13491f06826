import MiniLibc.Stdio.ScanSource
import MiniLibc.Stdio.Scanset
import MiniLibc.Lib.Memory
/-!
# The scanner

`scan_dispatch` of `src/stdio/scan.c` with its conversions, over any source. Only
white space is read without a bound, so a run has a number of characters within which
every white space ends.
-/
open MiniLibc.FloatParse MiniLibc.Memory MiniLibc.Wchar

namespace MiniLibc.Stdio

def erange : Nat := 34

/-- `mini_scan_status`. -/
inductive ScanStatus where
  | matchFail
  | success
  | inputFail
  | rangeFail
deriving DecidableEq, Repr

/-- `mini_scan_args`. `gp_count` is the length of the array. -/
structure ScanArgs where
  gp : List Nat
  overflow : Nat
  gpIndex : Nat := 0
  gp_length : gp.length ≤ 5

/-- The state of a scan: its source, its arguments, and the memory they are in and
point to. -/
structure Scan (σ : Type) where
  input : σ
  args : ScanArgs
  memory : Mem

variable {σ : Type} (source : Source σ)

namespace Scan

/-- `next_word`. -/
def nextWord (x : Scan σ) : Nat × Scan σ :=
  if h : x.args.gpIndex < x.args.gp.length then
    (x.args.gp[x.args.gpIndex], { x with args := { x.args with gpIndex := x.args.gpIndex + 1 } })
  else (load x.memory x.args.overflow 8, { x with args := { x.args with overflow := x.args.overflow + 8 } })

/-- `errno = error`. -/
def setErrno (x : Scan σ) (error : Nat) : Scan σ := { x with input := source.setErrno error x.input }

/-- `source_get`. -/
def get (x : Scan σ) : Option Int × Scan σ := ((source.get x.input).1, { x with input := (source.get x.input).2 })

/-- `source_unget` of the character that ends a part: whether it fails. -/
def unget (x : Scan σ) (c : Int) (status : ScanStatus) : ScanStatus × Scan σ :=
  let (ok, input) := source.unget c x.input
  (if ok then status else .inputFail, { x with input })

/-- `skip_input_space`. -/
def skipInputSpace (fuel : Nat) (x : Scan σ) : Option (Bool × Scan σ) :=
  (source.skipSpace isScanSpace fuel x.input).map fun (ok, input) => (ok, { x with input })

end Scan

/-! ## Arguments -/

theorem nextWord_input (x : Scan σ) : x.nextWord.2.input = x.input := by
  unfold Scan.nextWord
  split <;> rfl

theorem nextWord_memory (x : Scan σ) : x.nextWord.2.memory = x.memory := by
  unfold Scan.nextWord
  split <;> rfl

/-- The argument does not depend on what is scanned. -/
theorem nextWord_word {τ : Type} {args : ScanArgs} {memory : Mem} (s : σ) (t : τ) :
    (Scan.nextWord ⟨s, args, memory⟩).1 = (Scan.nextWord ⟨t, args, memory⟩).1 := by
  unfold Scan.nextWord
  split <;> rfl

/-! ## Assignments -/

/-- `sizeof` the type of a length modifier. -/
def FormatLength.size : FormatLength → Nat
  | .hh => 1
  | .h => 2
  | .none => 4
  | .l => 8
  | .ll => 8

/-- `unsigned_limit`. -/
def unsignedLimit (length : FormatLength) : Nat := 2 ^ (8 * length.size) - 1

/-- `signed_limit`. -/
def signedLimit (length : FormatLength) : Nat := unsignedLimit length / 2

namespace Scan

/-- `assign_signed`: whether it assigns. -/
def assignSigned (x : Scan σ) (length : FormatLength) (magnitude : Nat) (negative : Bool) : Bool × Scan σ :=
  let limit := signedLimit length
  if (!negative ∧ limit < magnitude) ∨ (negative ∧ limit + 1 < magnitude) then (false, x.setErrno source erange)
  else
    let value : Int := if negative then if magnitude = 0 then 0 else -1 - (magnitude - 1) else magnitude
    let (word, x) := x.nextWord
    (true, { x with memory := store x.memory word length.size (value % 2 ^ 64).toNat })

/-- `assign_unsigned`: whether it assigns. -/
def assignUnsigned (x : Scan σ) (length : FormatLength) (magnitude : Nat) (negative : Bool) : Bool × Scan σ :=
  if !negative ∧ unsignedLimit length < magnitude then (false, x.setErrno source erange)
  else
    let value := if negative then (2 ^ 64 - magnitude) % 2 ^ 64 else magnitude
    let (word, x) := x.nextWord
    (true, { x with memory := store x.memory word length.size value })

/-- The bits of a `double`. -/
def doubleBits (value : Binary64) : Nat := (if value.neg then 2 ^ 63 else 0) + value.magnitude

/-- `assign_floating`: whether it assigns. -/
def assignFloating (x : Scan σ) (length : FormatLength) (value : Binary64) : Bool × Scan σ :=
  if length = .none then
    if (floatNarrow value).1 = .rangeFail then (false, x.setErrno source erange)
    else
      let (word, x) := x.nextWord
      (true, { x with memory := store x.memory word 4 (floatNarrow value).2 })
  else
    let (word, x) := x.nextWord
    (true, { x with memory := store x.memory word 8 (doubleBits value) })

end Scan

/-! ## Integers -/

/-- `digit_value`. -/
def scanDigitValue (c : Int) : Option Nat :=
  if '0'.toNat ≤ c ∧ c ≤ '9'.toNat then some (c - '0'.toNat).toNat
  else if 'a'.toNat ≤ c ∧ c ≤ 'f'.toNat then some (c - 'a'.toNat + 10).toNat
  else if 'A'.toNat ≤ c ∧ c ≤ 'F'.toNat then some (c - 'A'.toNat + 10).toNat
  else none

/-- `magnitude`, `overflow` and `digits` of `scan_integer`. -/
structure ScanNumber where
  magnitude : Nat := 0
  overflow : Bool := false
  digits : Nat := 0
deriving DecidableEq, Repr

/-- `accumulate_digit`, and the count of the digits. -/
def ScanNumber.accumulate (a : ScanNumber) (base digit : Nat) : ScanNumber :=
  let digits := (a.digits + 1) % 2 ^ 32
  if a.overflow then { a with digits }
  else if (2 ^ 64 - 1 - digit) / base < a.magnitude then { a with overflow := true, digits }
  else { a with magnitude := a.magnitude * base + digit, digits }

/-- The loop of `scan_integer`, with `remaining` characters to go: whether no unget
failed, and the number. -/
def integerLoop (base : Nat) (a : ScanNumber) (c : Int) (x : Scan σ) : (remaining : Nat) → ScanStatus × ScanNumber × Scan σ
  | 0 => (.success, a, x)
  | remaining + 1 =>
    match (scanDigitValue c).filter (· < base) with
    | none =>
      let (status, x) := x.unget source c .success
      (status, a, x)
    | some digit =>
      let a := a.accumulate base digit
      if remaining = 0 then (.success, a, x)
      else
        match x.get source with
        | (none, x) => (.success, a, x)
        | (some c, x) => integerLoop base a c x remaining

/-- `scan_integer` from `integer_done` on. -/
def integerDone (spec : ScanSpec) (signed : Bool) (negative : Bool) (a : ScanNumber) (x : Scan σ) : ScanStatus × Scan σ :=
  if a.digits = 0 then (.matchFail, x)
  else if spec.suppress then (.success, x)
  else if a.overflow then (.rangeFail, x.setErrno source erange)
  else
    let (assigned, x) := if signed then x.assignSigned source spec.length a.magnitude negative
      else x.assignUnsigned source spec.length a.magnitude negative
    (if assigned then .success else .rangeFail, x)

/-- `scan_integer` behind the sign, with `remaining` characters to go, of which `c` is
the first. -/
def integerDigits (spec : ScanSpec) (requestedBase : Nat) (signed negative : Bool) (c : Int) (x : Scan σ)
    (remaining : Nat) : ScanStatus × Scan σ :=
  let finish (base : Nat) (a : ScanNumber) (c : Int) (x : Scan σ) (remaining : Nat) : ScanStatus × Scan σ :=
    match integerLoop source base a c x remaining with
    | (.success, a, x) => integerDone source spec signed negative a x
    | (status, _, x) => (status, x)
  if (requestedBase = 0 ∨ requestedBase = 16) ∧ c = '0'.toNat ∧ 1 < remaining then
    match x.get source with
    | (some next, x) =>
      if next = 'x'.toNat ∨ next = 'X'.toNat then
        if remaining = 2 then (.matchFail, x)
        else
          match x.get source with
          | (none, x) => (.matchFail, x)
          | (some c, x) => finish 16 {} c x (remaining - 2)
      else
        let base := if requestedBase = 0 then 8 else 16
        finish base (ScanNumber.accumulate {} base 0) next x (remaining - 1)
    | (none, x) =>
      integerDone source spec signed negative (ScanNumber.accumulate {} (if requestedBase = 0 then 8 else 16) 0) x
  else
    let base := if requestedBase = 0 then if c = '0'.toNat then 8 else 10 else requestedBase
    finish base {} c x remaining

/-- `finish` of `integerDigits`, from the result of the loop. -/
def integerEnd (spec : ScanSpec) (signed negative : Bool) :
    ScanStatus × ScanNumber × Scan σ → ScanStatus × Scan σ
  | (.success, a, x) => integerDone source spec signed negative a x
  | (status, _, x) => (status, x)

/-- `scan_integer`. -/
def scanInteger (fuel : Nat) (spec : ScanSpec) (requestedBase : Nat) (signed : Bool) (x : Scan σ) :
    Option (ScanStatus × Scan σ) :=
  let remaining := spec.width.getD scanWidthMax
  (x.skipInputSpace source fuel).map fun
    | (false, x) => (.inputFail, x)
    | (true, x) =>
      match x.get source with
      | (none, x) => (.inputFail, x)
      | (some c, x) =>
        if c = '+'.toNat ∨ c = '-'.toNat then
          if remaining = 1 then (.matchFail, x)
          else
            match x.get source with
            | (none, x) => (.matchFail, x)
            | (some c', x) => integerDigits source spec requestedBase signed (c = '-'.toNat) c' x (remaining - 1)
        else integerDigits source spec requestedBase signed false c x remaining

/-! ## Floating numbers -/

/-- The status of the parser in the scanner. -/
def floatStatus : Status → ScanStatus
  | .matchFail => .matchFail
  | .success => .success
  | .inputFail => .inputFail
  | .rangeFail => .rangeFail

/-- `scan_floating` behind the parser, which sets `ERANGE` with its range failure. -/
def floatingDone (spec : ScanSpec) (parsed : Read σ) (x : Scan σ) : ScanStatus × Scan σ :=
  let x := { x with input := parsed.reader.input }
  if parsed.status = .rangeFail then (.rangeFail, x.setErrno source erange)
  else if parsed.status ≠ .success ∨ spec.suppress then (floatStatus parsed.status, x)
  else
    let (assigned, x) := x.assignFloating source spec.length (parsed.result.getD Binary64.zero)
    (if assigned then .success else .rangeFail, x)

/-- `scan_floating`. -/
def scanFloating (fuel : Nat) (spec : ScanSpec) (x : Scan σ) : Option (ScanStatus × Scan σ) :=
  (source.toFloatSource.parse fuel (spec.width.getD scanWidthMax) (!spec.suppress) x.input).map fun parsed =>
    floatingDone source spec parsed x

/-! ## Characters -/

/-- Where a sequence goes, how much of it there is, and the conversion state. A null
destination is zero. -/
structure Sequence where
  destination : Nat
  count : Nat := 0
  state : MbState := {}

/-- The loop of `read_wide_character` over a byte source, with `fuel` bytes to go. `none`
is its failure. -/
def readWideLoop : (fuel : Nat) → (c : Int) → MbState → Scan σ → Option Int × MbState × Scan σ
  | 0, _, state, x => (none, state, x)
  | fuel + 1, c, state, x =>
    match mbrtowcMode (some [unsignedChar c]) state source.utf8 with
    | ⟨.eilseq, _, state⟩ => (none, state, x.setErrno source eilseq)
    | ⟨.length _, wc, state⟩ => (some (wc.getD 0), state, x)
    | ⟨.incomplete, _, state⟩ =>
      match x.get source with
      | (none, x) => (none, state, x.setErrno source eilseq)
      | (some c, x) => readWideLoop fuel c state x

/-- `read_wide_character`. No encoding has more than four bytes. -/
def readWideCharacter (c : Int) (state : MbState) (x : Scan σ) : Option Int × MbState × Scan σ :=
  if source.wide then (some c, state, x) else readWideLoop source 4 c state x

/-- Bytes one behind the other. -/
def storeBytes (m : Mem) (a : Nat) : List UInt8 → Mem
  | [] => m
  | b :: rest => storeBytes (poke m a b) (a + 1) rest

/-- `store_character`: whether it succeeds. -/
def storeCharacter (length : FormatLength) (q : Sequence) (c : Int) (x : Scan σ) : Bool × Sequence × Scan σ :=
  if q.destination = 0 then
    if length = .l ∧ !source.wide then
      let (wc, state, x) := readWideCharacter source c q.state x
      (wc.isSome, { q with state }, x)
    else (true, q, x)
  else if length = .l then
    match readWideCharacter source c q.state x with
    | (none, state, x) => (false, { q with state }, x)
    | (some wc, state, x) =>
      (true, { q with count := q.count + 1, state },
        { x with memory := store x.memory (q.destination + 4 * q.count) 4 (wc % 2 ^ 32).toNat })
  else if source.wide then
    match wcrtombMode c q.state source.utf8 with
    | (none, state) => (false, { q with state }, x.setErrno source eilseq)
    | (some bytes, state) =>
      (true, { q with count := q.count + bytes.length, state },
        { x with memory := storeBytes x.memory (q.destination + q.count) bytes })
  else
    (true, { q with count := q.count + 1 }, { x with memory := poke x.memory (q.destination + q.count) (unsignedChar c) })

/-- `terminate_character_sequence`. -/
def terminateCharacterSequence (length : FormatLength) (q : Sequence) (x : Scan σ) : Scan σ :=
  if length = .l then { x with memory := store x.memory (q.destination + 4 * q.count) 4 0 }
  else { x with memory := poke x.memory (q.destination + q.count) 0 }

/-- The destination of a conversion: the next argument, or null for a suppressed one. -/
def destination (spec : ScanSpec) (x : Scan σ) : Nat × Scan σ := if spec.suppress then (0, x) else x.nextWord

/-- The loop of `scan_string` and `scan_scanset`, with `remaining` characters to go:
how it ends, and the sequence. `accepts` has no result where the set
cannot be decoded. -/
def sequenceLoop (length : FormatLength) (accepts : Int → Option Bool) (q : Sequence) (c : Int) (x : Scan σ) :
    (remaining : Nat) → ScanStatus × Sequence × Scan σ
  | 0 => (.success, q, x)
  | remaining + 1 =>
    match storeCharacter source length q c x with
    | (false, q, x) => (.inputFail, q, x)
    | (true, q, x) =>
      if remaining = 0 then (.success, q, x)
      else
        match x.get source with
        | (none, x) => (.success, q, x)
        | (some c, x) =>
          match accepts c with
          | none => (.inputFail, q, x.setErrno source eilseq)
          | some true => sequenceLoop length accepts q c x remaining
          | some false =>
            let (status, x) := x.unget source c .success
            (status, q, x)

/-- What `scan_string` and `scan_scanset` share: one character that the conversion
admits, and then those that follow. -/
def scanSequence (spec : ScanSpec) (accepts : Int → Option Bool) (x : Scan σ) : ScanStatus × Scan σ :=
  match x.get source with
  | (none, x) => (.inputFail, x)
  | (some c, x) =>
    match accepts c with
    | none => (.inputFail, x.setErrno source eilseq)
    | some false => x.unget source c .matchFail
    | some true =>
      let (address, x) := destination spec x
      match sequenceLoop source spec.length accepts ⟨address, 0, {}⟩ c x (spec.width.getD scanWidthMax) with
      | (.success, q, x) => (.success, if spec.suppress then x else terminateCharacterSequence spec.length q x)
      | (status, _, x) => (status, x)

/-- `scan_string`. -/
def scanString (fuel : Nat) (spec : ScanSpec) (x : Scan σ) : Option (ScanStatus × Scan σ) :=
  (x.skipInputSpace source fuel).map fun
    | (false, x) => (.inputFail, x)
    | (true, x) => scanSequence source spec (fun c => some (!isScanSpace c)) x

/-- `scanset_contains`. -/
def scansetContains (spec : ScanSpec) (c : Int) : Option Bool :=
  if source.wide then scansetContainsWide source.utf8 spec c else some (scansetContainsBytes spec c)

/-- `scan_scanset`. -/
def scanScanset (spec : ScanSpec) (x : Scan σ) : ScanStatus × Scan σ :=
  scanSequence source spec (scansetContains source spec) x

/-- The loop of `scan_characters`. -/
def charactersLoop (length : FormatLength) (q : Sequence) (x : Scan σ) : (width : Nat) → ScanStatus × Scan σ
  | 0 => (.success, x)
  | width + 1 =>
    match x.get source with
    | (none, x) => (.inputFail, x)
    | (some c, x) =>
      match storeCharacter source length q c x with
      | (false, _, x) => (.inputFail, x)
      | (true, q, x) => charactersLoop length q x width

/-- `scan_characters`. -/
def scanCharacters (spec : ScanSpec) (x : Scan σ) : ScanStatus × Scan σ :=
  let (address, x) := destination spec x
  charactersLoop source spec.length ⟨address, 0, {}⟩ x (spec.width.getD 1)

/-! ## Directives -/

/-- `match_literal`. -/
def matchLiteral (expected : Int) (x : Scan σ) : ScanStatus × Scan σ :=
  match x.get source with
  | (none, x) => (.inputFail, x)
  | (some c, x) => if c = expected then (.success, x) else x.unget source c .matchFail

/-- `handle_status`. `EOF` is `-1`. -/
def handleStatus (status : ScanStatus) (assignments : Nat) : Int :=
  if status = .inputFail ∧ assignments = 0 then -1 else assignments

/-- The conversion of `scan_dispatch` for a specification. -/
def scanConversion (fuel : Nat) (spec : ScanSpec) (x : Scan σ) : Option (ScanStatus × Scan σ) :=
  if spec.conversion = '%'.toUInt8 then some (matchLiteral source '%'.toNat x)
  else if spec.conversion = 'd'.toUInt8 then scanInteger source fuel spec 10 true x
  else if spec.conversion = 'i'.toUInt8 then scanInteger source fuel spec 0 true x
  else if spec.conversion = 'u'.toUInt8 then scanInteger source fuel spec 10 false x
  else if spec.conversion = 'o'.toUInt8 then scanInteger source fuel spec 8 false x
  else if spec.conversion = 'x'.toUInt8 ∨ spec.conversion = 'X'.toUInt8 then scanInteger source fuel spec 16 false x
  else if isFloatConversion spec.conversion then scanFloating source fuel spec x
  else if spec.conversion = 's'.toUInt8 then scanString source fuel spec x
  else if spec.conversion = '['.toUInt8 then some (scanScanset source spec x)
  else some (scanCharacters source spec x)

/-- How a round of `scan_dispatch` ends: with the result of the call, or with the rest
of the format and the number of assignments. -/
inductive Round (σ : Type) where
  | returned (value : Int) (x : Scan σ)
  | next (format : List UInt8) (assignments : Nat) (x : Scan σ)

/-- A directive has ended. -/
def endDirective (status : ScanStatus) (format : List UInt8) (assignments counted : Nat) (x : Scan σ) : Round σ :=
  if status = .success then .next format (assignments + counted) x else .returned (handleStatus status assignments) x

@[simp] theorem byteAt_head (c : UInt8) (rest : List UInt8) : byteAt (c :: rest) = c := rfl

/-- A space in the format. -/
def isFormatSpace (c : UInt8) : Bool := isScanSpace c.toNat

/-- A round of the loop of `scan_dispatch`. -/
def scanRound (fuel : Nat) (format : List UInt8) (assignments : Nat) (x : Scan σ) : Option (Round σ) :=
  if isFormatSpace (byteAt format) then
    (x.skipInputSpace source fuel).map fun (ok, x) =>
      endDirective (if ok then .success else .inputFail) (format.dropWhile isFormatSpace) assignments 0 x
  else if byteAt format ≠ '%'.toUInt8 then
    if source.wide then
      match decodeFormatLiteral source.utf8 format with
      | none => some (.returned (-1) (x.setErrno source eilseq))
      | some (expected, format) =>
        let (status, x) := matchLiteral source expected x
        some (endDirective status format assignments 0 x)
    else
      let (status, x) := matchLiteral source (byteAt format).toNat x
      some (endDirective status (format.drop 1) assignments 0 x)
  else
    match parseScanSpec (format.drop 1) with
    | none => some (.returned (-1) (x.setErrno source einval))
    | some (spec, format) =>
      (scanConversion source fuel spec x).map fun (status, x) =>
        endDirective status format assignments (if spec.conversion ≠ '%'.toUInt8 ∧ !spec.suppress then 1 else 0) x

/-- The loop of `scan_dispatch`, for `rounds` rounds at most. -/
def scanLoop (fuel : Nat) : (rounds : Nat) → List UInt8 → Nat → Scan σ → Option (Int × Scan σ)
  | 0, _, assignments, x => some (assignments, x)
  | rounds + 1, format, assignments, x =>
    if byteAt format = 0 then some (assignments, x)
    else
      match scanRound source fuel format assignments x with
      | none => none
      | some (.returned value x) => some (value, x)
      | some (.next format assignments x) => scanLoop fuel rounds format assignments x

/-- `scan_dispatch`. Every round takes something of the format. -/
def scanDispatch (fuel : Nat) (format : List UInt8) (x : Scan σ) : Option (Int × Scan σ) :=
  scanLoop source fuel format.length format 0 x

end MiniLibc.Stdio
