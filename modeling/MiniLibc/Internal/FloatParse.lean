import MiniLibc.Lib.Binary64
/-!
# The floating parser

`src/internal/float_parse.c`. A character is its code, and a reader is the list of
characters its source still delivers within the width, so that reading takes the
first one, ungetting the character that was just read puts it back, and a mark is
the list there.
-/

namespace MiniLibc.FloatParse

/-- `MINI_FLOAT_PARSE_STRTO`, which has marks, and `MINI_FLOAT_PARSE_SCAN`. -/
inductive Policy where
  | strto
  | scan
deriving DecidableEq, Repr

/-- `MINI_FLOAT_PARSE_MATCH_FAIL` to `MINI_FLOAT_PARSE_RANGE_FAIL`; the last one
comes with `ERANGE`. -/
inductive Status where
  | matchFail
  | success
  | inputFail
  | rangeFail
deriving DecidableEq, Repr

def decimalDigits : Nat := 18

def hexDigits : Nat := 15

def exponentCap : Nat := 10000000000

/-! ## Characters -/

def asciiSpace (c : Nat) : Bool := c = 32 ∨ (9 ≤ c ∧ c ≤ 13)

def asciiDigit (c : Nat) : Option Nat := if '0'.toNat ≤ c ∧ c ≤ '9'.toNat then some (c - '0'.toNat) else none

def asciiHex (c : Nat) : Option Nat :=
  if '0'.toNat ≤ c ∧ c ≤ '9'.toNat then some (c - '0'.toNat)
  else if 'a'.toNat ≤ c ∧ c ≤ 'f'.toNat then some (c - 'a'.toNat + 10)
  else if 'A'.toNat ≤ c ∧ c ≤ 'F'.toNat then some (c - 'A'.toNat + 10)
  else none

def asciiEqualCi (c : Nat) (lower : Char) : Bool := c = lower.toNat ∨ c + 32 = lower.toNat

def nanPayloadChar (c : Nat) : Bool :=
  (asciiDigit c).isSome ∨ ('a'.toNat ≤ c ∧ c ≤ 'z'.toNat) ∨ ('A'.toNat ≤ c ∧ c ≤ 'Z'.toNat) ∨ c = '_'.toNat

def isSign (c : Nat) : Bool := c = '+'.toNat ∨ c = '-'.toNat

/-! ## The significand -/

/-- What `accumulate_digit` works on. -/
structure Digits where
  significand : Nat := 0
  storedDigits : Nat := 0
  fractionalDigits : Nat := 0
  discardedDigits : Nat := 0
  significantStarted : Bool := false
  firstDiscarded : Option Nat := none
  discardedNonzero : Bool := false
deriving DecidableEq, Repr

/-- `accumulate_digit`, up to the test of the leading zeros. -/
def Digits.count (a : Digits) (afterPoint : Bool) : Digits :=
  if afterPoint then { a with fractionalDigits := a.fractionalDigits + 1 } else a

def Digits.accumulate (a : Digits) (digit : Nat) (afterPoint : Bool) (digitLimit base : Nat) : Digits :=
  let a := a.count afterPoint
  if !a.significantStarted ∧ digit = 0 then a
  else if a.storedDigits < digitLimit then
    { a with
      significantStarted := true
      significand := (a.significand * base + digit) % 2 ^ 64
      storedDigits := a.storedDigits + 1 }
  else
    match a.firstDiscarded with
    | none =>
      { a with
        significantStarted := true
        discardedDigits := a.discardedDigits + 1
        firstDiscarded := some digit }
    | some _ =>
      { a with
        significantStarted := true
        discardedDigits := a.discardedDigits + 1
        discardedNonzero := a.discardedNonzero ∨ digit ≠ 0 }

/-- `round_significand`. -/
def Digits.round (a : Digits) (base : Nat) : Nat :=
  match a.firstDiscarded with
  | none => a.significand
  | some first =>
    if base / 2 < first ∨ (first = base / 2 ∧ (a.discardedNonzero ∨ a.significand % 2 = 1)) then
      (a.significand + 1) % 2 ^ 64
    else a.significand

/-- The loop over the digits and the point, up to the first other character. -/
def digitLoop (digitOf : Nat → Option Nat) (digitLimit base : Nat) (a : Digits) (digits : Nat) (afterPoint : Bool) :
    List Nat → Digits × Nat × List Nat
  | [] => (a, digits, [])
  | c :: rest =>
    match digitOf c with
    | some digit =>
      digitLoop digitOf digitLimit base (a.accumulate digit afterPoint digitLimit base) ((digits + 1) % 2 ^ 32)
        afterPoint rest
    | none =>
      if c = '.'.toNat ∧ !afterPoint then digitLoop digitOf digitLimit base a digits true rest
      else (a, digits, c :: rest)

/-! ## The exponent -/

/-- What `parse_exponent` stores. -/
structure Exponent where
  negative : Bool := false
  value : Nat := 0
  overflow : Bool := false
deriving DecidableEq, Repr

/-- `accumulate_exponent`. -/
def Exponent.accumulate (e : Exponent) (digit : Nat) : Exponent :=
  if e.overflow then e
  else if (exponentCap - digit) / 10 < e.value then { e with overflow := true }
  else { e with value := e.value * 10 + digit }

/-- The loop over the digits of the exponent. -/
def exponentLoop (e : Exponent) (digits : Nat) : List Nat → Exponent × Nat × List Nat
  | [] => (e, digits, [])
  | c :: rest =>
    match asciiDigit c with
    | some digit => exponentLoop (e.accumulate digit) ((digits + 1) % 2 ^ 32) rest
    | none => (e, digits, c :: rest)

/-- `parse_exponent`, with the marker and what follows it. -/
def parseExponent (policy : Policy) (marker : Nat) (rest : List Nat) : Status × Exponent × List Nat :=
  -- Without a digit, `strtod` goes back to the marker.
  let incomplete (e : Exponent) (rest' : List Nat) : Status × Exponent × List Nat :=
    match policy with
    | .strto => (.success, e, marker :: rest)
    | .scan => (.matchFail, e, rest')
  match rest with
  | [] => incomplete {} []
  | c :: rest' =>
    let e : Exponent := { negative := c = '-'.toNat }
    let rest' := if isSign c then rest' else c :: rest'
    match rest' with
    | [] => incomplete e []
    | _ =>
      let (e, digits, rest'') := exponentLoop e 0 rest'
      if digits = 0 then incomplete e rest'' else (.success, e, rest'')

/-! ## Scaling -/

/-- `MINI_FLOAT_DOUBLE_MAX`. -/
def doubleMax : Binary64 := ⟨false, Binary64.infBits - 1, by decide⟩

/-- `MINI_FLOAT_DOUBLE_MIN_NORMAL`. -/
def doubleMinNormal : Binary64 := ⟨false, 2 ^ 52, by decide⟩

/-- A stored result. -/
structure Result where
  status : Status
  value : Binary64
deriving DecidableEq

def signedZero (negative : Bool) : Binary64 := if negative then Binary64.zero.negate else Binary64.zero

/-- `finish_range`. -/
def finishRange (value : Binary64) : Result :=
  let magnitude := if value.less Binary64.zero then value.negate else value
  if !magnitude.isZero ∧ magnitude.less doubleMinNormal then ⟨.rangeFail, value⟩ else ⟨.success, value⟩

/-- How the loop over the bits of the exponent ends. -/
inductive Scaled where
  | done (value : Binary64)
  | overflow
  /-- The index is past the table. -/
  | past

/-- The loop over the bits of the exponent. -/
def scaleLoop (powers : List Binary64) (positive : Bool) (index magnitude : Nat) (value : Binary64) : Scaled :=
  if _h : magnitude = 0 then .done value
  else if magnitude % 2 = 1 then
    match powers[index]? with
    | none => .past
    | some power =>
      if positive then
        if (doubleMax.div power).less value then .overflow
        else scaleLoop powers positive (index + 1) (magnitude / 2) (value.mul power)
      else scaleLoop powers positive (index + 1) (magnitude / 2) (value.div power)
  else scaleLoop powers positive (index + 1) (magnitude / 2) value
termination_by magnitude

/-- `scale_decimal` and `scale_binary`, with their table and the bound of the
exponent. The table of `scale_decimal` has a power for each bit within its bound. -/
def scale (powers : List Binary64) (bound : Int) (significand : Nat) (exponent : Int) (negative : Bool) : Result :=
  if significand = 0 then ⟨.success, signedZero negative⟩
  else if bound < exponent then ⟨.rangeFail, Binary64.inf negative⟩
  else if exponent < -bound then ⟨.rangeFail, signedZero negative⟩
  else
    match scaleLoop powers (0 < exponent) 0 exponent.natAbs (Binary64.ofNat significand) with
    | .overflow => ⟨.rangeFail, Binary64.inf negative⟩
    | .past => ⟨.rangeFail, if 0 < exponent then Binary64.inf negative else signedZero negative⟩
    | .done value =>
      if value.isZero then ⟨.rangeFail, if negative then value.negate else value⟩
      else finishRange (if negative then value.negate else value)

/-- `1.0e1` to `1.0e256`. -/
def decimalPowers : List Binary64 :=
  (List.range 9).map fun i => Binary64.round false (10 ^ 2 ^ i * 2 ^ Binary64.unitBits) 1

/-- `2.0` to `1.3407807929942597e154`, the literals of the powers of two. -/
def binaryPowers : List Binary64 :=
  (List.finRange 10).map fun i =>
    Binary64.pow2 (2 ^ i.val) ((Nat.pow_le_pow_right Nat.two_pos (Nat.le_of_lt_succ i.isLt)).trans (by decide))

def scaleDecimal : Nat → Int → Bool → Result := scale decimalPowers 511

def scaleBinary : Nat → Int → Bool → Result := scale binaryPowers 2047

/-! ## Numbers -/

/-- What a parse returns, what it stored, and the characters it left. -/
structure Parsed where
  status : Status
  result : Option Binary64
  rest : List Nat

/-- What `parse_decimal` and `parse_hex` differ in. -/
structure Radix where
  digitOf : Nat → Option Nat
  digitLimit : Nat
  base : Nat
  /-- The lower case marker of the exponent. -/
  marker : Char
  /-- How much a digit counts in the exponent. -/
  weight : Nat
  scale : Nat → Int → Bool → Result

/-- The conversion at the end of `parse_decimal` and `parse_hex`. -/
def Radix.convert (radix : Radix) (negative : Bool) (a : Digits) (e : Exponent) : Result :=
  let significand := a.round radix.base
  if significand = 0 then ⟨.success, signedZero negative⟩
  else if e.overflow then ⟨.rangeFail, if e.negative then signedZero negative else Binary64.inf negative⟩
  else
    let exponent : Int := (a.discardedDigits * radix.weight : Nat) - (a.fractionalDigits * radix.weight : Nat)
    radix.scale significand (if e.negative then exponent - e.value else exponent + e.value) negative

/-- `parse_decimal` and `parse_hex`, from the first digit. -/
def Radix.parse (radix : Radix) (policy : Policy) (negative convert : Bool) (input : List Nat) : Parsed :=
  let (a, digits, rest) := digitLoop radix.digitOf radix.digitLimit radix.base {} 0 false input
  let finish (e : Exponent) (rest : List Nat) : Parsed :=
    if convert then ⟨(radix.convert negative a e).status, some (radix.convert negative a e).value, rest⟩
    else ⟨.success, none, rest⟩
  if digits = 0 then ⟨.matchFail, none, rest⟩
  else
    match rest with
    | [] => finish {} []
    | c :: rest' =>
      if asciiEqualCi c radix.marker then
        let (status, e, rest'') := parseExponent policy c rest'
        if status = .success then finish e rest'' else ⟨status, none, rest''⟩
      else finish {} (c :: rest')

def decimal : Radix := ⟨asciiDigit, decimalDigits, 10, 'e', 1, scaleDecimal⟩

def hex : Radix := ⟨asciiHex, hexDigits, 16, 'p', 4, scaleBinary⟩

def parseDecimal : Policy → Bool → Bool → List Nat → Parsed := decimal.parse

def parseHex : Policy → Bool → Bool → List Nat → Parsed := hex.parse

/-! ## Infinity and NaN -/

/-- `match_required`. -/
def matchRequired : List Char → List Nat → Status × List Nat
  | [], rest => (.success, rest)
  | _ :: _, [] => (.matchFail, [])
  | t :: text, c :: rest => if asciiEqualCi c t then matchRequired text rest else (.matchFail, c :: rest)

/-- A special value was read. -/
def special (convert : Bool) (value : Binary64) (rest : List Nat) : Parsed :=
  ⟨.success, if convert then some value else none, rest⟩

/-- `parse_infinity`, after the first letter. -/
def parseInfinity (policy : Policy) (negative convert : Bool) (input : List Nat) : Parsed :=
  match matchRequired ['n', 'f'] input with
  | (.success, []) => special convert (Binary64.inf negative) []
  | (.success, c :: rest) =>
    if asciiEqualCi c 'i' then
      match matchRequired ['n', 'i', 't', 'y'] rest with
      | (.success, rest') => special convert (Binary64.inf negative) rest'
      | (status, rest') =>
        match policy with
        | .strto => special convert (Binary64.inf negative) (c :: rest)
        | .scan => ⟨status, none, rest'⟩
    else special convert (Binary64.inf negative) (c :: rest)
  | (status, rest) => ⟨status, none, rest⟩

/-- `parse_nan`, after the first letter. -/
def parseNan (policy : Policy) (negative convert : Bool) (input : List Nat) : Parsed :=
  match matchRequired ['a', 'n'] input with
  | (.success, []) => special convert (Binary64.nan negative) []
  | (.success, c :: rest) =>
    if c = '('.toNat then
      match rest.dropWhile nanPayloadChar with
      | [] =>
        match policy with
        | .strto => special convert (Binary64.nan negative) (c :: rest)
        | .scan => ⟨.matchFail, none, []⟩
      | c' :: rest' =>
        if c' = ')'.toNat then special convert (Binary64.nan negative) rest'
        else
          match policy with
          | .strto => special convert (Binary64.nan negative) (c :: rest)
          | .scan => ⟨.matchFail, none, c' :: rest'⟩
    else special convert (Binary64.nan negative) (c :: rest)
  | (status, rest) => ⟨status, none, rest⟩

/-! ## The entry points -/

/-- `__mini_float_parse`, after the sign. -/
def parseUnsigned (policy : Policy) (negative convert : Bool) : List Nat → Parsed
  | [] => ⟨.matchFail, none, []⟩
  | c :: rest =>
    if asciiEqualCi c 'i' then parseInfinity policy negative convert rest
    else if asciiEqualCi c 'n' then parseNan policy negative convert rest
    else if c = '0'.toNat then
      match rest with
      | [] => parseDecimal policy negative convert (c :: rest)
      | next :: rest' =>
        if asciiEqualCi next 'x' then
          let parsed := parseHex policy negative convert rest'
          if parsed.status = .matchFail ∧ policy = .strto then special convert (signedZero negative) (next :: rest')
          else parsed
        else parseDecimal policy negative convert (c :: rest)
    else parseDecimal policy negative convert (c :: rest)

/-- `__mini_float_parse`, behind the space. -/
def parseSigned (policy : Policy) (convert : Bool) : List Nat → Parsed
  | [] => ⟨.inputFail, none, []⟩
  | c :: rest =>
    if isSign c then parseUnsigned policy (c = '-'.toNat) convert rest
    else parseUnsigned policy false convert (c :: rest)

/-- `__mini_float_parse`. -/
def floatParse (width : Nat) (skipSpace : Bool) (policy : Policy) (convert : Bool) (input : List Nat) : Parsed :=
  let input := if skipSpace then input.dropWhile asciiSpace else input
  let parsed := parseSigned policy convert (input.take width)
  { parsed with rest := parsed.rest ++ input.drop width }

/-- `MINI_FLOAT_PARSE_WIDTH_MAX`. -/
def widthMax : Nat := 2 ^ 64 - 1

/-- `parse_string` on the characters of a string: the status, the value, and how
far `endptr` is from `nptr`. -/
def parseString (nptr : List Nat) : Status × Binary64 × Nat :=
  let parsed := floatParse widthMax true .strto true nptr
  match parsed.status with
  | .matchFail | .inputFail => (parsed.status, Binary64.zero, 0)
  | _ => (parsed.status, parsed.result.getD Binary64.zero, nptr.length - parsed.rest.length)

/-- `strtod`. -/
def strtod (nptr : List Nat) : Binary64 := (parseString nptr).2.1

end MiniLibc.FloatParse
