import MiniLibc.Internal.FloatParse
/-!
# The floating parser over a source

`__mini_float_parse` as the scanner calls it, and `__mini_float_narrow`: characters
come from a source that can take one back, there are no marks, and the width is what
a reader still reads.
-/

namespace MiniLibc.FloatParse

/-- `mini_float_source` without marks, over the state of what it reads. `get` gives
`none` for `EOF`, and `unget` tells whether it did not fail. -/
structure FloatSource (σ : Type) where
  get : σ → Option Int × σ
  unget : Int → σ → Bool × σ

/-- `skip_leading_space`, and `skip_input_space` of the scanner, which differ in the
test. `none` when the space has not ended after `fuel` characters, and otherwise whether
the result is not `-1`. -/
def FloatSource.skipSpace {σ : Type} (source : FloatSource σ) (space : Int → Bool) : (fuel : Nat) → σ → Option (Bool × σ)
  | 0, _ => none
  | fuel + 1, s =>
    match source.get s with
    | (none, s) => some (true, s)
    | (some c, s) => if space c then source.skipSpace space fuel s else some (source.unget c s)

/-- `mini_float_reader`. -/
structure Reader (σ : Type) where
  input : σ
  remaining : Nat

/-- What a parse returns, what it stored, and the reader it left. -/
structure Read (σ : Type) where
  status : Status
  result : Option Binary64
  reader : Reader σ

variable {σ β : Type} (source : FloatSource σ)

/-! ## The reader -/

/-- `reader_get`. -/
def Reader.get (r : Reader σ) : Option Int × Reader σ :=
  if r.remaining = 0 then (none, r)
  else
    match source.get r.input with
    | (none, s) => (none, { r with input := s })
    | (some c, s) => (some c, ⟨s, r.remaining - 1⟩)

/-- `reader_unget`. -/
def Reader.unget (c : Int) (r : Reader σ) : Bool × Reader σ :=
  match source.unget c r.input with
  | (false, s) => (false, { r with input := s })
  | (true, s) => (true, ⟨s, r.remaining + 1⟩)

/-- The end of a part: the character behind it is given back, if there is one. -/
def Reader.leave (status : Status) (c : Option Int) (r : Reader σ) : Status × Reader σ :=
  match c with
  | none => (status, r)
  | some c =>
    match r.unget source c with
    | (false, r) => (.inputFail, r)
    | (true, r) => (status, r)

/-- The loops: as long as `step` takes the character, the next one is read. -/
def readWhile (step : β → Int → Option β) (acc : β) (c : Option Int) (s : σ) (remaining : Nat) :
    β × Option Int × Reader σ :=
  match c.bind (step acc) with
  | none => (acc, c, ⟨s, remaining⟩)
  | some acc =>
    match remaining with
    | 0 => (acc, none, ⟨s, 0⟩)
    | remaining + 1 =>
      match source.get s with
      | (none, s) => (acc, none, ⟨s, remaining + 1⟩)
      | (some c, s) => readWhile step acc (some c) s remaining

/-- `readWhile` from a reader. -/
def Reader.loop (r : Reader σ) (step : β → Int → Option β) (acc : β) (c : Option Int) : β × Option Int × Reader σ :=
  readWhile source step acc c r.input r.remaining

/-- The code of a character in the tests. A negative one is like the terminator: the
parser looks for neither. -/
def code (c : Int) : Nat := c.toNat

/-! ## The exponent -/

/-- One round of the loop over the digits of the exponent. -/
def exponentStep (acc : Exponent × Nat) (c : Int) : Option (Exponent × Nat) :=
  (asciiDigit (code c)).map fun digit => (acc.1.accumulate digit, (acc.2 + 1) % 2 ^ 32)

/-- `parse_exponent`, behind the marker. -/
def Reader.parseExponent (r : Reader σ) : Status × Exponent × Reader σ :=
  match r.get source with
  | (none, r) => (.matchFail, {}, r)
  | (some c, r) =>
    let e : Exponent := { negative := code c = '-'.toNat }
    match if isSign (code c) then r.get source else (some c, r) with
    | (none, r) => (.matchFail, e, r)
    | (some c, r) =>
      let ((e, digits), c, r) := r.loop source exponentStep (e, 0) (some c)
      let (status, r) := r.leave source (if digits = 0 then .matchFail else .success) c
      (status, e, r)

/-! ## Numbers -/

/-- `significand` and its companions, `digits` and `after_point`. -/
structure MantissaState where
  digits : Digits := {}
  count : Nat := 0
  afterPoint : Bool := false

/-- One round of the loop over the digits and the point. -/
def Radix.step (radix : Radix) (m : MantissaState) (c : Int) : Option MantissaState :=
  match radix.digitOf (code c) with
  | some digit =>
    some { m with
      digits := m.digits.accumulate digit m.afterPoint radix.digitLimit radix.base
      count := (m.count + 1) % 2 ^ 32 }
  | none => if code c = '.'.toNat ∧ !m.afterPoint then some { m with afterPoint := true } else none

/-- `parse_decimal` and `parse_hex`, from the first character. -/
def Radix.read (radix : Radix) (negative convert : Bool) (c : Option Int) (r : Reader σ) : Read σ :=
  let (m, c, r) := r.loop source radix.step {} c
  if m.count = 0 then
    let (status, r) := r.leave source .matchFail c
    ⟨status, none, r⟩
  else
    let (status, e, r) :=
      if c.any fun c => asciiEqualCi (code c) radix.marker then r.parseExponent source
      else
        let (status, r) := r.leave source .success c
        (status, {}, r)
    if status ≠ .success then ⟨status, none, r⟩
    else if convert then ⟨(radix.convert negative m.digits e).status, some (radix.convert negative m.digits e).value, r⟩
    else ⟨.success, none, r⟩

/-! ## Infinity and NaN -/

/-- `match_required`. -/
def Reader.matchRequired : List Char → Reader σ → Status × Reader σ
  | [], r => (.success, r)
  | t :: text, r =>
    match r.get source with
    | (none, r) => (.matchFail, r)
    | (some c, r) => if asciiEqualCi (code c) t then matchRequired text r else r.leave source .matchFail (some c)

/-- A special value was read, with a last status. -/
def specialRead (convert : Bool) (value : Binary64) (last : Status × Reader σ) : Read σ :=
  ⟨last.1, if convert ∧ last.1 = .success then some value else none, last.2⟩

/-- `parse_infinity`, behind the first letter. -/
def Reader.parseInfinity (negative convert : Bool) (r : Reader σ) : Read σ :=
  match r.matchRequired source ['n', 'f'] with
  | (.success, r) =>
    match r.get source with
    | (none, r) => specialRead convert (Binary64.inf negative) (.success, r)
    | (some c, r) =>
      if asciiEqualCi (code c) 'i' then
        specialRead convert (Binary64.inf negative) (r.matchRequired source ['n', 'i', 't', 'y'])
      else specialRead convert (Binary64.inf negative) (r.leave source .success (some c))
  | (status, r) => ⟨status, none, r⟩

/-- One round of the loop over the text in parentheses. -/
def payloadStep (_ : Unit) (c : Int) : Option Unit := if nanPayloadChar (code c) then some () else none

/-- `parse_nan`, behind the first letter. -/
def Reader.parseNan (negative convert : Bool) (r : Reader σ) : Read σ :=
  match r.matchRequired source ['a', 'n'] with
  | (.success, r) =>
    match r.get source with
    | (none, r) => specialRead convert (Binary64.nan negative) (.success, r)
    | (some c, r) =>
      if code c = '('.toNat then
        let (c, r) := r.get source
        let (_, c, r) := r.loop source payloadStep () c
        if c.any fun c => code c = ')'.toNat then specialRead convert (Binary64.nan negative) (.success, r)
        else specialRead convert (Binary64.nan negative) (r.leave source .matchFail c)
      else specialRead convert (Binary64.nan negative) (r.leave source .success (some c))
  | (status, r) => ⟨status, none, r⟩

/-! ## The entry point -/

/-- `__mini_float_parse`, behind the sign. -/
def Reader.parseUnsigned (negative convert : Bool) (c : Int) (r : Reader σ) : Read σ :=
  if asciiEqualCi (code c) 'i' then r.parseInfinity source negative convert
  else if asciiEqualCi (code c) 'n' then r.parseNan source negative convert
  else if code c = '0'.toNat then
    let (next, r) := r.get source
    if next.any fun next => asciiEqualCi (code next) 'x' then
      let (c, r) := r.get source
      hex.read source negative convert c r
    else
      match r.leave source .success next with
      | (.success, r) => decimal.read source negative convert (some c) r
      | (status, r) => ⟨status, none, r⟩
  else decimal.read source negative convert (some c) r

/-- `__mini_float_parse`, behind the space. -/
def Reader.parseSigned (convert : Bool) (r : Reader σ) : Read σ :=
  match r.get source with
  | (none, r) => ⟨.inputFail, none, r⟩
  | (some c, r) =>
    if isSign (code c) then
      match r.get source with
      | (none, r) => ⟨.matchFail, none, r⟩
      | (some c', r) => r.parseUnsigned source (code c = '-'.toNat) convert c'
    else r.parseUnsigned source false convert c

/-- `__mini_float_parse`, which skips space. `none` when it does not end. -/
def FloatSource.parse (fuel width : Nat) (convert : Bool) (s : σ) : Option (Read σ) :=
  (source.skipSpace (fun c => asciiSpace (code c)) fuel s).map fun
    | (false, s) => ⟨.inputFail, none, ⟨s, width⟩⟩
    | (true, s) => Reader.parseSigned source convert ⟨s, width⟩

/-! ## Narrowing -/

/-- `MINI_FLOAT_SINGLE_MAX`. -/
def singleMax : Binary64 := ⟨false, (127 + 1023) * 2 ^ 52 + (2 ^ 23 - 1) * 2 ^ 29, by decide⟩

/-- The magnitude of the infinities of a `float`. -/
def singleInf : Nat := 255 * 2 ^ 23

/-- `(float)value`, without the sign bit. A unit of a `float` is `2 ^ (-149)`, and a NaN
keeps the high part of its fraction. -/
def singleMagnitude (value : Binary64) : Nat :=
  if value.isNan then singleInf + (2 ^ 22 ||| value.fraction >>> 29)
  else if value.isInf then singleInf
  else
    let n := Binary64.units value.magnitude
    let shift := (n / 2 ^ 925).log2 - 23
    min (shift * 2 ^ 23 + Binary64.divEven n (2 ^ 925 * 2 ^ shift)) singleInf

/-- `__mini_float_narrow`: the status, and the bits of the `float`. -/
def floatNarrow (value : Binary64) : Status × Nat :=
  let magnitude := singleMagnitude value
  let bits := (if value.neg then 2 ^ 31 else 0) + magnitude
  if !value.Finite then (.success, bits)
  else if singleMax.less { value with neg := false } ∨ (!value.isZero ∧ magnitude = 0) then (.rangeFail, bits)
  else if magnitude ≠ 0 ∧ magnitude < 2 ^ 23 then (.rangeFail, bits)
  else (.success, bits)

end MiniLibc.FloatParse
