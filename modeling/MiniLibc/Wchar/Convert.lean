import Mathlib
/-!
# Multibyte conversion

`src/wchar/wchar.c`: the restartable decoder `mbrtowc` and the encoder
`wcrtomb`, in UTF-8 mode and in the C locale. Bytes are `UInt8`, `unsigned int`
words are naturals, and a source buffer is the list of its readable bytes.
-/

namespace MiniLibc.Wchar

/-- `mbstate_t`. -/
structure MbState where
  count : Nat := 0
  value : Nat := 0
deriving DecidableEq, Repr

/-- `MINI_C_MB_MAX`. -/
def cMbMax : Nat := 0x7f

def stateRemaining (ps : MbState) : Nat := ps.count &&& 0xff
def stateTotal (ps : MbState) : Nat := ps.count >>> 8

def startState (total remaining value : Nat) : MbState :=
  ⟨(total <<< 8) ||| remaining, value⟩

def mbsinit (ps : MbState) : Bool := ps.count = 0 ∧ ps.value = 0

def validScalar (value : Nat) : Bool :=
  value ≤ 0x10ffff ∧ (value < 0xd800 ∨ value > 0xdfff)

def minimumScalar (total : Nat) : Nat :=
  if total = 2 then 0x80 else if total = 3 then 0x800 else 0x10000

/-- A `size_t` result: a length, `(size_t)-1` with `errno = EILSEQ`, or
`(size_t)-2`. -/
inductive Converted where
  | length (n : Nat)
  | eilseq
  | incomplete
deriving DecidableEq, Repr

/-- What `mbrtowc` leaves: its result, the character stored through `pwc` (if
one is), and the conversion state. -/
structure Decoded where
  result : Converted
  pwc : Option Int
  state : MbState
deriving DecidableEq, Repr

/-- The `while (used < n)` loop of `__mini_mbrtowc_mode`, on the bytes from
`s[used]` on. -/
def mbrtowcLoop (used : Nat) : List UInt8 → MbState → Decoded
  | [], state => ⟨.incomplete, none, state⟩
  | s :: rest, state =>
    let byte := s.toNat
    if stateRemaining state = 0 then
      if byte = 0 then ⟨.length 0, some 0, {}⟩
      else if byte ≤ 0x7f then ⟨.length 1, some byte, state⟩
      else if 0xc2 ≤ byte ∧ byte ≤ 0xdf then mbrtowcLoop (used + 1) rest (startState 2 1 (byte &&& 0x1f))
      else if 0xe0 ≤ byte ∧ byte ≤ 0xef then mbrtowcLoop (used + 1) rest (startState 3 2 (byte &&& 0x0f))
      else if 0xf0 ≤ byte ∧ byte ≤ 0xf4 then mbrtowcLoop (used + 1) rest (startState 4 3 (byte &&& 0x07))
      else ⟨.eilseq, none, {}⟩
    else if byte < 0x80 ∨ 0xbf < byte then ⟨.eilseq, none, {}⟩
    else
      let remaining := stateRemaining state - 1
      let total := stateTotal state
      -- `unsigned int` arithmetic: the shift wraps at 32 bits.
      let value := ((state.value <<< 6) % 2 ^ 32) ||| (byte &&& 0x3f)
      if remaining ≠ 0 then mbrtowcLoop (used + 1) rest (startState total remaining value)
      else if value < minimumScalar total ∨ !validScalar value then ⟨.eilseq, none, {}⟩
      else ⟨.length (used + 1), some value, {}⟩

/-- `__mini_mbrtowc_mode(pwc, s, n, ps, utf8)`; `s` is `none` for a null pointer
and otherwise its `n` bytes. -/
def mbrtowcMode (s : Option (List UInt8)) (ps : MbState) (utf8 : Bool) : Decoded :=
  match s with
  | none => ⟨.length 0, none, {}⟩
  | some [] => ⟨.incomplete, none, ps⟩
  | some (b :: rest) =>
    if utf8 then mbrtowcLoop 0 (b :: rest) ps
    else if !mbsinit ps then ⟨.eilseq, none, {}⟩
    else if b.toNat > cMbMax then ⟨.eilseq, none, ps⟩
    else ⟨.length (if b.toNat = 0 then 0 else 1), some b.toNat, ps⟩

/-- The bytes `wcrtomb` stores for `wc`, or `none` with `errno = EILSEQ`. -/
def encodeValue (wc : Int) (utf8 : Bool) : Option (List UInt8) :=
  if wc < 0 then none
  else
    let value := wc.toNat
    if !utf8 then
      if value > cMbMax then none else some [.ofNat value]
    else if !validScalar value then none
    else if value ≤ 0x7f then some [.ofNat value]
    else if value ≤ 0x7ff then some [.ofNat (0xc0 ||| (value >>> 6)), .ofNat (0x80 ||| (value &&& 0x3f))]
    else if value ≤ 0xffff then
      some [.ofNat (0xe0 ||| (value >>> 12)), .ofNat (0x80 ||| ((value >>> 6) &&& 0x3f)),
        .ofNat (0x80 ||| (value &&& 0x3f))]
    else
      some [.ofNat (0xf0 ||| (value >>> 18)), .ofNat (0x80 ||| ((value >>> 12) &&& 0x3f)),
        .ofNat (0x80 ||| ((value >>> 6) &&& 0x3f)), .ofNat (0x80 ||| (value &&& 0x3f))]

/-- `__mini_wcrtomb_mode(s, wc, ps, utf8)` with a destination: the stored bytes
and the state, which every call resets. -/
def wcrtombMode (wc : Int) (_ps : MbState) (utf8 : Bool) : Option (List UInt8) × MbState :=
  (encodeValue wc utf8, {})

end MiniLibc.Wchar
