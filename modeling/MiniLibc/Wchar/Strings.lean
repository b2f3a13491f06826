import MiniLibc.Wchar.Feed
/-!
# String conversion

`src/wchar/wchar.c`: `mbsrtowcs` and `wcsrtombs`, and `mbstowcs` and `wcstombs`
of `src/stdlib/multibyte.c`. A source pointer is the list of what it points to,
up to the terminator and with it.
-/

namespace MiniLibc.Wchar

/-- The states a call can use: the function's own, and the caller's object,
`none` for a null pointer. -/
structure States where
  internal : MbState
  caller : Option MbState
deriving DecidableEq, Repr

/-- `select_state`. -/
def selectState (states : States) : MbState := states.caller.getD states.internal

/-- Store the selected state. -/
def States.store (states : States) (state : MbState) : States :=
  match states.caller with
  | some _ => { states with caller := some state }
  | none => { states with internal := state }

/-- What a string conversion leaves: its result, what it stored through `dst`,
`*src`, with `none` for a null pointer, and the states. `.eilseq` is
`(size_t)-1` with `errno = EILSEQ`. -/
structure StringConverted (α β τ : Type) where
  result : Converted
  stored : List β
  src : Option (List α)
  state : τ
deriving DecidableEq, Repr

/-- `source_window`. -/
def sourceWindow : List UInt8 → (maximum : Nat) → List UInt8
  | _, 0 => []
  | [], _ => []
  | s :: rest, maximum + 1 => if s = 0 then [s] else s :: sourceWindow rest maximum

/-- The loop of `mbsrtowcs`, from `cursor` and `dst[count]` on. Every character
takes a byte, so for a string its length is enough fuel. -/
def mbsrtowcsLoop (utf8 sizing : Bool) (len : Nat) :
    (fuel : Nat) → (cursor : List UInt8) → (count : Nat) → MbState → StringConverted UInt8 Int MbState
  | 0, cursor, _, state => ⟨.eilseq, [], some cursor, state⟩
  | fuel + 1, cursor, count, state =>
    if !sizing ∧ count ≥ len then ⟨.length count, [], some cursor, state⟩
    else
      let d := mbrtowcMode (some (sourceWindow cursor (if utf8 then 4 else 1))) state utf8
      match d.result with
      | .eilseq => ⟨.eilseq, [], some cursor, d.state⟩
      | .incomplete => ⟨.eilseq, [], some cursor, d.state⟩
      | .length 0 => ⟨.length count, [0], none, d.state⟩
      | .length (n + 1) =>
        let r := mbsrtowcsLoop utf8 sizing len fuel (cursor.drop (n + 1)) (count + 1) d.state
        { r with stored := d.pwc.getD 0 :: r.stored }

/-- `mbsrtowcs`; `sizing` when `dst` is null. -/
def mbsrtowcs (utf8 sizing : Bool) (src : List UInt8) (len : Nat) (states : States) :
    StringConverted UInt8 Int States :=
  if sizing then
    let r := mbsrtowcsLoop utf8 sizing len src.length src 0 (states.caller.getD {})
    ⟨r.result, [], some src, states⟩
  else
    let r := mbsrtowcsLoop utf8 sizing len src.length src 0 (selectState states)
    ⟨r.result, r.stored, r.src, states.store r.state⟩

/-- The loop of `wcsrtombs`. -/
def wcsrtombsLoop (utf8 sizing : Bool) (len : Nat) :
    (cursor : List Int) → (count : Nat) → MbState → StringConverted Int UInt8 MbState
  | [], count, state => ⟨.length count, [], some [], state⟩
  | wc :: rest, count, state =>
    match wcrtombMode wc state utf8 with
    | (none, state) => ⟨.eilseq, [], some (wc :: rest), state⟩
    | (some encoded, state) =>
      if wc = 0 then
        if !sizing ∧ count ≥ len then ⟨.length count, [], some (wc :: rest), state⟩
        else ⟨.length count, [0], none, state⟩
      else if !sizing ∧ encoded.length > len - count then ⟨.length count, [], some (wc :: rest), state⟩
      else
        let r := wcsrtombsLoop utf8 sizing len rest (count + encoded.length) state
        { r with stored := encoded ++ r.stored }

/-- `wcsrtombs`; its own state is `mini_wcr_state`. -/
def wcsrtombs (utf8 sizing : Bool) (src : List Int) (len : Nat) (states : States) :
    StringConverted Int UInt8 States :=
  if sizing then
    let r := wcsrtombsLoop utf8 sizing len src 0 (states.caller.getD {})
    ⟨r.result, [], some src, states⟩
  else
    let r := wcsrtombsLoop utf8 sizing len src 0 (selectState states)
    ⟨r.result, r.stored, r.src, states.store r.state⟩

/-- `mbstowcs` with a destination: its result and what it stores. -/
def mbstowcs (utf8 : Bool) (src : List UInt8) (len : Nat) : Converted × List Int :=
  let r := mbsrtowcs utf8 false src len ⟨{}, some {}⟩
  (r.result, r.stored)

/-- `wcstombs` with a destination. -/
def wcstombs (utf8 : Bool) (src : List Int) (len : Nat) : Converted × List UInt8 :=
  let r := wcsrtombs utf8 false src len ⟨{}, some {}⟩
  (r.result, r.stored)

/-- A string: its first zero is its last element. -/
def Terminated {α : Type} [Zero α] (src : List α) : Prop := ∃ s, src = s ++ [0] ∧ 0 ∉ s

/-! ## Room -/

/-- With room for everything a bounded run is the sizing run. -/
theorem mbsrtowcsLoop_room {utf8 : Bool} {len : Nat} (len' : Nat) {fuel : Nat} {cursor : List UInt8} {count : Nat}
    (h : count + cursor.length < len) (state : MbState) :
    mbsrtowcsLoop utf8 false len fuel cursor count state = mbsrtowcsLoop utf8 true len' fuel cursor count state := by
  induction fuel generalizing cursor count state with
  | zero => rfl
  | succ fuel ih =>
    unfold mbsrtowcsLoop
    have hroom : ¬ ((!false) = true ∧ count ≥ len) := fun hf => by omega
    have hsizing : ¬ ((!true) = true ∧ count ≥ len') := fun hf => Bool.false_ne_true hf.1
    rw [if_neg hroom, if_neg hsizing]
    dsimp only
    split
    · rfl
    · rfl
    · rfl
    · rename_i n hn
      cases cursor with
      | nil =>
        -- There is nothing to decode.
        cases utf8 <;> cases hn
      | cons b rest =>
        rw [ih]
        rw [List.length_drop, List.length_cons]
        rw [List.length_cons] at h
        omega

theorem wcsrtombsLoop_room {utf8 : Bool} {len : Nat} (len' : Nat) {cursor : List Int} {count : Nat}
    (h : count + 4 * cursor.length < len) (state : MbState) :
    wcsrtombsLoop utf8 false len cursor count state = wcsrtombsLoop utf8 true len' cursor count state := by
  induction cursor generalizing count state with
  | nil => rfl
  | cons wc rest ih =>
    rw [List.length_cons] at h
    unfold wcsrtombsLoop wcrtombMode
    cases he : encodeValue wc utf8 with
    | none => rfl
    | some encoded =>
      dsimp only
      have hlen := (feeds_encode he).2
      by_cases h0 : wc = 0
      · have hroom : ¬ ((!false) = true ∧ count ≥ len) := fun hf => by omega
        have hsizing : ¬ ((!true) = true ∧ count ≥ len') := fun hf => Bool.false_ne_true hf.1
        rw [if_pos h0, if_pos h0, if_neg hroom, if_neg hsizing]
      · have hroom : ¬ ((!false) = true ∧ encoded.length > len - count) := fun hf => by omega
        have hsizing : ¬ ((!true) = true ∧ encoded.length > len' - count) := fun hf => Bool.false_ne_true hf.1
        rw [if_neg h0, if_neg h0, if_neg hroom, if_neg hsizing, ih (by omega)]

end MiniLibc.Wchar
