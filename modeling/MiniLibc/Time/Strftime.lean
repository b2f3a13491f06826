import Mathlib
import MiniLibc.Lib.Memory
import MiniLibc.Time.IsoWeek
/-!
# strftime

Every conversion writes through one bounded writer, in pieces, and the composite
ones go through the others. A piece is a fold of `writerChar`, so what a call
does is known from the text that it would write.
-/

namespace MiniLibc.Time

open Checked Gregorian Memory

/-! ## The source -/

def ascii (s : String) : List UInt8 := s.toList.map Char.toUInt8

def weekdayShort : List String := ["Sun", "Mon", "Tue", "Wed", "Thu", "Fri", "Sat"]

def weekdayLong : List String := ["Sunday", "Monday", "Tuesday", "Wednesday", "Thursday", "Friday", "Saturday"]

def monthShort : List String := ["Jan", "Feb", "Mar", "Apr", "May", "Jun", "Jul", "Aug", "Sep", "Oct", "Nov", "Dec"]

def monthLong : List String :=
  ["January", "February", "March", "April", "May", "June", "July", "August", "September", "October", "November",
    "December"]

/-- An entry of a table, `none` outside of it. -/
def entry (table : List String) (index : Int) : Option (List UInt8) :=
  if index < 0 then none else table[index.toNat]?.map ascii

/-- The conversion to `unsigned int`. -/
def unsigned (v : Int) : Nat := (v % 4294967296).toNat

def validTextTm (tm : Tm) : Bool :=
  decide ((0 ≤ tm.tmSec.toInt ∧ tm.tmSec.toInt ≤ 60) ∧ (0 ≤ tm.tmMin.toInt ∧ tm.tmMin.toInt ≤ 59) ∧
    (0 ≤ tm.tmHour.toInt ∧ tm.tmHour.toInt ≤ 23) ∧ (1 ≤ tm.tmMday.toInt ∧ tm.tmMday.toInt ≤ 31) ∧
    (0 ≤ tm.tmMon.toInt ∧ tm.tmMon.toInt ≤ 11) ∧ (0 ≤ tm.tmWday.toInt ∧ tm.tmWday.toInt ≤ 6) ∧
    (0 ≤ tm.tmYday.toInt ∧ tm.tmYday.toInt ≤ 365) ∧
    0 ≤ tm.tmYear.toInt + 1900 ∧ tm.tmYear.toInt + 1900 ≤ 9999)

/-- The memory at the buffer pointer, by the offset from it. -/
structure TimeWriter where
  buffer : Mem
  null : Bool
  capacity : Nat
  length : Nat
  failed : Nat

def writerFinish (w : TimeWriter) : TimeWriter :=
  if w.capacity ≠ 0 ∧ ¬w.null then
    { w with buffer := poke w.buffer (if w.length < w.capacity then w.length else w.capacity - 1) 0 }
  else w

def writerChar (w : TimeWriter) (value : UInt8) : TimeWriter :=
  if w.failed ≠ 0 then w
  else if w.capacity = 0 ∨ w.length ≥ w.capacity - 1 then { w with failed := 1 }
  else { w with buffer := poke (poke w.buffer w.length value) (w.length + 1) 0, length := w.length + 1 }

def writerText (w : TimeWriter) : List UInt8 → TimeWriter
  | [] => w
  | c :: text => if w.failed ≠ 0 then w else writerText (writerChar w c) text

/-- The digits of `writer_unsigned`, the lowest first. -/
def reverseDigits (value : Nat) : List UInt8 :=
  if _h : value / 10 ≠ 0 then ('0'.toUInt8 + .ofNat (value % 10)) :: reverseDigits (value / 10)
  else ['0'.toUInt8 + .ofNat (value % 10)]
termination_by value
decreasing_by omega

/-- The loop over the padding. -/
def writerPad (w : TimeWriter) (pad : UInt8) : Nat → TimeWriter
  | 0 => w
  | n + 1 => writerPad (writerChar w pad) pad n

def writerUnsigned (w : TimeWriter) (value minimum : Nat) (pad : UInt8) : TimeWriter :=
  let reverse := reverseDigits value
  reverse.reverse.foldl writerChar (writerPad w pad (minimum - reverse.length))

/-- The conversions of the switch, named by their letters. -/
inductive Code where
  | percent | a | A | b | h | B | C | d | e | H | I | j | m | M | n | p | S | t | u | U | V | w | W | y | Y | g | G
  | z | Z | D | F | R | T | r | x | X | c
deriving DecidableEq

def Code.ofByte (byte : UInt8) : Option Code :=
  match Char.ofNat byte.toNat with
  | '%' => some percent | 'a' => some a | 'A' => some A | 'b' => some b | 'h' => some h | 'B' => some B
  | 'C' => some C | 'd' => some d | 'e' => some e | 'H' => some H | 'I' => some I | 'j' => some j
  | 'm' => some m | 'M' => some M | 'n' => some n | 'p' => some p | 'S' => some S | 't' => some t
  | 'u' => some u | 'U' => some U | 'V' => some V | 'w' => some w | 'W' => some W | 'y' => some y
  | 'Y' => some Y | 'g' => some g | 'G' => some G | 'z' => some z | 'Z' => some Z | 'D' => some D
  | 'F' => some F | 'R' => some R | 'T' => some T | 'r' => some r | 'x' => some x | 'X' => some X
  | 'c' => some c | _ => none

/-- How deep the composite conversions go. -/
def Code.depth : Code → Nat
  | c | x | X => 2
  | D | F | R | T | r => 1
  | _ => 0

/-- The switch over the accepted conversions. -/
def writerFormat (w : TimeWriter) (code : Code) (tm : Tm) : Option TimeWriter :=
  let year := tm.tmYear.toInt + 1900
  let two := fun v : Int => some (writerUnsigned w (unsigned v) 2 '0'.toUInt8)
  match code with
  | .percent => some (writerChar w '%'.toUInt8)
  | .a => (entry weekdayShort tm.tmWday.toInt).map (writerText w)
  | .A => (entry weekdayLong tm.tmWday.toInt).map (writerText w)
  | .b | .h => (entry monthShort tm.tmMon.toInt).map (writerText w)
  | .B => (entry monthLong tm.tmMon.toInt).map (writerText w)
  | .C => two (year.tdiv 100)
  | .d => two tm.tmMday.toInt
  | .e => some (writerUnsigned w (unsigned tm.tmMday.toInt) 2 ' '.toUInt8)
  | .H => two tm.tmHour.toInt
  | .I => two (if tm.tmHour.toInt.tmod 12 = 0 then 12 else tm.tmHour.toInt.tmod 12)
  | .j => some (writerUnsigned w (unsigned (tm.tmYday.toInt + 1)) 3 '0'.toUInt8)
  | .m => two (tm.tmMon.toInt + 1)
  | .M => two tm.tmMin.toInt
  | .n => some (writerChar w '\n'.toUInt8)
  | .p => some (writerText w (ascii (if tm.tmHour.toInt < 12 then "AM" else "PM")))
  | .S => two tm.tmSec.toInt
  | .t => some (writerChar w '\t'.toUInt8)
  | .u => some (writerUnsigned w (unsigned (if tm.tmWday.toInt = 0 then 7 else tm.tmWday.toInt)) 1 '0'.toUInt8)
  | .U => some (writerUnsigned w (unsigned (tm.tmYday.toInt + 7 - tm.tmWday.toInt) / 7) 2 '0'.toUInt8)
  | .V => (isoWeekFields tm).bind fun fields => two fields.2
  | .w => some (writerUnsigned w (unsigned tm.tmWday.toInt) 1 '0'.toUInt8)
  | .W =>
    let monWday := (tm.tmWday.toInt + 6).tmod 7
    some (writerUnsigned w (unsigned (tm.tmYday.toInt + 7 - monWday) / 7) 2 '0'.toUInt8)
  | .y => two (year.tmod 100)
  | .Y => some (writerUnsigned w (unsigned year) 4 '0'.toUInt8)
  | .g => (isoWeekFields tm).bind fun fields =>
      if fields.1 < 0 ∨ fields.1 > 9999 then some { w with failed := 2 } else two (fields.1.tmod 100)
  | .G => (isoWeekFields tm).bind fun fields =>
      if fields.1 < 0 ∨ fields.1 > 9999 then some { w with failed := 2 }
      else some (writerUnsigned w (unsigned fields.1) 4 '0'.toUInt8)
  | .z => some (writerText w (ascii "+0000"))
  | .Z => some (writerText w (ascii "UTC"))
  | .D => do
    let w ← writerFormat w .m tm
    let w ← writerFormat (writerChar w '/'.toUInt8) .d tm
    writerFormat (writerChar w '/'.toUInt8) .y tm
  | .F => do
    let w ← writerFormat w .Y tm
    let w ← writerFormat (writerChar w '-'.toUInt8) .m tm
    writerFormat (writerChar w '-'.toUInt8) .d tm
  | .R => do
    let w ← writerFormat w .H tm
    writerFormat (writerChar w ':'.toUInt8) .M tm
  | .T => do
    let w ← writerFormat w .H tm
    let w ← writerFormat (writerChar w ':'.toUInt8) .M tm
    writerFormat (writerChar w ':'.toUInt8) .S tm
  | .r => do
    let w ← writerFormat w .I tm
    let w ← writerFormat (writerChar w ':'.toUInt8) .M tm
    let w ← writerFormat (writerChar w ':'.toUInt8) .S tm
    writerFormat (writerChar w ' '.toUInt8) .p tm
  | .x => writerFormat w .D tm
  | .X => writerFormat w .T tm
  | .c => do
    let w ← writerFormat w .a tm
    let w ← writerFormat (writerChar w ' '.toUInt8) .b tm
    let w ← writerFormat (writerChar w ' '.toUInt8) .e tm
    let w ← writerFormat (writerChar w ' '.toUInt8) .T tm
    writerFormat (writerChar w ' '.toUInt8) .Y tm
termination_by code.depth
decreasing_by all_goals decide

def writerFormatCode (w : TimeWriter) (code : UInt8) (tm : Tm) : Option TimeWriter :=
  match Code.ofByte code with
  | some code => writerFormat w code tm
  | none => some { w with failed := 2 }

/-- The cursor behind an alternative form, which changes nothing. -/
def skipModifier : List UInt8 → List UInt8
  | [] => []
  | c :: rest => if c = 'E'.toUInt8 ∨ c = 'O'.toUInt8 then rest else c :: rest

theorem skipModifier_length (format : List UInt8) : (skipModifier format).length ≤ format.length := by
  cases format with
  | nil => exact Nat.le_refl _
  | cons c rest =>
    rw [skipModifier]
    by_cases h : c = 'E'.toUInt8 ∨ c = 'O'.toUInt8
    · rw [if_pos h]
      exact Nat.le_succ _
    · rw [if_neg h]

def strftimeLoop (tm : Tm) (format : List UInt8) (w : TimeWriter) : Option TimeWriter :=
  match format with
  | [] => some w
  | c :: rest =>
    if w.failed ≠ 0 then some w
    else if c ≠ '%'.toUInt8 then strftimeLoop tm rest (writerChar w c)
    else
      match _h : skipModifier rest with
      | [] => some { w with failed := 2 }
      | code :: rest' => (writerFormatCode w code tm).bind (strftimeLoop tm rest')
termination_by format.length
decreasing_by
  · simp
  · have := skipModifier_length rest
    rw [_h] at this
    simp only [List.length_cons] at this ⊢
    omega

/-- The result, the memory at the buffer and `errno`. The format is given by the
characters before its terminator, and a pointer is `none` when it is null. -/
def strftime (s : Option Mem) (maxsize : Nat) (format : Option (List UInt8)) (timeptr : Option Tm) (errno : Nat) :
    Option (Nat × Option Mem × Nat) :=
  match format, timeptr with
  | some format, some tm =>
    if (maxsize ≠ 0 ∧ s.isNone) ∨ ¬validTextTm tm then some (0, s, einval)
    else do
      let buffer := s.getD fun _ => 0
      let start : Mem := if maxsize ≠ 0 then poke buffer 0 0 else buffer
      let w ← strftimeLoop tm format ⟨start, s.isNone, maxsize, 0, 0⟩
      let w := writerFinish w
      let memory := s.map fun _ => w.buffer
      if w.failed ≠ 0 then some (0, memory, if w.failed = 2 then einval else errno)
      else some (w.length, memory, errno)
  | _, _ => some (0, s, einval)

/-! ## The expansion -/

/-- A number in decimal. -/
def decimal (value : Nat) : List UInt8 :=
  if value = 0 then ['0'.toUInt8] else (Nat.digits 10 value).reverse.map fun digit => '0'.toUInt8 + .ofNat digit

def padded (pad : Char) (width : Nat) (value : Int) : List UInt8 :=
  List.replicate (width - (decimal value.toNat).length) pad.toUInt8 ++ decimal value.toNat

/-- What a conversion stands for that is not composite; `none` where it is refused. -/
def simpleText (tm : Tm) : Code → Option (List UInt8)
  | .percent => some (ascii "%")
  | .a => entry weekdayShort tm.tmWday.toInt
  | .A => entry weekdayLong tm.tmWday.toInt
  | .b | .h => entry monthShort tm.tmMon.toInt
  | .B => entry monthLong tm.tmMon.toInt
  | .C => some (padded '0' 2 ((tm.tmYear.toInt + 1900) / 100))
  | .d => some (padded '0' 2 tm.tmMday.toInt)
  | .e => some (padded ' ' 2 tm.tmMday.toInt)
  | .H => some (padded '0' 2 tm.tmHour.toInt)
  | .I => some (padded '0' 2 (if tm.tmHour.toInt % 12 = 0 then 12 else tm.tmHour.toInt % 12))
  | .j => some (padded '0' 3 (tm.tmYday.toInt + 1))
  | .m => some (padded '0' 2 (tm.tmMon.toInt + 1))
  | .M => some (padded '0' 2 tm.tmMin.toInt)
  | .n => some (ascii "\n")
  | .p => some (ascii (if tm.tmHour.toInt < 12 then "AM" else "PM"))
  | .S => some (padded '0' 2 tm.tmSec.toInt)
  | .t => some (ascii "\t")
  | .u => some (padded '0' 1 (if tm.tmWday.toInt = 0 then 7 else tm.tmWday.toInt))
  | .U => some (padded '0' 2 ((tm.tmYday.toInt + 7 - tm.tmWday.toInt) / 7))
  | .V => (isoWeekFields tm).map fun fields => padded '0' 2 fields.2
  | .w => some (padded '0' 1 tm.tmWday.toInt)
  | .W => some (padded '0' 2 ((tm.tmYday.toInt + 7 - (tm.tmWday.toInt + 6) % 7) / 7))
  | .y => some (padded '0' 2 ((tm.tmYear.toInt + 1900) % 100))
  | .Y => some (padded '0' 4 (tm.tmYear.toInt + 1900))
  | .g => (isoWeekFields tm).bind fun fields =>
      if 0 ≤ fields.1 ∧ fields.1 ≤ 9999 then some (padded '0' 2 (fields.1 % 100)) else none
  | .G => (isoWeekFields tm).bind fun fields =>
      if 0 ≤ fields.1 ∧ fields.1 ≤ 9999 then some (padded '0' 4 fields.1) else none
  | .z => some (ascii "+0000")
  | .Z => some (ascii "UTC")
  | .D | .F | .R | .T | .r | .x | .X | .c => none

/-- A piece of a composite conversion. -/
inductive Piece where
  | code (code : Code)
  | char (char : Char)

open Piece in
/-- The pieces of a composite conversion. -/
def pieces : Code → List Piece
  | .D | .x => [code .m, char '/', code .d, char '/', code .y]
  | .F => [code .Y, char '-', code .m, char '-', code .d]
  | .R => [code .H, char ':', code .M]
  | .T | .X => [code .H, char ':', code .M, char ':', code .S]
  | .r => [code .I, char ':', code .M, char ':', code .S, char ' ', code .p]
  | .c => [code .a, char ' ', code .b, char ' ', code .e, char ' ', code .H, char ':', code .M, char ':', code .S,
      char ' ', code .Y]
  | _ => []

/-- The texts one after the other, if all of them are there. -/
def joined : List (Option (List UInt8)) → Option (List UInt8)
  | [] => some []
  | text :: texts => text.bind fun t => (joined texts).map fun ts => t ++ ts

def pieceText (tm : Tm) : Piece → Option (List UInt8)
  | .code code => simpleText tm code
  | .char char => some [char.toUInt8]

def codeText (tm : Tm) (code : Code) : Option (List UInt8) :=
  if code.depth = 0 then simpleText tm code else joined ((pieces code).map (pieceText tm))

/-- The expansion of a format; `none` where a conversion is refused or cut off. -/
def expansion (tm : Tm) (format : List UInt8) : Option (List UInt8) :=
  match format with
  | [] => some []
  | c :: rest =>
    if c ≠ '%'.toUInt8 then (expansion tm rest).map (c :: ·)
    else
      match _h : skipModifier rest with
      | [] => none
      | code :: rest' => ((Code.ofByte code).bind (codeText tm)).bind fun text => (expansion tm rest').map (text ++ ·)
termination_by format.length
decreasing_by
  · simp
  · have := skipModifier_length rest
    rw [_h] at this
    simp only [List.length_cons] at this ⊢
    omega

/-! ## Pieces as folds -/

/-- The writer after a text. -/
def put (w : TimeWriter) (text : List UInt8) : TimeWriter := text.foldl writerChar w

@[simp] theorem put_cons (w : TimeWriter) (c : UInt8) (text : List UInt8) :
    put w (c :: text) = put (writerChar w c) text := rfl

theorem put_append (w : TimeWriter) (text text' : List UInt8) : put w (text ++ text') = put (put w text) text' :=
  List.foldl_append

theorem put_failed {w : TimeWriter} (h : w.failed ≠ 0) (text : List UInt8) : put w text = w := by
  induction text with
  | nil => rfl
  | cons c text ih => rw [put_cons, writerChar, if_pos h, ih]

theorem writerText_put (w : TimeWriter) (text : List UInt8) : writerText w text = put w text := by
  induction text generalizing w with
  | nil => rfl
  | cons c text ih =>
    rw [writerText, ih]
    by_cases h : w.failed ≠ 0
    · rw [if_pos h, put_failed h]
    · rw [if_neg h, put_cons]

theorem writerPad_put (w : TimeWriter) (pad : UInt8) (n : Nat) : writerPad w pad n = put w (List.replicate n pad) := by
  induction n generalizing w with
  | zero => rfl
  | succ n ih => rw [writerPad, ih, List.replicate_succ, put_cons]

/-- The digits come out of the loop with the lowest one first. -/
theorem reverseDigits_decimal (value : Nat) : (reverseDigits value).reverse = decimal value := by
  have hdigits : ∀ v, v ≠ 0 → reverseDigits v = (Nat.digits 10 v).map fun d => '0'.toUInt8 + .ofNat d := by
    intro v
    induction v using reverseDigits.induct with
    | case1 v h ih =>
      intro hv
      rw [reverseDigits, dif_pos h, ih h, Nat.digits_def' (by omega) (Nat.pos_of_ne_zero hv), List.map_cons]
    | case2 v h =>
      intro hv
      rw [reverseDigits, dif_neg h, Nat.digits_def' (by omega) (by omega), not_not.1 h, Nat.digits_zero, List.map_cons,
        List.map_nil]
  by_cases hv : value = 0
  · subst hv
    rw [reverseDigits, dif_neg (by omega)]
    decide
  · rw [hdigits value hv, decimal, if_neg hv, List.map_reverse]

theorem writerUnsigned_put (w : TimeWriter) {v : Int} (h : 0 ≤ v ∧ v < 4294967296) (minimum : Nat) (pad : Char) :
    writerUnsigned w (unsigned v) minimum pad.toUInt8 = put w (padded pad minimum v) := by
  have hv : unsigned v = v.toNat := by
    unfold unsigned
    rw [Int.emod_eq_of_lt h.1 h.2]
  unfold writerUnsigned padded
  dsimp only
  rw [writerPad_put, put_append, reverseDigits_decimal, ← List.length_reverse, reverseDigits_decimal, hv]
  rfl

theorem unsigned_div {v : Int} (h : 0 ≤ v ∧ v < 4294967296) : unsigned v / 7 = unsigned (v / 7) := by
  unfold unsigned
  omega

/-! ## A conversion -/

/-- The week date of fields that pass the range check. -/
theorem isoWeekFields_total {tm : Tm} (h : validTextTm tm = true) :
    ∃ (y w : Int), isoWeekFields tm = some (y, w) ∧ 0 ≤ w ∧ w < 100 := by
  obtain ⟨-, -, -, -, -, hwday, hyday, hyear⟩ := of_decide_eq_true h
  obtain ⟨first, hweeks, -, hlow, hhigh⟩ := @isoWeeksInYear_eq (tm.tmYear.toInt + 1900) (by omega)
  obtain ⟨first', hweeks', -, hlow', hhigh'⟩ := @isoWeeksInYear_eq (tm.tmYear.toInt + 1900 - 1) (by omega)
  have hlength := yearStart_succ (tm.tmYear.toInt + 1900)
  have hbounds := yearLength_bounds (tm.tmYear.toInt + 1900)
  have hlength' := yearStart_succ (tm.tmYear.toInt + 1900 - 1)
  have hbounds' := yearLength_bounds (tm.tmYear.toInt + 1900 - 1)
  have hisoWday : 1 ≤ (if tm.tmWday.toInt = 0 then (7 : Int) else tm.tmWday.toInt) ∧
      (if tm.tmWday.toInt = 0 then (7 : Int) else tm.tmWday.toInt) ≤ 7 := by split <;> omega
  unfold isoWeekFields
  generalize (if tm.tmWday.toInt = 0 then (7 : Int) else tm.tmWday.toInt) = isoWday at hisoWday ⊢
  rw [i32_bind (by omega), i32_bind (by omega), i32_bind (by omega), i32_bind (by omega),
    Int.tdiv_eq_ediv_of_nonneg (by omega)]
  dsimp only
  by_cases hfirst : (tm.tmYday.toInt + 1 - isoWday + 10) / 7 < 1
  · rw [if_pos hfirst, i32_bind (by omega), bind_of_eq hweeks']
    exact ⟨_, _, rfl, by omega, by omega⟩
  · rw [if_neg hfirst, bind_of_eq hweeks]
    split
    · rw [i32_bind (by omega)]
      exact ⟨_, _, rfl, by omega, by omega⟩
    · exact ⟨_, _, rfl, by omega, by omega⟩

/-- The writer after a conversion, from its text. -/
def convert (w : TimeWriter) : Option (List UInt8) → TimeWriter
  | some text => put w text
  | none => { w with failed := 2 }

theorem entry_some {table : List String} {index : Int} (h : 0 ≤ index ∧ index < table.length) :
    ∃ text, entry table index = some text := by
  unfold entry
  rw [if_neg (by omega), List.getElem?_eq_getElem (by omega)]
  exact ⟨_, rfl⟩

theorem entry_writerText {table : List String} {index : Int} (w : TimeWriter) (h : 0 ≤ index ∧ index < table.length) :
    (entry table index).map (writerText w) = some (convert w (entry table index)) := by
  obtain ⟨text, htext⟩ := entry_some h
  rw [htext]
  exact congrArg some (writerText_put w text)

theorem writerUnsigned_convert (w : TimeWriter) {v : Int} (h : 0 ≤ v ∧ v < 4294967296) (minimum : Nat) (pad : Char) :
    some (writerUnsigned w (unsigned v) minimum pad.toUInt8) = some (convert w (some (padded pad minimum v))) :=
  congrArg some (writerUnsigned_put w h minimum pad)

theorem writerFormat_simple {tm : Tm} (h : validTextTm tm = true) (w : TimeWriter) {code : Code} (hc : code.depth = 0) :
    writerFormat w code tm = some (convert w (simpleText tm code)) := by
  obtain ⟨y, week, hfields, hlow, hhigh⟩ := isoWeekFields_total h
  obtain ⟨hsec, hmin, hhour, hmday, hmon, hwday, hyday, hyear⟩ := of_decide_eq_true h
  cases code <;> try cases hc
  all_goals rw [writerFormat, simpleText]
  case percent => rfl
  case a => exact entry_writerText w (by simp [weekdayShort]; omega)
  case A => exact entry_writerText w (by simp [weekdayLong]; omega)
  case b => exact entry_writerText w (by simp [monthShort]; omega)
  case h => exact entry_writerText w (by simp [monthShort]; omega)
  case B => exact entry_writerText w (by simp [monthLong]; omega)
  case C =>
    rw [Int.tdiv_eq_ediv_of_nonneg (by omega)]
    exact writerUnsigned_convert w (by omega) 2 '0'
  case d => exact writerUnsigned_convert w (by omega) 2 '0'
  case e => exact writerUnsigned_convert w (by omega) 2 ' '
  case H => exact writerUnsigned_convert w (by omega) 2 '0'
  case I =>
    rw [Int.tmod_eq_emod_of_nonneg (by omega)]
    exact writerUnsigned_convert w (by split <;> omega) 2 '0'
  case j => exact writerUnsigned_convert w (by omega) 3 '0'
  case m => exact writerUnsigned_convert w (by omega) 2 '0'
  case M => exact writerUnsigned_convert w (by omega) 2 '0'
  case n => rfl
  case p => exact congrArg some (writerText_put w _)
  case S => exact writerUnsigned_convert w (by omega) 2 '0'
  case t => rfl
  case u => exact writerUnsigned_convert w (by split <;> omega) 1 '0'
  case U =>
    rw [unsigned_div (by omega)]
    exact writerUnsigned_convert w (by omega) 2 '0'
  case V =>
    rw [hfields]
    exact writerUnsigned_convert w ⟨hlow, by omega⟩ 2 '0'
  case w => exact writerUnsigned_convert w (by omega) 1 '0'
  case W =>
    rw [Int.tmod_eq_emod_of_nonneg (by omega), unsigned_div (by omega)]
    exact writerUnsigned_convert w (by omega) 2 '0'
  case y =>
    rw [Int.tmod_eq_emod_of_nonneg (by omega)]
    exact writerUnsigned_convert w (by omega) 2 '0'
  case Y => exact writerUnsigned_convert w (by omega) 4 '0'
  case g =>
    rw [hfields, Option.bind_some, Option.bind_some]
    dsimp only
    by_cases hrange : 0 ≤ y ∧ y ≤ 9999
    · rw [if_neg (by omega), if_pos hrange, Int.tmod_eq_emod_of_nonneg hrange.1]
      exact writerUnsigned_convert w (by omega) 2 '0'
    · rw [if_pos (by omega), if_neg hrange]
      rfl
  case G =>
    rw [hfields, Option.bind_some, Option.bind_some]
    dsimp only
    by_cases hrange : 0 ≤ y ∧ y ≤ 9999
    · rw [if_neg (by omega), if_pos hrange]
      exact writerUnsigned_convert w (by omega) 4 '0'
    · rw [if_pos (by omega), if_neg hrange]
      rfl
  case z => exact congrArg some (writerText_put w _)
  case Z => exact congrArg some (writerText_put w _)

/-- The conversions that the composite ones are made of are never refused. -/
theorem simpleText_piece {tm : Tm} (h : validTextTm tm = true) {code : Code} (hc : code.depth = 0)
    (hg : code ≠ .g) (hG : code ≠ .G) : ∃ text, simpleText tm code = some text := by
  obtain ⟨y, week, hfields, -⟩ := isoWeekFields_total h
  obtain ⟨hsec, hmin, hhour, hmday, hmon, hwday, hyday, hyear⟩ := of_decide_eq_true h
  cases code <;> try cases hc
  case g => exact absurd rfl hg
  case G => exact absurd rfl hG
  case a => exact entry_some (by simp [weekdayShort]; omega)
  case A => exact entry_some (by simp [weekdayLong]; omega)
  case b => exact entry_some (by simp [monthShort]; omega)
  case h => exact entry_some (by simp [monthShort]; omega)
  case B => exact entry_some (by simp [monthLong]; omega)
  case V => exact ⟨_, by rw [simpleText, hfields]; rfl⟩
  all_goals exact ⟨_, rfl⟩

/-- The pieces one after the other. -/
def writePieces (tm : Tm) : TimeWriter → List Piece → Option TimeWriter
  | w, [] => some w
  | w, .char char :: rest => writePieces tm (writerChar w char.toUInt8) rest
  | w, .code code :: rest => (writerFormat w code tm).bind fun w => writePieces tm w rest

/-- The pieces write their texts, and none of them is refused. -/
theorem writePieces_put {tm : Tm} (h : validTextTm tm = true) (rest : List Piece)
    (hrest : ∀ code, Piece.code code ∈ rest → code.depth = 0 ∧ code ≠ .g ∧ code ≠ .G) :
    ∃ text, joined (rest.map (pieceText tm)) = some text ∧ ∀ w, writePieces tm w rest = some (put w text) := by
  induction rest with
  | nil => exact ⟨[], rfl, fun _ => rfl⟩
  | cons piece rest ih =>
    obtain ⟨text, hjoined, hwrite⟩ := ih fun code hcode => hrest code (List.mem_cons_of_mem _ hcode)
    rw [List.map_cons, joined, hjoined]
    cases piece with
    | char char =>
      refine ⟨char.toUInt8 :: text, rfl, fun w => ?_⟩
      rw [writePieces, hwrite, put_cons]
    | code code =>
      obtain ⟨hdepth, hg, hG⟩ := hrest code List.mem_cons_self
      obtain ⟨piece, hpiece⟩ := simpleText_piece h hdepth hg hG
      refine ⟨piece ++ text, by rw [pieceText, hpiece]; rfl, fun w => ?_⟩
      rw [writePieces, writerFormat_simple h w hdepth, hpiece, Option.bind_some, hwrite, put_append]
      rfl

/-- A composite conversion writes the texts of its pieces, one after the other. -/
theorem writerFormat_pieces {tm : Tm} (h : validTextTm tm = true) {code : Code} (hc : code.depth ≠ 0) :
    ∃ text, joined ((pieces code).map (pieceText tm)) = some text ∧ ∀ w, writerFormat w code tm = some (put w text) := by
  have hpieces : ∀ w, writerFormat w code tm = writePieces tm w (pieces code) := by
    intro w
    cases code <;> try exact absurd rfl hc
    all_goals simp [writerFormat, pieces, writePieces]
  obtain ⟨text, hjoined, hwrite⟩ := writePieces_put h (pieces code) (by cases code <;> simp [pieces, Code.depth])
  exact ⟨text, hjoined, fun w => (hpieces w).trans (hwrite w)⟩

theorem writerFormat_eq {tm : Tm} (h : validTextTm tm = true) (w : TimeWriter) (code : Code) :
    writerFormat w code tm = some (convert w (codeText tm code)) := by
  by_cases hc : code.depth = 0
  · rw [writerFormat_simple h w hc, codeText, if_pos hc]
  · obtain ⟨text, hjoined, hwrite⟩ := writerFormat_pieces h hc
    rw [hwrite, codeText, if_neg hc, hjoined]
    rfl

theorem writerFormatCode_eq {tm : Tm} (h : validTextTm tm = true) (w : TimeWriter) (code : UInt8) :
    writerFormatCode w code tm = some (convert w ((Code.ofByte code).bind (codeText tm))) := by
  unfold writerFormatCode
  cases Code.ofByte code with
  | none => rfl
  | some code => exact writerFormat_eq h w code

/-! ## All or nothing -/

/-- The writer holds a text and its terminator, and wrote nothing behind the buffer. -/
structure Holds (buffer : Mem) (maxsize : Nat) (w : TimeWriter) (text : List UInt8) : Prop where
  capacity : w.capacity = maxsize
  null : w.null = false
  failed : w.failed = 0
  length : w.length = text.length
  room : text.length + 1 ≤ maxsize
  content : bytesAt w.buffer 0 text.length = text
  terminator : w.buffer text.length = 0
  frame : ∀ i, maxsize ≤ i → w.buffer i = buffer i

/-- The call will return zero: the writer has given up, or has no room at all. -/
structure GaveUp (buffer : Mem) (maxsize : Nat) (w : TimeWriter) : Prop where
  capacity : w.capacity = maxsize
  null : w.null = false
  failed : w.failed ≠ 0 ∨ (maxsize = 0 ∧ w.length = 0)
  frame : ∀ i, maxsize ≤ i → w.buffer i = buffer i

/-- The writer has taken a text, or has given up because it does not fit. -/
def Took (buffer : Mem) (maxsize : Nat) (w : TimeWriter) (text : List UInt8) : Prop :=
  Holds buffer maxsize w text ∨ (maxsize < text.length + 1 ∧ GaveUp buffer maxsize w)

theorem GaveUp.char {buffer : Mem} {maxsize : Nat} {w : TimeWriter} (h : GaveUp buffer maxsize w) (c : UInt8) :
    GaveUp buffer maxsize (writerChar w c) := by
  unfold writerChar
  by_cases hfailed : w.failed ≠ 0
  · rwa [if_pos hfailed]
  · obtain ⟨hzero, -⟩ := h.failed.resolve_left hfailed
    rw [if_neg hfailed, if_pos (.inl (h.capacity.trans hzero))]
    exact ⟨h.capacity, h.null, .inl Nat.one_ne_zero, h.frame⟩

theorem Holds.char {buffer : Mem} {maxsize : Nat} {w : TimeWriter} {text : List UInt8}
    (h : Holds buffer maxsize w text) (c : UInt8) : Took buffer maxsize (writerChar w c) (text ++ [c]) := by
  obtain ⟨hcapacity, hnull, hfailed, hlength, hroom, hcontent, hterminator, hframe⟩ := h
  have hsize : (text ++ [c]).length = text.length + 1 := by simp
  unfold Took writerChar
  rw [if_neg (not_not.2 hfailed), hsize]
  by_cases hfull : w.capacity = 0 ∨ w.length ≥ w.capacity - 1
  · right
    rw [if_pos hfull]
    exact ⟨by omega, hcapacity, hnull, .inl Nat.one_ne_zero, hframe⟩
  · left
    rw [if_neg hfull]
    constructor <;> (try rw [hsize]) <;> (try dsimp only)
    case capacity => exact hcapacity
    case null => exact hnull
    case failed => exact hfailed
    case length => rw [hlength]
    case room => omega
    case content =>
      have hbefore : bytesAt (poke (poke w.buffer w.length c) (w.length + 1) 0) 0 text.length = bytesAt w.buffer 0 text.length := by
        apply bytesAt_congr
        intro i _ hi
        rw [poke_other _ (by omega), poke_other _ (by omega)]
      rw [bytesAt_add, hbefore, hcontent, bytesAt, bytesAt, poke_other _ (by omega), Nat.zero_add, hlength, poke_same]
    case terminator => rw [hlength, poke_same]
    case frame =>
      intro i hi
      rw [poke_other _ (by omega), poke_other _ (by omega), hframe i hi]

theorem Took.char {buffer : Mem} {maxsize : Nat} {w : TimeWriter} {text : List UInt8}
    (h : Took buffer maxsize w text) (c : UInt8) : Took buffer maxsize (writerChar w c) (text ++ [c]) := by
  rcases h with h | ⟨hfull, hup⟩
  · exact h.char c
  · right
    exact ⟨by simp; omega, hup.char c⟩

theorem Took.put {buffer : Mem} {maxsize : Nat} {w : TimeWriter} {text : List UInt8}
    (h : Took buffer maxsize w text) (more : List UInt8) : Took buffer maxsize (put w more) (text ++ more) := by
  induction more generalizing w text with
  | nil => rwa [List.append_nil]
  | cons c more ih =>
    rw [put_cons, List.append_cons]
    exact ih (h.char c)

theorem Took.refuse {buffer : Mem} {maxsize : Nat} {w : TimeWriter} {text : List UInt8}
    (h : Took buffer maxsize w text) : GaveUp buffer maxsize { w with failed := 2 } := by
  rcases h with h | ⟨-, h⟩
  · exact ⟨h.capacity, h.null, .inl (Nat.succ_ne_zero 1), h.frame⟩
  · exact ⟨h.capacity, h.null, .inl (Nat.succ_ne_zero 1), h.frame⟩

/-! ### The loop -/

theorem strftimeLoop_literal (tm : Tm) {c : UInt8} (hc : c ≠ '%'.toUInt8) (rest : List UInt8) (w : TimeWriter) :
    strftimeLoop tm (c :: rest) w = if w.failed ≠ 0 then some w else strftimeLoop tm rest (writerChar w c) := by
  rw [strftimeLoop, if_pos hc]

theorem strftimeLoop_cut (tm : Tm) {rest : List UInt8} (hrest : skipModifier rest = []) (w : TimeWriter) :
    strftimeLoop tm ('%'.toUInt8 :: rest) w = if w.failed ≠ 0 then some w else some { w with failed := 2 } := by
  rw [strftimeLoop, if_neg (not_not.2 rfl)]
  split
  · rfl
  · split
    · rfl
    · rename_i h
      rw [hrest] at h
      cases h

theorem strftimeLoop_code (tm : Tm) {rest rest' : List UInt8} {code : UInt8} (hrest : skipModifier rest = code :: rest')
    (w : TimeWriter) :
    strftimeLoop tm ('%'.toUInt8 :: rest) w =
      if w.failed ≠ 0 then some w else (writerFormatCode w code tm).bind (strftimeLoop tm rest') := by
  rw [strftimeLoop, if_neg (not_not.2 rfl)]
  split
  · rfl
  · split
    · rename_i h
      rw [hrest] at h
      cases h
    · rename_i h
      rw [hrest] at h
      cases h
      rfl

theorem expansion_literal (tm : Tm) {c : UInt8} (hc : c ≠ '%'.toUInt8) (rest : List UInt8) :
    expansion tm (c :: rest) = (expansion tm rest).map (c :: ·) := by
  rw [expansion, if_pos hc]

theorem expansion_cut (tm : Tm) {rest : List UInt8} (hrest : skipModifier rest = []) :
    expansion tm ('%'.toUInt8 :: rest) = none := by
  rw [expansion, if_neg (not_not.2 rfl)]
  split
  · rfl
  · rename_i h
    rw [hrest] at h
    cases h

theorem expansion_code (tm : Tm) {rest rest' : List UInt8} {code : UInt8} (hrest : skipModifier rest = code :: rest') :
    expansion tm ('%'.toUInt8 :: rest) =
      ((Code.ofByte code).bind (codeText tm)).bind fun text => (expansion tm rest').map (text ++ ·) := by
  rw [expansion, if_neg (not_not.2 rfl)]
  split
  · rename_i h
    rw [hrest] at h
    cases h
  · rename_i h
    rw [hrest] at h
    cases h
    rfl

/-- A loop that starts with a failure ends with it. -/
theorem strftimeLoop_failed (tm : Tm) (format : List UInt8) {w : TimeWriter} (h : w.failed ≠ 0) :
    strftimeLoop tm format w = some w := by
  cases format with
  | nil => rw [strftimeLoop]
  | cons c rest => rw [strftimeLoop, if_pos h]

/-- The loop takes the expansion of the format that is left, or gives up. -/
theorem strftimeLoop_spec {tm : Tm} (hvalid : validTextTm tm = true) {buffer : Mem} {maxsize : Nat} (format : List UInt8)
    {w : TimeWriter} {text : List UInt8} (h : Took buffer maxsize w text) :
    ∃ w', strftimeLoop tm format w = some w' ∧
      (∀ more, expansion tm format = some more → Took buffer maxsize w' (text ++ more)) ∧
      (expansion tm format = none → GaveUp buffer maxsize w') := by
  induction hn : format.length using Nat.strong_induction_on generalizing format w text with
  | _ n ih =>
  subst hn
  by_cases hfailed : w.failed ≠ 0
  · -- The text so far is too long already.
    obtain ⟨hfull, hup⟩ := h.resolve_left fun hholds => hfailed hholds.failed
    exact ⟨w, strftimeLoop_failed tm format hfailed, fun more _ => .inr ⟨by simp; omega, hup⟩, fun _ => hup⟩
  cases format with
  | nil =>
    refine ⟨w, by rw [strftimeLoop], fun more hmore => ?_, fun hnone => ?_⟩
    · rw [expansion] at hmore
      cases hmore
      rwa [List.append_nil]
    · rw [expansion] at hnone
      cases hnone
  | cons c rest =>
    by_cases hc : c ≠ '%'.toUInt8
    · obtain ⟨w', hloop, hsome, hnone⟩ := ih rest.length (Nat.lt_succ_self _) rest (h.char c) rfl
      rw [strftimeLoop_literal tm hc, if_neg hfailed, expansion_literal tm hc]
      refine ⟨w', hloop, fun more hmore => ?_, fun hmore => hnone (Option.map_eq_none_iff.1 hmore)⟩
      obtain ⟨more', hmore', rfl⟩ := Option.map_eq_some_iff.1 hmore
      rw [List.append_cons]
      exact hsome more' hmore'
    · have hpercent := not_not.1 hc
      subst hpercent
      cases hskip : skipModifier rest with
      | nil =>
        rw [strftimeLoop_cut tm hskip, if_neg hfailed, expansion_cut tm hskip]
        exact ⟨_, rfl, nofun, fun _ => h.refuse⟩
      | cons code rest' =>
        have hlength := skipModifier_length rest
        rw [hskip, List.length_cons] at hlength
        rw [strftimeLoop_code tm hskip, if_neg hfailed, expansion_code tm hskip, writerFormatCode_eq hvalid,
          Option.bind_some]
        cases (Code.ofByte code).bind (codeText tm) with
        | none =>
          refine ⟨{ w with failed := 2 }, strftimeLoop_failed tm rest' (Nat.succ_ne_zero 1), nofun, fun _ => h.refuse⟩
        | some piece =>
          obtain ⟨w', hloop, hsome, hnone⟩ :=
            ih rest'.length (by rw [List.length_cons]; omega) rest' (h.put piece) rfl
          refine ⟨w', hloop, fun more hmore => ?_, fun hmore => hnone (Option.map_eq_none_iff.1 hmore)⟩
          obtain ⟨more', hmore', rfl⟩ := Option.map_eq_some_iff.1 hmore
          rw [← List.append_assoc]
          exact hsome more' hmore'

/-! ## The call -/

theorem writerFinish_buffer {w : TimeWriter} (hnull : w.null = false) (h : w.capacity ≠ 0) :
    (writerFinish w).buffer = poke w.buffer (min w.length (w.capacity - 1)) 0 := by
  have hposition : (if w.length < w.capacity then w.length else w.capacity - 1) = min w.length (w.capacity - 1) := by
    split <;> omega
  unfold writerFinish
  rw [if_pos ⟨h, by rw [hnull]; decide⟩, hposition]

theorem writerFinish_zero {w : TimeWriter} (h : w.capacity = 0) : writerFinish w = w := by
  unfold writerFinish
  rw [if_neg fun hw => hw.1 h]

theorem writerFinish_fields (w : TimeWriter) :
    (writerFinish w).failed = w.failed ∧ (writerFinish w).length = w.length := by
  unfold writerFinish
  split <;> exact ⟨rfl, rfl⟩

/-- The last step stays in the buffer and terminates it. -/
theorem writerFinish_frame {buffer : Mem} {w : TimeWriter} (hnull : w.null = false)
    (h : ∀ i, w.capacity ≤ i → w.buffer i = buffer i) :
    (∀ i, w.capacity ≤ i → (writerFinish w).buffer i = buffer i) ∧
      (0 < w.capacity → ∃ i < w.capacity, (writerFinish w).buffer i = 0) := by
  by_cases hzero : w.capacity = 0
  · rw [writerFinish_zero hzero]
    exact ⟨h, by omega⟩
  · rw [writerFinish_buffer hnull hzero]
    refine ⟨fun i hi => ?_, fun _ => ⟨min w.length (w.capacity - 1), by omega, poke_same _ _ _⟩⟩
    rw [poke_other _ (by omega), h i hi]

theorem writerFinish_holds {buffer : Mem} {maxsize : Nat} {w : TimeWriter} {text : List UInt8}
    (h : Holds buffer maxsize w text) : bytesAt (writerFinish w).buffer 0 (text.length + 1) = text ++ [0] := by
  have hroom := h.room
  have hbefore : bytesAt (poke w.buffer text.length 0) 0 text.length = bytesAt w.buffer 0 text.length := by
    apply bytesAt_congr
    intro i _ hi
    rw [poke_other _ (by omega)]
  rw [writerFinish_buffer h.null (by rw [h.capacity]; omega), h.capacity, h.length, min_eq_left (by omega),
    bytesAt_add, hbefore, h.content, bytesAt, bytesAt, Nat.zero_add, poke_same]

/-- `strftime` is all or nothing: the whole expansion with its terminator and its
length, or zero. It stays in the buffer, which is terminated in any case. -/
theorem strftime_allOrNothing {tm : Tm} (hvalid : validTextTm tm = true) (s : Mem) (maxsize : Nat) (format : List UInt8)
    (errno : Nat) :
    ∃ n memory errno', strftime (some s) maxsize (some format) (some tm) errno = some (n, some memory, errno') ∧
      (∀ text, expansion tm format = some text → text.length + 1 ≤ maxsize →
        n = text.length ∧ bytesAt memory 0 (text.length + 1) = text ++ [0]) ∧
      ((∀ text, expansion tm format = some text → maxsize < text.length + 1) → n = 0) ∧
      (∀ i, maxsize ≤ i → memory i = s i) ∧
      (0 < maxsize → ∃ i < maxsize, memory i = 0) ∧
      ∀ code : Code, code.depth ≠ 0 → ∃ text, joined ((pieces code).map (pieceText tm)) = some text ∧
        ∀ w, writerFormat w code tm = some (put w text) := by
  obtain ⟨start, hstart⟩ : ∃ start : Mem, (if maxsize ≠ 0 then poke s 0 0 else s) = start := ⟨_, rfl⟩
  have hframe : ∀ i, maxsize ≤ i → start i = s i := by
    intro i hi
    subst hstart
    split
    · exact poke_other _ (by omega)
    · rfl
  have htook : Took s maxsize ⟨start, false, maxsize, 0, 0⟩ [] := by
    by_cases hzero : maxsize = 0
    · exact .inr ⟨by simp [hzero], rfl, rfl, .inr ⟨hzero, rfl⟩, hframe⟩
    · refine .inl ⟨rfl, rfl, rfl, rfl, by simp; omega, rfl, ?_, hframe⟩
      subst hstart
      rw [if_pos hzero]
      exact poke_same s 0 0
  obtain ⟨w, hloop, hsome, hnone⟩ := strftimeLoop_spec hvalid format htook
  simp only [List.nil_append] at hsome
  obtain ⟨hfailed, hlength⟩ := writerFinish_fields w
  have hcall : strftime (some s) maxsize (some format) (some tm) errno =
      if w.failed ≠ 0 then some (0, some (writerFinish w).buffer, if w.failed = 2 then einval else errno)
      else some (w.length, some (writerFinish w).buffer, errno) := by
    unfold strftime
    dsimp only
    rw [if_neg (by simp [hvalid]), ← hfailed, ← hlength]
    simp only [Option.getD_some, Option.isNone_some, hstart]
    rw [bind_of_eq hloop]
    rfl
  have hnothing : GaveUp s maxsize w → (if w.failed ≠ 0 then 0 else w.length) = 0 := by
    intro h
    rcases h.failed with hup | ⟨-, hempty⟩
    · rw [if_pos hup]
    · rw [hempty, ite_self]
  obtain ⟨hcapacity, hnull, hkept⟩ : w.capacity = maxsize ∧ w.null = false ∧ ∀ i, maxsize ≤ i → w.buffer i = s i := by
    cases htext : expansion tm format with
    | none => exact ⟨(hnone htext).capacity, (hnone htext).null, (hnone htext).frame⟩
    | some text =>
      rcases hsome text htext with h | ⟨-, h⟩
      · exact ⟨h.capacity, h.null, h.frame⟩
      · exact ⟨h.capacity, h.null, h.frame⟩
  obtain ⟨hinside, hterminated⟩ := @writerFinish_frame s w hnull (by rwa [hcapacity])
  rw [hcapacity] at hinside hterminated
  refine ⟨if w.failed ≠ 0 then 0 else w.length, (writerFinish w).buffer,
    if w.failed = 2 then einval else errno, ?_, ?_, ?_, hinside, hterminated, fun code hc => writerFormat_pieces hvalid hc⟩
  · rw [hcall]
    by_cases hzero : w.failed = 0
    · rw [if_neg (not_not.2 hzero), if_neg (not_not.2 hzero), if_neg (by omega)]
    · rw [if_pos hzero, if_pos hzero]
  · intro text htext hfits
    have hholds := (hsome text htext).resolve_right fun h => absurd h.1 (by omega)
    rw [if_neg (not_not.2 hholds.failed)]
    exact ⟨hholds.length, writerFinish_holds hholds⟩
  · intro hlong
    apply hnothing
    cases htext : expansion tm format with
    | none => exact hnone htext
    | some text =>
      have hfull := hlong text htext
      rcases hsome text htext with h | ⟨-, h⟩
      · exact absurd h.room (by omega)
      · exact h

/-- The full date of 1 January 2000, a Saturday. -/
theorem strftime_allOrNothing_date :
    ∃ n memory errno', strftime (some fun _ => 1) 11 (some (ascii "%F")) (some ⟨0, 0, 0, 1, 0, 100, 6, 0, 0⟩) 0 =
        some (n, some memory, errno') ∧
      (∀ text, expansion ⟨0, 0, 0, 1, 0, 100, 6, 0, 0⟩ (ascii "%F") = some text → text.length + 1 ≤ 11 →
        n = text.length ∧ bytesAt memory 0 (text.length + 1) = text ++ [0]) ∧
      ((∀ text, expansion ⟨0, 0, 0, 1, 0, 100, 6, 0, 0⟩ (ascii "%F") = some text → 11 < text.length + 1) → n = 0) ∧
      (∀ i, 11 ≤ i → memory i = 1) ∧ (0 < 11 → ∃ i < 11, memory i = 0) ∧
      ∀ code : Code, code.depth ≠ 0 →
        ∃ text, joined ((pieces code).map (pieceText ⟨0, 0, 0, 1, 0, 100, 6, 0, 0⟩)) = some text ∧
          ∀ w, writerFormat w code ⟨0, 0, 0, 1, 0, 100, 6, 0, 0⟩ = some (put w text) :=
  strftime_allOrNothing (by decide) (fun _ => 1) 11 (ascii "%F") 0

end MiniLibc.Time
