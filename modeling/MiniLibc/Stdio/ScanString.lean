import MiniLibc.Stdio.ScanSimulation
/-!
# Scanning a string

`__mini_sscan_dispatch` and `__mini_wsscan_dispatch`. A call on a string always
returns, and a string reads like the list of the characters that are left.
-/
open MiniLibc.FloatParse MiniLibc.Memory

namespace MiniLibc.Stdio

/-- `__mini_sscan_dispatch`: the result, and the scan when it returns. -/
def sscanDispatch (utf8 : Bool) (input format : List UInt8) (args : ScanArgs) (memory : Mem) :
    Option (Int × Scan (StringCursor UInt8)) :=
  scanDispatch (stringSource utf8) (input.length + 1) format ⟨{ ahead := input }, args, memory⟩

/-- `__mini_wsscan_dispatch`. -/
def wsscanDispatch (utf8 : Bool) (input : List Int) (format : List UInt8) (args : ScanArgs) (memory : Mem) :
    Option (Int × Scan (StringCursor Int)) :=
  scanDispatch (wideStringSource utf8) (input.length + 1) format ⟨{ ahead := input }, args, memory⟩

/-! ## The list that is left -/

/-- A byte string that is only what is left of it. -/
def listSource (utf8 : Bool) : Source (List Nat) where
  get
    | [] => (none, [])
    | c :: rest => (some c, rest)
  unget c rest := (true, c.toNat :: rest)
  wide := false
  utf8
  setErrno _ rest := rest

/-- A string and what is left of it. -/
def Leaves (s : StringCursor UInt8) (rest : List Nat) : Prop := s.ahead.map UInt8.toNat = rest

theorem unsignedChar_byte (b : UInt8) : unsignedChar (b.toNat : Int) = b := by
  unfold unsignedChar
  have hlt : (b.toNat : Int) < 256 := by
    have := b.toNat_lt
    omega
  rw [Int.emod_eq_of_lt (Int.natCast_nonneg _) hlt, Int.toNat_natCast]
  exact UInt8.ofNat_toNat

theorem stringSource_unget (utf8 : Bool) (b : UInt8) (s : StringCursor UInt8) :
    (stringSource utf8).unget (b.toNat : Int) s = s.unget b :=
  congrArg (fun c => StringCursor.unget c s) (unsignedChar_byte b)

/-- The item that was just read is taken back. -/
theorem StringCursor.unget_get {α : Type} [DecidableEq α] (c : α) (behind ahead : List α) (errno : Nat) :
    StringCursor.unget c ⟨c :: behind, ahead, errno⟩ = (true, ⟨behind, c :: ahead, errno⟩) := if_pos rfl

theorem string_list (utf8 : Bool) : Simulation (stringSource utf8) (listSource utf8) Leaves where
  get := by
    rintro ⟨behind, _ | ⟨b, ahead⟩, errno⟩ _ rfl
    · exact ⟨rfl, rfl⟩
    · exact ⟨rfl, rfl⟩
  unget := by
    rintro ⟨behind, _ | ⟨b, ahead⟩, errno⟩ _ c rfl hc
    · cases hc
    · cases hc
      have hunget := (stringSource_unget utf8 b ⟨b :: behind, ahead, errno⟩).trans (StringCursor.unget_get b behind ahead errno)
      refine ⟨congrArg Prod.fst hunget, ?_⟩
      show ((stringSource utf8).unget (b.toNat : Int) ⟨b :: behind, ahead, errno⟩).2.ahead.map UInt8.toNat = _
      rw [hunget]
      rfl
  wide := rfl
  utf8 := rfl
  setErrno _ h := h

end MiniLibc.Stdio
