import MiniLibc.Stdio.Formatter
/-!
# The formatter on a view of its arguments

The formatter asks a machine for its arguments. A machine that is seen as another one
formats what that one formats, whatever the sink does.
-/
open MiniLibc.Args

namespace MiniLibc.Stdio

variable {α β γ : Type} {next : α → Fetch → Nat × α} {next' : β → Fetch → Nat × β} {view : α → β}
  (h : ∀ a f, (next a f).1 = (next' (view a) f).1 ∧ view (next a f).2 = (next' (view a) f).2)
include h

/-! ## The specification -/

theorem parseFormatWidth_view (spec : FormatSpec) (p : List UInt8) (args : α) :
    parseFormatWidth next' spec p (view args) =
      (parseFormatWidth next spec p args).map fun (spec, p, args) => (spec, p, view args) := by
  obtain ⟨hword, hview⟩ := h args .word
  unfold parseFormatWidth
  split
  · dsimp only
    rw [← hword, ← hview, Option.map_map]
    rfl
  · rw [Option.map_map]
    rfl

theorem parsePrecision_view (spec : FormatSpec) (p : List UInt8) (args : α) :
    parsePrecision next' spec p (view args) =
      (parsePrecision next spec p args).map fun (spec, p, args) => (spec, p, view args) := by
  obtain ⟨hword, hview⟩ := h args .word
  unfold parsePrecision
  split
  · dsimp only
    split
    · rw [← hword, ← hview]
      rfl
    · rw [Option.map_map]
      rfl
  · rfl

theorem parseFormatSpec_view (p : List UInt8) (args : α) :
    parseFormatSpec next' p (view args) =
      (parseFormatSpec next p args).map fun (spec, p, args) => (spec, p, view args) := by
  unfold parseFormatSpec
  dsimp only
  rw [parseFormatWidth_view h]
  cases parseFormatWidth next (parseFlags {} p).1 (parseFlags {} p).2 args with
  | none => rfl
  | some x =>
    obtain ⟨spec, p, args⟩ := x
    dsimp only [Option.map_some]
    rw [parsePrecision_view h]
    cases parsePrecision next spec p args with
    | none => rfl
    | some x =>
      obtain ⟨spec, p, args⟩ := x
      dsimp only [Option.map_some]
      split <;> rfl

/-! ## A conversion -/

variable (arrays : Arrays)

theorem emitStringConversion_view (mode : SinkMode) (spec : FormatSpec) (args : α) :
    emitStringConversion next' arrays mode spec (view args) =
      (emitStringConversion next arrays mode spec args).map fun (emission, args) => (emission, view args) := by
  obtain ⟨hword, hview⟩ := h args .word
  unfold emitStringConversion
  dsimp only
  rw [← hword, ← hview]
  split
  · rw [Option.map_map]
    rfl
  · split
    · rw [Option.map_map]
      rfl
    · rfl

theorem emitCharacterConversion_view (mode : SinkMode) (spec : FormatSpec) (args : α) :
    emitCharacterConversion next' mode spec (view args) =
      ((emitCharacterConversion next mode spec args).1, view (emitCharacterConversion next mode spec args).2) := by
  obtain ⟨hword, hview⟩ := h args .word
  unfold emitCharacterConversion
  dsimp only
  rw [← hword, ← hview]
  split_ifs <;> rfl

theorem emitConversion_view (mode : SinkMode) (spec : FormatSpec) (args : α) :
    emitConversion next' arrays mode spec (view args) =
      (emitConversion next arrays mode spec args).map fun (emission, args) => (emission, view args) := by
  obtain ⟨hword, hview⟩ := h args .word
  obtain ⟨hdouble, hview'⟩ := h args .double
  unfold emitConversion nextSigned nextUnsigned
  dsimp only
  rw [emitStringConversion_view h, emitCharacterConversion_view h, ← hword, ← hview, ← hdouble, ← hview']
  cases emitFloating spec (doubleOfBits (next args .double).1) with
  | none => split_ifs <;> rfl
  | some calls => split_ifs <;> rfl

/-! ## The format -/

variable {σ : Type} (sink : Sink σ)

theorem formatLoop_view (fuel : Nat) (cursor : List UInt8) (args : α) (count : Nat) (s : σ) :
    formatLoop next' arrays sink fuel cursor (view args) count s = formatLoop next arrays sink fuel cursor args count s := by
  induction fuel generalizing cursor args count s with
  | zero => rfl
  | succ fuel ih =>
    rw [formatLoop, formatLoop]
    split
    · rfl
    cases emitLiteral sink cursor count s with
    | mk literal s =>
      cases literal with
      | none => rfl
      | some count =>
        dsimp only
        split
        · rfl
        rw [parseFormatSpec_view h]
        cases parseFormatSpec next ((cursor.dropWhile isLiteral).drop 1) args with
        | none => rfl
        | some x =>
          obtain ⟨spec, cursor, args⟩ := x
          dsimp only [Option.map_some]
          rw [emitConversion_view h]
          cases emitConversion next arrays sink.mode spec args with
          | none => rfl
          | some x =>
            obtain ⟨emission, args⟩ := x
            dsimp only [Option.map_some]
            cases runEmission sink emission count s with
            | mk result s =>
              cases result with
              | none => rfl
              | some count => exact ih cursor args count s

theorem formatDispatch_view (format : Option (List UInt8)) (args : α) (s : σ) :
    formatDispatch next' arrays sink format (view args) s = formatDispatch next arrays sink format args s := by
  cases format with
  | none => rfl
  | some format => exact formatLoop_view h arrays sink format.length format args 0 s

/-! ## The same arguments -/

omit h

/-- Two machines deliver the same arguments, and the formatter writes the same for both. -/
def SameArguments (next : α → Fetch → Nat × α) (args : α) (next' : β → Fetch → Nat × β) (args' : β) : Prop :=
  (∀ fs, deliver next args fs = deliver next' args' fs) ∧
    ∀ (σ : Type) (sink : Sink σ) (arrays : Arrays) (format : Option (List UInt8)) (s : σ),
      formatDispatch next arrays sink format args s = formatDispatch next' arrays sink format args' s

theorem SameArguments.symm {args : α} {args' : β} (h : SameArguments next args next' args') :
    SameArguments next' args' next args :=
  ⟨fun fs => (h.1 fs).symm, fun σ sink arrays format s => (h.2 σ sink arrays format s).symm⟩

theorem SameArguments.trans {next'' : γ → Fetch → Nat × γ} {args : α} {args' : β} {args'' : γ}
    (h : SameArguments next args next' args') (h' : SameArguments next' args' next'' args'') :
    SameArguments next args next'' args'' := by
  constructor
  · intro fs
    rw [h.1, h'.1]
  · intro σ sink arrays format s
    rw [h.2, h'.2]

/-- A machine and its view have the same arguments. -/
theorem sameArguments_view
    (h : ∀ a f, (next a f).1 = (next' (view a) f).1 ∧ view (next a f).2 = (next' (view a) f).2) (args : α) :
    SameArguments next args next' (view args) :=
  ⟨deliver_view view h args, fun _ sink arrays format s => (formatDispatch_view h arrays sink format args s).symm⟩

end MiniLibc.Stdio
