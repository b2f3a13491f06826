import MiniLibc.Stdio.Formatter
/-!
# One rendering for every sink

A run of the formatter is a list of writes and an ending, and both are the same for
every sink of one mode: what a sink adds is only which write it refuses first. The
writes together are the text of the format, which `formatText` says without a sink and
without a count.
-/
open MiniLibc.Args

namespace MiniLibc.Stdio

/-! ## Scripts -/

/-- The writes of a run, and how it ends if none is refused: with the count, or with
`errno`. -/
structure Script where
  pieces : List (List UInt8)
  ending : Except Nat Nat

/-- What the ending of a run does to a sink. -/
def finish {σ : Type} (sink : Sink σ) (ending : Except Nat Nat) (s : σ) : Option Nat × σ :=
  match ending with
  | .ok count => (some count, s)
  | .error e => (none, sink.setErrno s e)

/-- The writes one after the other, up to one that is refused. -/
def replay {σ : Type} (sink : Sink σ) (ending : Except Nat Nat) : List (List UInt8) → σ → Option Nat × σ
  | [], s => finish sink ending s
  | piece :: pieces, s =>
    match sink.write s piece with
    | (true, s) => replay sink ending pieces s
    | (false, s) => (none, s)

def Script.run {σ : Type} (script : Script) (sink : Sink σ) (s : σ) : Option Nat × σ :=
  replay sink script.ending script.pieces s

/-- Go on from the count, unless the run has ended. -/
def continued {σ : Type} (k : Nat → σ → Option Nat × σ) (r : Option Nat × σ) : Option Nat × σ :=
  match r with
  | (some count, s) => k count s
  | (none, s) => (none, s)

def Script.andThen (script : Script) (k : Nat → Script) : Script :=
  match script.ending with
  | .ok count => ⟨script.pieces ++ (k count).pieces, (k count).ending⟩
  | .error _ => script

theorem replay_append {σ : Type} (sink : Sink σ) (count : Nat) (ending : Except Nat Nat) (l l' : List (List UInt8))
    (s : σ) : replay sink ending (l ++ l') s = continued (fun _ => replay sink ending l') (replay sink (.ok count) l s) := by
  induction l generalizing s with
  | nil => rfl
  | cons piece l ih =>
    rw [List.cons_append, replay, replay]
    rcases sink.write s piece with ⟨ok, s'⟩
    cases ok with
    | true => exact ih s'
    | false => rfl

/-- A run that ends in an error does not go on. -/
theorem continued_error {σ : Type} (sink : Sink σ) (e : Nat) (k : Nat → σ → Option Nat × σ) (l : List (List UInt8))
    (s : σ) : continued k (replay sink (.error e) l s) = replay sink (.error e) l s := by
  induction l generalizing s with
  | nil => rfl
  | cons piece l ih =>
    rw [replay]
    rcases sink.write s piece with ⟨ok, s'⟩
    cases ok with
    | true => exact ih s'
    | false => rfl

theorem continued_replay {σ : Type} (sink : Sink σ) (count : Nat) (k : Nat → σ → Option Nat × σ)
    (l : List (List UInt8)) (s : σ) :
    continued k (replay sink (.ok count) l s) = continued (fun _ => k count) (replay sink (.ok count) l s) := by
  induction l generalizing s with
  | nil => rfl
  | cons piece l ih =>
    rw [replay]
    rcases sink.write s piece with ⟨ok, s'⟩
    cases ok with
    | true => exact ih s'
    | false => rfl

theorem Script.run_andThen {σ : Type} (sink : Sink σ) (script : Script) (k : Nat → Script) (s : σ) :
    (script.andThen k).run sink s = continued (fun count => (k count).run sink) (script.run sink s) := by
  rcases script with ⟨pieces, ending⟩
  cases ending with
  | error e => exact (continued_error sink e _ pieces s).symm
  | ok count =>
    show replay sink (k count).ending (pieces ++ (k count).pieces) s =
      continued (fun count => (k count).run sink) (replay sink (.ok count) pieces s)
    rw [continued_replay, replay_append sink count]
    rfl

/-- The script writes the text behind `count` bytes, and its ending is their number if
it fits; without a text it ends in an error. -/
def Script.Renders (script : Script) (count : Nat) (text : Option (List UInt8)) : Prop :=
  (∃ t, text = some t ∧ count + t.length ≤ printfIntMax ∧ script.ending = .ok (count + t.length) ∧
      script.pieces.flatten = t) ∨
    ((∀ t, text = some t → printfIntMax < count + t.length) ∧ ∃ e, script.ending = .error e)

/-- One text behind the other. -/
def appendText (text text' : Option (List UInt8)) : Option (List UInt8) :=
  text.bind fun t => text'.map (t ++ ·)

theorem Script.Renders.andThen {script : Script} {count : Nat} {text text' : Option (List UInt8)}
    {k : Nat → Script} (h : script.Renders count text)
    (hk : ∀ t, text = some t → count + t.length ≤ printfIntMax → (k (count + t.length)).Renders (count + t.length) text') :
    (script.andThen k).Renders count (appendText text text') := by
  rcases script with ⟨pieces, ending⟩
  rcases h with ⟨t, rfl, hle, rfl, hp⟩ | ⟨hover, e, rfl⟩
  · rcases hk t rfl hle with ⟨t', rfl, hle', he', hp'⟩ | ⟨hover, e, he⟩
    · refine .inl ⟨t ++ t', rfl, by rw [List.length_append]; omega, ?_, ?_⟩
      · rw [Script.andThen, List.length_append, ← Nat.add_assoc]
        exact he'
      · show (pieces ++ (k (count + t.length)).pieces).flatten = t ++ t'
        rw [List.flatten_append, hp', show pieces.flatten = t from hp]
    · refine .inr ⟨fun u hu => ?_, e, he⟩
      cases text' with
      | none => cases hu
      | some t' =>
        have := hover t' rfl
        obtain rfl : t ++ t' = u := Option.some.inj hu
        rw [List.length_append]
        omega
  · refine .inr ⟨fun u hu => ?_, e, rfl⟩
    cases text with
    | none => cases hu
    | some t =>
      have := hover t rfl
      cases text' with
      | none => cases hu
      | some t' =>
        obtain rfl : t ++ t' = u := Option.some.inj hu
        rw [List.length_append]
        omega

/-- What an emitter does to any sink of the mode is one script's run. -/
def Scripted (mode : SinkMode) (count : Nat) (text : Option (List UInt8))
    (f : (σ : Type) → Sink σ → σ → Option Nat × σ) : Prop :=
  ∃ script : Script, script.Renders count text ∧ ∀ σ (sink : Sink σ), sink.mode = mode → ∀ s, f σ sink s = script.run sink s

/-- What a conversion emits, unless it fails by itself. -/
def Emission.text (e : Emission) : Option (List UInt8) :=
  if e.error.isSome then none else some ((rendering e.calls).map UInt8.ofNat)

section Emitters
variable {mode : SinkMode} {count : Nat} {text u : Option (List UInt8)}

theorem Scripted.done (hc : count ≤ printfIntMax) : Scripted mode count (some []) fun _ _ s => (some count, s) :=
  ⟨⟨[], .ok count⟩, .inl ⟨[], rfl, hc, rfl, rfl⟩, fun _ _ _ _ => rfl⟩

theorem Scripted.error (e : Nat) : Scripted mode count none fun _ sink s => (none, sink.setErrno s e) :=
  ⟨⟨[], .error e⟩, .inr ⟨fun _ h => (by cases h), e, rfl⟩, fun _ _ _ _ => rfl⟩

/-- An emitter that goes on from the count of another. -/
theorem Scripted.andThen {f : (σ : Type) → Sink σ → σ → Option Nat × σ}
    {g : Nat → (σ : Type) → Sink σ → σ → Option Nat × σ} (hf : Scripted mode count text f)
    (hg : ∀ t, text = some t → count + t.length ≤ printfIntMax →
      Scripted mode (count + t.length) u (g (count + t.length))) :
    Scripted mode count (appendText text u) fun σ sink s => continued (fun n => g n σ sink) (f σ sink s) := by
  obtain ⟨script, hr, hrun⟩ := hf
  by_cases hfit : ∃ t, text = some t ∧ count + t.length ≤ printfIntMax
  · obtain ⟨t, rfl, hle⟩ := hfit
    obtain ⟨script', hr', hrun'⟩ := hg t rfl hle
    refine ⟨script.andThen fun _ => script', hr.andThen fun u hu _ => ?_, fun σ sink hm s => ?_⟩
    · obtain rfl := Option.some.inj hu
      exact hr'
    · have hend : script.ending = .ok (count + t.length) := by
        rcases hr with ⟨u, hu, -, he, -⟩ | ⟨hover, -⟩
        · rw [Option.some.inj hu]
          exact he
        · have := hover t rfl
          omega
      show continued (fun n => g n σ sink) (f σ sink s) = _
      rw [Script.run_andThen, hrun σ sink hm, Script.run, hend, continued_replay,
        continued_replay sink _ fun _ => script'.run sink]
      congr 1
      funext _ s'
      exact hrun' σ sink hm s'
  · -- nothing fits, so the first one ends in an error
    have hover : ∃ e, script.ending = .error e := by
      rcases hr with ⟨t, ht, hle, -⟩ | ⟨-, he⟩
      · exact absurd ⟨t, ht, hle⟩ hfit
      · exact he
    obtain ⟨e, he⟩ := hover
    refine ⟨script.andThen fun _ => script, hr.andThen fun t ht hle => absurd ⟨t, ht, hle⟩ hfit, fun σ sink hm s => ?_⟩
    show continued (fun n => g n σ sink) (f σ sink s) = _
    rw [Script.run_andThen, hrun σ sink hm, Script.run, he, continued_error, continued_error]

theorem Scripted.congr {f g : (σ : Type) → Sink σ → σ → Option Nat × σ} (h : Scripted mode count text f)
    (hfg : ∀ σ (sink : Sink σ) s, g σ sink s = f σ sink s) : Scripted mode count text g := by
  obtain ⟨script, hr, hrun⟩ := h
  exact ⟨script, hr, fun σ sink hm s => (hfg σ sink s).trans (hrun σ sink hm s)⟩

/-! ## The emitters -/

variable (mode) in
theorem emitBytes_scripted (hc : count ≤ printfIntMax) (l : List Nat) :
    Scripted mode count (some (l.map UInt8.ofNat)) fun _ sink s => emitBytes sink l count s := by
  by_cases hle : l.length > printfIntMax - count
  · refine ⟨⟨[], .error einval⟩, .inr ⟨fun t ht => ?_, einval, rfl⟩, fun σ sink _ s => ?_⟩
    · obtain rfl := Option.some.inj ht
      rw [List.length_map]
      omega
    · show emitBytes sink l count s = _
      rw [emitBytes, reserveCount, if_pos hle]
      rfl
  · refine ⟨⟨[l.map UInt8.ofNat], .ok (count + l.length)⟩, .inl ⟨_, rfl, ?_, ?_, ?_⟩, fun σ sink _ s => ?_⟩
    · rw [List.length_map]
      omega
    · rw [List.length_map]
    · simp
    · show emitBytes sink l count s = _
      rw [emitBytes, reserveCount, if_neg hle, Script.run, replay]
      rfl

variable (mode) in
theorem repeatLoop_scripted {fuel amount : Nat} (hf : amount ≤ fuel) (hc : count + amount ≤ printfIntMax) (byte : Nat) :
    Scripted mode count (some (List.replicate amount (UInt8.ofNat byte))) fun _ sink s =>
      repeatLoop sink byte fuel amount count s := by
  induction fuel generalizing amount count with
  | zero =>
    obtain rfl : amount = 0 := by omega
    exact .done (by omega)
  | succ fuel ih =>
    by_cases h0 : amount = 0
    · subst h0
      exact (Scripted.done (by omega)).congr fun σ sink s => by rw [repeatLoop, if_pos rfl]
    · obtain ⟨chunk, hchunk⟩ : ∃ n, min amount formatPadChunk = n := ⟨_, rfl⟩
      have hpos : 0 < chunk ∧ chunk ≤ amount := by
        have : 0 < formatPadChunk := by decide
        omega
      have hfirst := emitBytes_scripted mode (le_trans (Nat.le_add_right count amount) hc) (List.replicate chunk byte)
      have hrest := hfirst.andThen (u := some (List.replicate (amount - chunk) (UInt8.ofNat byte)))
        (g := fun n _ sink s => repeatLoop sink byte fuel (amount - chunk) n s) fun t ht hle => by
          obtain rfl := Option.some.inj ht
          simp only [List.map_replicate, List.length_replicate] at hle ⊢
          exact ih (by omega) (by omega)
      have htext : appendText (some ((List.replicate chunk byte).map UInt8.ofNat))
          (some (List.replicate (amount - chunk) (UInt8.ofNat byte))) =
          some (List.replicate amount (UInt8.ofNat byte)) := by
        simp only [appendText, Option.bind_some, Option.map_some, List.map_replicate, ← List.replicate_add]
        rw [Nat.add_sub_cancel' hpos.2]
      rw [htext] at hrest
      refine hrest.congr fun σ sink s => ?_
      rw [repeatLoop, if_neg h0]
      simp only [hchunk]
      rcases emitBytes sink (List.replicate chunk byte) count s with ⟨_ | n, s'⟩ <;> rfl

variable (mode) in
theorem emitRepeat_scripted (hc : count ≤ printfIntMax) (byte amount : Nat) :
    Scripted mode count (some (List.replicate amount (UInt8.ofNat byte))) fun _ sink s =>
      emitRepeat sink byte amount count s := by
  by_cases hle : amount > printfIntMax - count
  · refine ⟨⟨[], .error einval⟩, .inr ⟨fun t ht => ?_, einval, rfl⟩, fun σ sink _ s => ?_⟩
    · obtain rfl := Option.some.inj ht
      rw [List.length_replicate]
      omega
    · show emitRepeat sink byte amount count s = _
      rw [emitRepeat, if_pos hle]
      rfl
  · exact (repeatLoop_scripted mode (Nat.le_refl amount) (by omega) byte).congr fun σ sink s => by
      rw [emitRepeat, if_neg hle]

/-- A call, and the calls behind it. -/
theorem calls_scripted {call : Emit} {calls : List Emit} {f : (σ : Type) → Sink σ → σ → Option Nat × σ}
    (hf : Scripted mode count (some (call.text.map UInt8.ofNat)) f)
    (hcalls : ∀ n ≤ printfIntMax, Scripted mode n (some ((rendering calls).map UInt8.ofNat)) fun _ sink s =>
      runCalls sink calls n s)
    (hstep : ∀ σ (sink : Sink σ) s, runCalls sink (call :: calls) count s =
      continued (fun n => runCalls sink calls n) (f σ sink s)) :
    Scripted mode count (some ((rendering (call :: calls)).map UInt8.ofNat)) fun _ sink s =>
      runCalls sink (call :: calls) count s := by
  have h := hf.andThen (g := fun n _ sink s => runCalls sink calls n s) fun t _ hle => hcalls _ hle
  rw [show appendText (some (call.text.map UInt8.ofNat)) (some ((rendering calls).map UInt8.ofNat)) =
    some ((rendering (call :: calls)).map UInt8.ofNat) by simp [appendText, rendering]] at h
  exact h.congr hstep

variable (mode) in
theorem runCalls_scripted (hc : count ≤ printfIntMax) (calls : List Emit) :
    Scripted mode count (some ((rendering calls).map UInt8.ofNat)) fun _ sink s => runCalls sink calls count s := by
  induction calls generalizing count with
  | nil => exact .done hc
  | cons call calls ih =>
    cases call with
    | bytes text =>
      refine calls_scripted (emitBytes_scripted mode hc text) (fun n hn => ih hn) fun σ sink s => ?_
      rw [runCalls]
      rcases emitBytes sink text count s with ⟨_ | n, s'⟩ <;> rfl
    | repeated byte amount =>
      have hr := emitRepeat_scripted mode hc byte amount
      rw [← List.map_replicate] at hr
      refine calls_scripted hr (fun n hn => ih hn) fun σ sink s => ?_
      rw [runCalls]
      rcases emitRepeat sink byte amount count s with ⟨_ | n, s'⟩ <;> rfl

variable (mode) in
theorem runEmission_scripted (hc : count ≤ printfIntMax) (emission : Emission) :
    Scripted mode count emission.text fun _ sink s => runEmission sink emission count s := by
  rcases emission with ⟨calls, error⟩
  have hcalls := runCalls_scripted mode hc calls
  cases error with
  | none =>
    have h := hcalls.andThen (u := some []) (g := fun n _ _ s => (some n, s)) fun t _ hle => .done hle
    rw [show appendText (some ((rendering calls).map UInt8.ofNat)) (some []) = (⟨calls, none⟩ : Emission).text by
      simp [appendText, Emission.text]] at h
    refine h.congr fun σ sink s => ?_
    rw [runEmission]
    rcases runCalls sink calls count s with ⟨_ | n, s'⟩ <;> rfl
  | some e =>
    have h := hcalls.andThen (u := none) (g := fun _ _ sink s => (none, sink.setErrno s e)) fun t _ hle => .error e
    refine h.congr fun σ sink s => ?_
    rw [runEmission]
    rcases runCalls sink calls count s with ⟨_ | n, s'⟩ <;> rfl

variable (mode) in
theorem emitLiteral_scripted (hc : count ≤ printfIntMax) (cursor : List UInt8) :
    Scripted mode count (some (cursor.takeWhile isLiteral)) fun _ sink s => emitLiteral sink cursor count s := by
  by_cases h0 : cursor.takeWhile isLiteral = []
  · rw [h0]
    exact (Scripted.done hc).congr fun σ sink s => by simp [emitLiteral, h0]
  · have h := emitBytes_scripted mode hc ((cursor.takeWhile isLiteral).map UInt8.toNat)
    simp only [List.map_map, Function.comp_def, UInt8.ofNat_toNat, List.map_id'] at h
    exact h.congr fun σ sink s => by simp [emitLiteral, h0]

end Emitters

/-! ## The format -/

section Machine
variable {α : Type} (next : α → Fetch → Nat × α) (arrays : Arrays) (mode : SinkMode)

/-- The text of a format and its arguments, whatever its length: literals and what the
conversions emit, or `none` from a specification or a conversion that fails on. It is
missing if a conversion passes the end of an array. -/
def formatTextLoop : (fuel : Nat) → (cursor : List UInt8) → α → Option (Option (List UInt8))
  | 0, _, _ => some (some [])
  | fuel + 1, cursor, args =>
    let literal := cursor.takeWhile isLiteral
    let cursor := cursor.dropWhile isLiteral
    if byteAt cursor = 0 then some (some literal)
    else
      match parseFormatSpec next (cursor.drop 1) args with
      | none => some none
      | some (spec, cursor, args) =>
        match emitConversion next arrays mode spec args with
        | none => none
        | some (emission, args) =>
          if emission.text = none then some none
          else (formatTextLoop fuel cursor args).map fun text => appendText (some literal) (appendText emission.text text)

def formatText (format : List UInt8) (args : α) : Option (Option (List UInt8)) :=
  formatTextLoop next arrays mode format.length format args

variable {next arrays mode}

theorem appendText_none (text : Option (List UInt8)) : appendText text none = none := by
  cases text <;> rfl

/-- A byte that is no literal's begins a specification or ends the format. -/
theorem dropWhile_literal {cursor : List UInt8} (h : byteAt cursor = 0) :
    cursor.takeWhile isLiteral = [] ∧ byteAt (cursor.dropWhile isLiteral) = 0 := by
  cases cursor with
  | nil => exact ⟨rfl, rfl⟩
  | cons c cursor =>
    obtain rfl : c = 0 := h
    exact ⟨rfl, rfl⟩

/-- Go on from the count with a run that may pass the end of an array. -/
def resumed {σ : Type} (k : Nat → σ → Option (Option Nat × σ)) (r : Option Nat × σ) : Option (Option Nat × σ) :=
  match r with
  | (some count, s) => k count s
  | (none, s) => some (none, s)

section Pass
variable {σ : Type} {sink : Sink σ} {fuel count : Nat} {cursor rest : List UInt8} {args args' args'' : α} {s : σ}

theorem formatLoop_end (h : byteAt (cursor.dropWhile isLiteral) = 0) :
    formatLoop next arrays sink (fuel + 1) cursor args count s = some (emitLiteral sink cursor count s) := by
  rw [formatLoop]
  split
  · rename_i h0
    rw [emitLiteral, (dropWhile_literal h0).1]
    rfl
  · rcases emitLiteral sink cursor count s with ⟨_ | n, s'⟩
    · rfl
    · exact if_pos h

theorem formatLoop_invalid (h : byteAt (cursor.dropWhile isLiteral) ≠ 0)
    (hparse : parseFormatSpec next ((cursor.dropWhile isLiteral).drop 1) args = none) :
    formatLoop next arrays sink (fuel + 1) cursor args count s =
      resumed (fun _ s => some (none, sink.setErrno s einval)) (emitLiteral sink cursor count s) := by
  rw [formatLoop, if_neg fun h0 => h (dropWhile_literal h0).2]
  rcases emitLiteral sink cursor count s with ⟨_ | n, s'⟩
  · rfl
  · simp only [if_neg h, hparse, resumed]

theorem formatLoop_conversion (h : byteAt (cursor.dropWhile isLiteral) ≠ 0) {spec : FormatSpec}
    (hparse : parseFormatSpec next ((cursor.dropWhile isLiteral).drop 1) args = some (spec, rest, args'))
    {emission : Emission} (hconv : emitConversion next arrays sink.mode spec args' = some (emission, args'')) :
    formatLoop next arrays sink (fuel + 1) cursor args count s =
      resumed (fun n s => resumed (formatLoop next arrays sink fuel rest args'') (runEmission sink emission n s))
        (emitLiteral sink cursor count s) := by
  rw [formatLoop, if_neg fun h0 => h (dropWhile_literal h0).2]
  rcases emitLiteral sink cursor count s with ⟨_ | n, s'⟩
  · rfl
  · simp only [if_neg h, hparse, hconv, resumed]
    rcases runEmission sink emission n s' with ⟨_ | m, s''⟩ <;> rfl

end Pass

/-- A run that a script says, and that passes the end of no array. -/
def ScriptedSome (mode : SinkMode) (count : Nat) (text : Option (List UInt8))
    (F : (σ : Type) → Sink σ → σ → Option (Option Nat × σ)) : Prop :=
  ∃ f : (σ : Type) → Sink σ → σ → Option Nat × σ, Scripted mode count text f ∧
    ∀ σ (sink : Sink σ), sink.mode = mode → ∀ s, F σ sink s = some (f σ sink s)

/-- A count that comes back is the number of bytes so far. -/
theorem Scripted.returns {mode : SinkMode} {count n : Nat} {text : Option (List UInt8)}
    {f : (σ : Type) → Sink σ → σ → Option Nat × σ} (h : Scripted mode count text f) {σ : Type} {sink : Sink σ}
    (hm : sink.mode = mode) {s s' : σ} (hf : f σ sink s = (some n, s')) :
    ∃ t, text = some t ∧ n = count + t.length ∧ n ≤ printfIntMax := by
  obtain ⟨⟨pieces, ending⟩, hr, hrun⟩ := h
  rw [hrun σ sink hm, Script.run] at hf
  have hend : ending = .ok n := by
    clear hr hrun
    induction pieces generalizing s with
    | nil =>
      cases ending with
      | error e => cases hf
      | ok m =>
        cases hf
        rfl
    | cons piece pieces ih =>
      rw [replay] at hf
      rcases hw : sink.write s piece with ⟨ok, s''⟩
      rw [hw] at hf
      cases ok with
      | true => exact ih hf
      | false => cases hf
  rcases hr with ⟨t, rfl, hle, he, -⟩ | ⟨-, e, he⟩
  · obtain rfl : n = count + t.length := Except.ok.inj (hend.symm.trans he)
    exact ⟨t, rfl, rfl, hle⟩
  · cases hend.symm.trans he

theorem Scripted.resume {mode : SinkMode} {count : Nat} {text u : Option (List UInt8)}
    {f : (σ : Type) → Sink σ → σ → Option Nat × σ} (hf : Scripted mode count text f)
    {G : Nat → (σ : Type) → Sink σ → σ → Option (Option Nat × σ)}
    (hG : ∀ n ≤ printfIntMax, ScriptedSome mode n u (G n)) :
    ScriptedSome mode count (appendText text u) fun σ sink s => resumed (fun n => G n σ sink) (f σ sink s) := by
  have : Nonempty ((σ : Type) → Sink σ → σ → Option Nat × σ) := ⟨fun _ _ s => (none, s)⟩
  choose! g hg using hG
  refine ⟨_, hf.andThen fun t _ hle => (hg _ hle).1, fun σ sink hm s => ?_⟩
  show resumed _ (f σ sink s) = some (continued _ (f σ sink s))
  rcases hfs : f σ sink s with ⟨_ | n, s'⟩
  · rfl
  · obtain ⟨t, -, -, hle⟩ := hf.returns hm hfs
    exact (hg n hle).2 σ sink hm s'

theorem formatLoop_scripted {fuel : Nat} {cursor : List UInt8} {args : α} {count : Nat} (hc : count ≤ printfIntMax)
    {text : Option (List UInt8)} (h : formatTextLoop next arrays mode fuel cursor args = some text) :
    ScriptedSome mode count text fun _ sink s => formatLoop next arrays sink fuel cursor args count s := by
  induction fuel generalizing cursor args count text with
  | zero =>
    obtain rfl := Option.some.inj h
    exact ⟨_, .done hc, fun _ _ _ _ => rfl⟩
  | succ fuel ih =>
    have hlit := emitLiteral_scripted mode hc cursor
    rw [formatTextLoop] at h
    split at h
    · rename_i hend
      obtain rfl := Option.some.inj h
      exact ⟨_, hlit, fun σ sink _ s => formatLoop_end hend⟩
    rename_i hend
    rcases hparse : parseFormatSpec next ((cursor.dropWhile isLiteral).drop 1) args with _ | ⟨spec, rest, args'⟩
    · simp only [hparse, Option.some.injEq] at h
      obtain ⟨f, hf, hrun⟩ := hlit.resume (u := none) (G := fun _ _ sink s => some (none, sink.setErrno s einval))
        fun n _ => ⟨_, .error einval, fun _ _ _ _ => rfl⟩
      rw [appendText_none, h] at hf
      exact ⟨f, hf, fun σ sink hm s => (formatLoop_invalid hend hparse).trans (hrun σ sink hm s)⟩
    simp only [hparse] at h
    rcases hconv : emitConversion next arrays mode spec args' with _ | ⟨emission, args''⟩
    · simp only [hconv] at h
      cases h
    simp only [hconv] at h
    have hstep : ∀ text', (∀ n ≤ printfIntMax, ScriptedSome mode n text' fun _ sink s =>
        resumed (formatLoop next arrays sink fuel rest args'') (runEmission sink emission n s)) →
        ScriptedSome mode count (appendText (some (cursor.takeWhile isLiteral)) text') fun _ sink s =>
          formatLoop next arrays sink (fuel + 1) cursor args count s := by
      intro text' htail
      obtain ⟨f, hf, hrun⟩ := hlit.resume htail
      refine ⟨f, hf, fun σ sink hm s => ?_⟩
      exact (formatLoop_conversion hend hparse (hm ▸ hconv)).trans (hrun σ sink hm s)
    split at h
    · -- the conversion fails, so nothing behind it runs
      rename_i hnone
      obtain rfl := Option.some.inj h
      have := hstep none fun n hn => by
        have he := runEmission_scripted mode hn emission
        rw [hnone] at he
        refine ⟨_, he, fun σ sink hm s => ?_⟩
        show resumed _ (runEmission sink emission n s) = some (runEmission sink emission n s)
        rcases hfs : runEmission sink emission n s with ⟨_ | m, s'⟩
        · rfl
        · obtain ⟨t, ht, -⟩ := he.returns hm hfs
          cases ht
      rwa [appendText_none] at this
    · rw [Option.map_eq_some_iff] at h
      obtain ⟨text', ht, rfl⟩ := h
      exact hstep _ fun n hn => (runEmission_scripted mode hn emission).resume fun m hm => ih hm ht

/-- The formatter does to every sink of a mode what one script does. -/
theorem formatDispatch_script {format : List UInt8} {args : α} {text : Option (List UInt8)}
    (h : formatText next arrays mode format args = some text) :
    ∃ script : Script, script.Renders 0 text ∧ ∀ σ (sink : Sink σ), sink.mode = mode → ∀ s,
      formatDispatch next arrays sink (some format) args s = some (script.run sink s) := by
  obtain ⟨f, ⟨script, hr, hrun⟩, hf⟩ := formatLoop_scripted (Nat.zero_le printfIntMax) h
  exact ⟨script, hr, fun σ sink hm s => (hf σ sink hm s).trans (congrArg some (hrun σ sink hm s))⟩

/-- The count that every sink which refuses nothing gives. -/
def countOf (text : Option (List UInt8)) : Option Nat :=
  text.bind fun t => if t.length ≤ printfIntMax then some t.length else none

theorem Script.Renders.count {script : Script} {text : Option (List UInt8)} (h : script.Renders 0 text) {σ : Type}
    (sink : Sink σ) (s : σ) : (finish sink script.ending s).1 = countOf text := by
  rcases h with ⟨t, rfl, hle, he, -⟩ | ⟨hover, e, he⟩
  · rw [Nat.zero_add] at hle he
    rw [he, countOf, Option.bind_some, if_pos hle]
    rfl
  · rw [he, finish, countOf]
    cases text with
    | none => rfl
    | some t =>
      have := hover t rfl
      rw [Option.bind_some, if_neg (by omega)]

end Machine

end MiniLibc.Stdio
