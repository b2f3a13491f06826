import MiniLibc.Internal.FloatSimulation
import MiniLibc.Stdio.Scan
/-!
# Scanning sources that read the same

Over two sources that give the same characters and take the last one back alike, a
call of the scanner returns the same, assigns the same, and leaves states that go on
reading the same.
-/
open MiniLibc.FloatParse MiniLibc.Memory MiniLibc.Wchar

namespace MiniLibc.Stdio

variable {σ τ : Type}

/-- The sources are of one kind, and reading keeps the relation of their states. -/
structure Simulation (A : Source σ) (B : Source τ) (R : σ → τ → Prop) : Prop
    extends FloatSimulation A.toFloatSource B.toFloatSource R where
  wide : A.wide = B.wide
  utf8 : A.utf8 = B.utf8
  setErrno {s : σ} {t : τ} (errno : Nat) : R s t → R (A.setErrno errno s) (B.setErrno errno t)

/-- The states of two scans, with the same arguments and memory. -/
structure Scan.Matches (R : σ → τ → Prop) (x : Scan σ) (y : Scan τ) : Prop where
  input : R x.input y.input
  args : x.args = y.args
  memory : x.memory = y.memory

/-- Two scans that have just read the character, if there is one. -/
structure Scan.Fresh (A : Source σ) (B : Source τ) (R : σ → τ → Prop) (c : Option Int) (x : Scan σ) (y : Scan τ) :
    Prop where
  input : FloatParse.Fresh A.toFloatSource B.toFloatSource R c x.input y.input
  args : x.args = y.args
  memory : x.memory = y.memory

/-- Two calls that end alike. -/
abbrev EndsAlike (R : σ → τ → Prop) (a : ScanStatus × Scan σ) (b : ScanStatus × Scan τ) : Prop := Agree (Scan.Matches R) a b

variable {A : Source σ} {B : Source τ} {R : σ → τ → Prop}

/-! ## Arguments -/

theorem Scan.Matches.nextWord {x : Scan σ} {y : Scan τ} (h : x.Matches R y) :
    Agree (Scan.Matches R) x.nextWord y.nextWord := by
  obtain ⟨s, args, memory⟩ := x
  obtain ⟨t, args', memory'⟩ := y
  obtain ⟨hr, rfl, rfl⟩ := h
  unfold Scan.nextWord
  split
  · exact ⟨rfl, hr, rfl, rfl⟩
  · exact ⟨rfl, hr, rfl, rfl⟩

/-- A store through the next argument. -/
theorem Scan.Matches.assign {x : Scan σ} {y : Scan τ} (h : x.Matches R y) (size value : Nat) :
    Agree (Scan.Matches R)
      (true, { x.nextWord.2 with memory := store x.nextWord.2.memory x.nextWord.1 size value })
      (true, { y.nextWord.2 with memory := store y.nextWord.2.memory y.nextWord.1 size value }) := by
  obtain ⟨hword, hm⟩ := h.nextWord
  refine ⟨rfl, hm.input, hm.args, ?_⟩
  dsimp only
  rw [hword, hm.memory]

namespace Simulation

variable (sim : Simulation A B R)
include sim

theorem failed {x : Scan σ} {y : Scan τ} (h : x.Matches R y) (error : Nat) :
    (x.setErrno A error).Matches R (y.setErrno B error) := ⟨sim.setErrno error h.input, h.args, h.memory⟩

theorem assignSigned {x : Scan σ} {y : Scan τ} (h : x.Matches R y) (length : FormatLength) (magnitude : Nat)
    (negative : Bool) :
    Agree (Scan.Matches R) (x.assignSigned A length magnitude negative) (y.assignSigned B length magnitude negative) := by
  unfold Scan.assignSigned
  dsimp only
  split
  · exact ⟨rfl, sim.failed h erange⟩
  · exact h.assign _ _

theorem assignUnsigned {x : Scan σ} {y : Scan τ} (h : x.Matches R y) (length : FormatLength) (magnitude : Nat)
    (negative : Bool) :
    Agree (Scan.Matches R) (x.assignUnsigned A length magnitude negative)
      (y.assignUnsigned B length magnitude negative) := by
  unfold Scan.assignUnsigned
  dsimp only
  split
  · exact ⟨rfl, sim.failed h erange⟩
  · exact h.assign _ _

theorem assignFloating {x : Scan σ} {y : Scan τ} (h : x.Matches R y) (length : FormatLength) (value : Binary64) :
    Agree (Scan.Matches R) (x.assignFloating A length value) (y.assignFloating B length value) := by
  unfold Scan.assignFloating
  dsimp only
  split
  · split
    · exact ⟨rfl, sim.failed h erange⟩
    · exact h.assign _ _
  · exact h.assign _ _

/-! ## Reading -/

theorem scanRelated {c : Option Int} {x : Scan σ} {y : Scan τ} (h : x.Fresh A B R c y) : x.Matches R y :=
  ⟨sim.related h.input, h.args, h.memory⟩

theorem scanGet {x : Scan σ} {y : Scan τ} (h : x.Matches R y) :
    ∃ c x1 y1, x.get A = (c, x1) ∧ y.get B = (c, y1) ∧ x1.Fresh A B R c y1 := by
  obtain ⟨c, s', t', hs, ht, hfresh⟩ := sim.getFresh h.input
  unfold Scan.get
  rw [hs, ht]
  exact ⟨c, _, _, rfl, rfl, hfresh, h.args, h.memory⟩

theorem scanUnget {c : Int} {x : Scan σ} {y : Scan τ} (h : x.Fresh A B R (some c) y) (status : ScanStatus) :
    EndsAlike R (x.unget A c status) (y.unget B c status) := by
  obtain ⟨ok, s', t', hs, ht, hr⟩ := sim.ungetFresh h.input
  unfold Scan.unget
  rw [hs, ht]
  exact ⟨rfl, hr, h.args, h.memory⟩

theorem skipInputSpace (fuel : Nat) {x : Scan σ} {y : Scan τ} (h : x.Matches R y) :
    Option.Rel (Agree (Scan.Matches R)) (x.skipInputSpace A fuel) (y.skipInputSpace B fuel) := by
  unfold Scan.skipInputSpace
  have hskip := sim.skipSpace isScanSpace fuel h.input
  generalize A.skipSpace isScanSpace fuel x.input = a at hskip ⊢
  generalize B.skipSpace isScanSpace fuel y.input = b at hskip ⊢
  cases hskip with
  | none => exact .none
  | some hab => exact .some ⟨hab.1, hab.2, h.args, h.memory⟩

/-- A conversion that skips white space first. -/
theorem skip (fuel : Nat) {x : Scan σ} {y : Scan τ} (h : x.Matches R y) {ρ ρ' : Type} {Q : ρ → ρ' → Prop}
    {f : Bool × Scan σ → ρ} {g : Bool × Scan τ → ρ'}
    (hfg : ∀ ok {x' : Scan σ} {y' : Scan τ}, x'.Matches R y' → Q (f (ok, x')) (g (ok, y'))) :
    Option.Rel Q ((x.skipInputSpace A fuel).map f) ((y.skipInputSpace B fuel).map g) := by
  have hskip := sim.skipInputSpace fuel h
  generalize x.skipInputSpace A fuel = a at hskip ⊢
  generalize y.skipInputSpace B fuel = b at hskip ⊢
  cases hskip with
  | none => exact .none
  | @some a b hab =>
    obtain ⟨ok, x'⟩ := a
    obtain ⟨_, y'⟩ := b
    obtain ⟨rfl, hm⟩ : ok = _ ∧ x'.Matches R y' := hab
    exact .some (hfg ok hm)

/-! ## Integers -/

theorem integerLoop (base : Nat) (remaining : Nat) (a : ScanNumber) {c : Int} {x : Scan σ} {y : Scan τ}
    (h : x.Fresh A B R (some c) y) :
    ∃ status a' x' y', Stdio.integerLoop A base a c x remaining = (status, a', x') ∧
      Stdio.integerLoop B base a c y remaining = (status, a', y') ∧ x'.Matches R y' := by
  induction remaining generalizing a c x y with
  | zero => exact ⟨_, _, _, _, rfl, rfl, sim.scanRelated h⟩
  | succ remaining ih =>
    unfold Stdio.integerLoop
    cases (scanDigitValue c).filter (· < base) with
    | none =>
      obtain ⟨hstatus, hm⟩ := sim.scanUnget h .success
      exact ⟨_, _, _, _, rfl, Prod.ext hstatus.symm rfl, hm⟩
    | some digit =>
      dsimp only
      split
      · exact ⟨_, _, _, _, rfl, rfl, sim.scanRelated h⟩
      · obtain ⟨c', x1, y1, hx, hy, hfresh⟩ := sim.scanGet (sim.scanRelated h)
        rw [hx, hy]
        cases c' with
        | none => exact ⟨_, _, _, _, rfl, rfl, sim.scanRelated hfresh⟩
        | some c' => exact ih (a.accumulate base digit) hfresh

theorem integerDone (spec : ScanSpec) (signed negative : Bool) (a : ScanNumber) {x : Scan σ} {y : Scan τ}
    (h : x.Matches R y) :
    EndsAlike R (Stdio.integerDone A spec signed negative a x) (Stdio.integerDone B spec signed negative a y) := by
  unfold Stdio.integerDone
  split
  · exact ⟨rfl, h⟩
  split
  · exact ⟨rfl, h⟩
  split
  · exact ⟨rfl, sim.failed h erange⟩
  · have hassign : Agree (Scan.Matches R)
        (if signed then x.assignSigned A spec.length a.magnitude negative
          else x.assignUnsigned A spec.length a.magnitude negative)
        (if signed then y.assignSigned B spec.length a.magnitude negative
          else y.assignUnsigned B spec.length a.magnitude negative) := by
      split
      · exact sim.assignSigned h spec.length a.magnitude negative
      · exact sim.assignUnsigned h spec.length a.magnitude negative
    exact ⟨congrArg (if · = true then ScanStatus.success else .rangeFail) hassign.1, hassign.2⟩

theorem integerDigits (spec : ScanSpec) (requestedBase : Nat) (signed negative : Bool) {c : Int} {x : Scan σ}
    {y : Scan τ} (remaining : Nat) (h : x.Fresh A B R (some c) y) :
    EndsAlike R (Stdio.integerDigits A spec requestedBase signed negative c x remaining)
      (Stdio.integerDigits B spec requestedBase signed negative c y remaining) := by
  have hfinish : ∀ base a {c : Int} {x' : Scan σ} {y' : Scan τ} remaining, x'.Fresh A B R (some c) y' → EndsAlike R
      (integerEnd A spec signed negative (Stdio.integerLoop A base a c x' remaining))
      (integerEnd B spec signed negative (Stdio.integerLoop B base a c y' remaining)) := by
    intro base a c x' y' remaining hfresh
    obtain ⟨status, a', x1, y1, hx, hy, hm⟩ := sim.integerLoop base remaining a hfresh
    rw [hx, hy]
    cases status with
    | success => exact sim.integerDone spec signed negative a' hm
    | _ => exact ⟨rfl, hm⟩
  unfold Stdio.integerDigits
  dsimp only
  split
  · obtain ⟨next, x1, y1, hx, hy, hfresh⟩ := sim.scanGet (sim.scanRelated h)
    rw [hx, hy]
    cases next with
    | none => exact sim.integerDone spec signed negative _ (sim.scanRelated hfresh)
    | some next =>
      dsimp only
      split
      · split
        · exact ⟨rfl, sim.scanRelated hfresh⟩
        · obtain ⟨c', x2, y2, hx2, hy2, hfresh2⟩ := sim.scanGet (sim.scanRelated hfresh)
          rw [hx2, hy2]
          cases c' with
          | none => exact ⟨rfl, sim.scanRelated hfresh2⟩
          | some c' => exact hfinish _ _ _ hfresh2
      · exact hfinish _ _ _ hfresh
  · exact hfinish _ _ _ h

theorem scanInteger (fuel : Nat) (spec : ScanSpec) (requestedBase : Nat) (signed : Bool) {x : Scan σ} {y : Scan τ}
    (h : x.Matches R y) :
    Option.Rel (EndsAlike R) (Stdio.scanInteger A fuel spec requestedBase signed x)
      (Stdio.scanInteger B fuel spec requestedBase signed y) := by
  refine sim.skip fuel h fun ok {x' y'} hm => ?_
  cases ok with
  | false => exact ⟨rfl, hm⟩
  | true =>
    obtain ⟨c, x1, y1, hx, hy, hfresh⟩ := sim.scanGet hm
    dsimp only
    rw [hx, hy]
    cases c with
    | none => exact ⟨rfl, sim.scanRelated hfresh⟩
    | some c =>
      dsimp only
      split
      · split
        · exact ⟨rfl, sim.scanRelated hfresh⟩
        · obtain ⟨c', x2, y2, hx2, hy2, hfresh2⟩ := sim.scanGet (sim.scanRelated hfresh)
          rw [hx2, hy2]
          cases c' with
          | none => exact ⟨rfl, sim.scanRelated hfresh2⟩
          | some c' => exact sim.integerDigits spec requestedBase signed _ _ hfresh2
      · exact sim.integerDigits spec requestedBase signed false _ hfresh

/-! ## Floating numbers -/

theorem floatingDone (spec : ScanSpec) {p : Read σ} {p' : Read τ} (hp : p.Matches R p') {x : Scan σ} {y : Scan τ}
    (h : x.Matches R y) : EndsAlike R (Stdio.floatingDone A spec p x) (Stdio.floatingDone B spec p' y) := by
  have hm : Scan.Matches R { x with input := p.reader.input } { y with input := p'.reader.input } :=
    ⟨hp.reader.input, h.args, h.memory⟩
  unfold Stdio.floatingDone
  dsimp only
  rw [← hp.status, ← hp.result]
  split
  · exact ⟨rfl, sim.failed hm erange⟩
  split
  · exact ⟨rfl, hm⟩
  · have hassign := sim.assignFloating hm spec.length (p.result.getD Binary64.zero)
    exact ⟨congrArg (if · = true then ScanStatus.success else .rangeFail) hassign.1, hassign.2⟩

theorem scanFloating (fuel : Nat) (spec : ScanSpec) {x : Scan σ} {y : Scan τ} (h : x.Matches R y) :
    Option.Rel (EndsAlike R) (Stdio.scanFloating A fuel spec x) (Stdio.scanFloating B fuel spec y) := by
  unfold Stdio.scanFloating
  have hparse := sim.parse fuel (spec.width.getD scanWidthMax) (!spec.suppress) h.input
  generalize A.parse fuel (spec.width.getD scanWidthMax) (!spec.suppress) x.input = a at hparse ⊢
  generalize B.parse fuel (spec.width.getD scanWidthMax) (!spec.suppress) y.input = b at hparse ⊢
  cases hparse with
  | none => exact .none
  | some hp => exact .some (sim.floatingDone spec hp h)

/-! ## Characters -/

theorem readWideLoop (fuel : Nat) (c : Int) (state : MbState) {x : Scan σ} {y : Scan τ} (h : x.Matches R y) :
    ∃ wc state' x' y', Stdio.readWideLoop A fuel c state x = (wc, state', x') ∧
      Stdio.readWideLoop B fuel c state y = (wc, state', y') ∧ x'.Matches R y' := by
  induction fuel generalizing c state x y with
  | zero => exact ⟨_, _, _, _, rfl, rfl, h⟩
  | succ fuel ih =>
    unfold Stdio.readWideLoop
    rw [← sim.utf8]
    obtain ⟨result, wc, next⟩ := mbrtowcMode (some [unsignedChar c]) state A.utf8
    cases result with
    | eilseq => exact ⟨_, _, _, _, rfl, rfl, sim.failed h eilseq⟩
    | length n => exact ⟨_, _, _, _, rfl, rfl, h⟩
    | incomplete =>
      dsimp only
      obtain ⟨c', x1, y1, hx, hy, hfresh⟩ := sim.scanGet h
      rw [hx, hy]
      cases c' with
      | none => exact ⟨_, _, _, _, rfl, rfl, sim.failed (sim.scanRelated hfresh) eilseq⟩
      | some c' => exact ih c' next (sim.scanRelated hfresh)

theorem readWideCharacter (c : Int) (state : MbState) {x : Scan σ} {y : Scan τ} (h : x.Matches R y) :
    ∃ wc state' x' y', Stdio.readWideCharacter A c state x = (wc, state', x') ∧
      Stdio.readWideCharacter B c state y = (wc, state', y') ∧ x'.Matches R y' := by
  unfold Stdio.readWideCharacter
  rw [← sim.wide]
  split
  · exact ⟨_, _, _, _, rfl, rfl, h⟩
  · exact sim.readWideLoop 4 c state h

theorem storeCharacter (length : FormatLength) (q : Sequence) (c : Int) {x : Scan σ} {y : Scan τ} (h : x.Matches R y) :
    ∃ ok q' x' y', Stdio.storeCharacter A length q c x = (ok, q', x') ∧
      Stdio.storeCharacter B length q c y = (ok, q', y') ∧ x'.Matches R y' := by
  unfold Stdio.storeCharacter
  rw [← sim.wide, ← sim.utf8, ← h.memory]
  obtain ⟨wc, state, x1, y1, hx, hy, hm⟩ := sim.readWideCharacter c q.state h
  rw [hx, hy]
  split
  · split
    · exact ⟨_, _, _, _, rfl, rfl, hm⟩
    · exact ⟨_, _, _, _, rfl, rfl, h⟩
  split
  · cases wc with
    | none => exact ⟨_, _, _, _, rfl, rfl, hm⟩
    | some wc =>
      dsimp only
      rw [← hm.memory]
      exact ⟨_, _, _, _, rfl, rfl, hm.input, hm.args, rfl⟩
  split
  · obtain ⟨_ | bytes, state⟩ := wcrtombMode c q.state A.utf8
    · exact ⟨_, _, _, _, rfl, rfl, sim.failed h eilseq⟩
    · exact ⟨_, _, _, _, rfl, rfl, h.input, h.args, rfl⟩
  · exact ⟨_, _, _, _, rfl, rfl, h.input, h.args, rfl⟩

omit sim in
theorem terminate (length : FormatLength) (q : Sequence) {x : Scan σ} {y : Scan τ} (h : x.Matches R y) :
    (terminateCharacterSequence length q x).Matches R (terminateCharacterSequence length q y) := by
  unfold terminateCharacterSequence
  rw [← h.memory]
  split
  · exact ⟨h.input, h.args, rfl⟩
  · exact ⟨h.input, h.args, rfl⟩

omit sim in
theorem destination (spec : ScanSpec) {x : Scan σ} {y : Scan τ} (h : x.Matches R y) :
    Agree (Scan.Matches R) (Stdio.destination spec x) (Stdio.destination spec y) := by
  unfold Stdio.destination
  split
  · exact ⟨rfl, h⟩
  · exact h.nextWord

theorem sequenceLoop (length : FormatLength) (accepts : Int → Option Bool) (remaining : Nat) (q : Sequence) (c : Int)
    {x : Scan σ} {y : Scan τ} (h : x.Matches R y) :
    ∃ status q' x' y', Stdio.sequenceLoop A length accepts q c x remaining = (status, q', x') ∧
      Stdio.sequenceLoop B length accepts q c y remaining = (status, q', y') ∧ x'.Matches R y' := by
  induction remaining generalizing q c x y with
  | zero => exact ⟨_, _, _, _, rfl, rfl, h⟩
  | succ remaining ih =>
    unfold Stdio.sequenceLoop
    obtain ⟨ok, q', x1, y1, hx, hy, hm⟩ := sim.storeCharacter length q c h
    rw [hx, hy]
    cases ok with
    | false => exact ⟨_, _, _, _, rfl, rfl, hm⟩
    | true =>
      dsimp only
      split
      · exact ⟨_, _, _, _, rfl, rfl, hm⟩
      obtain ⟨c', x2, y2, hx2, hy2, hfresh⟩ := sim.scanGet hm
      rw [hx2, hy2]
      cases c' with
      | none => exact ⟨_, _, _, _, rfl, rfl, sim.scanRelated hfresh⟩
      | some c' =>
        dsimp only
        match accepts c' with
        | none => exact ⟨_, _, _, _, rfl, rfl, sim.failed (sim.scanRelated hfresh) eilseq⟩
        | some true => exact ih q' c' (sim.scanRelated hfresh)
        | some false =>
          obtain ⟨hstatus, hm'⟩ := sim.scanUnget hfresh .success
          exact ⟨_, _, _, _, rfl, Prod.ext hstatus.symm rfl, hm'⟩

theorem scanSequence (spec : ScanSpec) (accepts : Int → Option Bool) {x : Scan σ} {y : Scan τ} (h : x.Matches R y) :
    EndsAlike R (Stdio.scanSequence A spec accepts x) (Stdio.scanSequence B spec accepts y) := by
  unfold Stdio.scanSequence
  obtain ⟨c, x1, y1, hx, hy, hfresh⟩ := sim.scanGet h
  rw [hx, hy]
  cases c with
  | none => exact ⟨rfl, sim.scanRelated hfresh⟩
  | some c =>
    dsimp only
    match accepts c with
    | none => exact ⟨rfl, sim.failed (sim.scanRelated hfresh) eilseq⟩
    | some false => exact sim.scanUnget hfresh .matchFail
    | some true =>
      obtain ⟨haddress, hm⟩ := destination spec (sim.scanRelated hfresh)
      dsimp only
      rw [← haddress]
      obtain ⟨status, q, x2, y2, hx2, hy2, hm2⟩ := sim.sequenceLoop spec.length accepts
        (spec.width.getD scanWidthMax) ⟨(Stdio.destination spec x1).1, 0, {}⟩ c hm
      rw [hx2, hy2]
      cases status with
      | success =>
        refine ⟨rfl, ?_⟩
        dsimp only
        split
        · exact hm2
        · exact terminate spec.length q hm2
      | _ => exact ⟨rfl, hm2⟩

theorem scanString (fuel : Nat) (spec : ScanSpec) {x : Scan σ} {y : Scan τ} (h : x.Matches R y) :
    Option.Rel (EndsAlike R) (Stdio.scanString A fuel spec x) (Stdio.scanString B fuel spec y) := by
  refine sim.skip fuel h fun ok {x' y'} hm => ?_
  cases ok with
  | false => exact ⟨rfl, hm⟩
  | true => exact sim.scanSequence spec _ hm

theorem scanScanset (spec : ScanSpec) {x : Scan σ} {y : Scan τ} (h : x.Matches R y) :
    EndsAlike R (Stdio.scanScanset A spec x) (Stdio.scanScanset B spec y) := by
  have hcontains : scansetContains A spec = scansetContains B spec := by
    funext c
    unfold scansetContains
    rw [sim.wide, sim.utf8]
  unfold Stdio.scanScanset
  rw [hcontains]
  exact sim.scanSequence spec _ h

theorem charactersLoop (length : FormatLength) (width : Nat) (q : Sequence) {x : Scan σ} {y : Scan τ}
    (h : x.Matches R y) :
    EndsAlike R (Stdio.charactersLoop A length q x width) (Stdio.charactersLoop B length q y width) := by
  induction width generalizing q x y with
  | zero => exact ⟨rfl, h⟩
  | succ width ih =>
    unfold Stdio.charactersLoop
    obtain ⟨c, x1, y1, hx, hy, hfresh⟩ := sim.scanGet h
    rw [hx, hy]
    cases c with
    | none => exact ⟨rfl, sim.scanRelated hfresh⟩
    | some c =>
      dsimp only
      obtain ⟨ok, q', x2, y2, hx2, hy2, hm⟩ := sim.storeCharacter length q c (sim.scanRelated hfresh)
      rw [hx2, hy2]
      cases ok with
      | false => exact ⟨rfl, hm⟩
      | true => exact ih q' hm

theorem scanCharacters (spec : ScanSpec) {x : Scan σ} {y : Scan τ} (h : x.Matches R y) :
    EndsAlike R (Stdio.scanCharacters A spec x) (Stdio.scanCharacters B spec y) := by
  obtain ⟨haddress, hm⟩ := destination spec h
  unfold Stdio.scanCharacters
  dsimp only
  rw [← haddress]
  exact sim.charactersLoop spec.length _ _ hm

/-! ## Directives -/

theorem matchLiteral (expected : Int) {x : Scan σ} {y : Scan τ} (h : x.Matches R y) :
    EndsAlike R (Stdio.matchLiteral A expected x) (Stdio.matchLiteral B expected y) := by
  unfold Stdio.matchLiteral
  obtain ⟨c, x1, y1, hx, hy, hfresh⟩ := sim.scanGet h
  rw [hx, hy]
  cases c with
  | none => exact ⟨rfl, sim.scanRelated hfresh⟩
  | some c =>
    dsimp only
    split
    · exact ⟨rfl, sim.scanRelated hfresh⟩
    · exact sim.scanUnget hfresh .matchFail

theorem scanConversion (fuel : Nat) (spec : ScanSpec) {x : Scan σ} {y : Scan τ} (h : x.Matches R y) :
    Option.Rel (EndsAlike R) (Stdio.scanConversion A fuel spec x) (Stdio.scanConversion B fuel spec y) := by
  unfold Stdio.scanConversion
  split
  · exact .some (sim.matchLiteral _ h)
  split
  · exact sim.scanInteger fuel spec 10 true h
  split
  · exact sim.scanInteger fuel spec 0 true h
  split
  · exact sim.scanInteger fuel spec 10 false h
  split
  · exact sim.scanInteger fuel spec 8 false h
  split
  · exact sim.scanInteger fuel spec 16 false h
  split
  · exact sim.scanFloating fuel spec h
  split
  · exact sim.scanString fuel spec h
  split
  · exact .some (sim.scanScanset spec h)
  · exact .some (sim.scanCharacters spec h)

end Simulation

/-- Two rounds that end alike. -/
inductive Rounds (R : σ → τ → Prop) : Round σ → Round τ → Prop where
  | returned (value : Int) {x : Scan σ} {y : Scan τ} : x.Matches R y → Rounds R (.returned value x) (.returned value y)
  | next (format : List UInt8) (assignments : Nat) {x : Scan σ} {y : Scan τ} : x.Matches R y →
      Rounds R (.next format assignments x) (.next format assignments y)

theorem endDirective_alike (status : ScanStatus) (format : List UInt8) (assignments counted : Nat) {x : Scan σ}
    {y : Scan τ} (h : x.Matches R y) :
    Rounds R (endDirective status format assignments counted x) (endDirective status format assignments counted y) := by
  unfold endDirective
  split
  · exact .next _ _ h
  · exact .returned _ h

namespace Simulation

variable (sim : Simulation A B R)
include sim

theorem scanRound (fuel : Nat) (format : List UInt8) (assignments : Nat) {x : Scan σ} {y : Scan τ} (h : x.Matches R y) :
    Option.Rel (Rounds R) (Stdio.scanRound A fuel format assignments x) (Stdio.scanRound B fuel format assignments y) := by
  unfold Stdio.scanRound
  split
  · exact sim.skip fuel h fun ok {x' y'} hm => endDirective_alike _ _ _ _ hm
  split
  · rw [← sim.wide, ← sim.utf8]
    split
    · obtain _ | ⟨expected, rest⟩ := decodeFormatLiteral A.utf8 format
      · exact .some (.returned _ (sim.failed h eilseq))
      · obtain ⟨hstatus, hm⟩ := sim.matchLiteral expected h
        dsimp only
        rw [← hstatus]
        exact .some (endDirective_alike _ _ _ _ hm)
    · obtain ⟨hstatus, hm⟩ := sim.matchLiteral (byteAt format).toNat h
      dsimp only
      rw [← hstatus]
      exact .some (endDirective_alike _ _ _ _ hm)
  · obtain _ | ⟨spec, rest⟩ := parseScanSpec (format.drop 1)
    · exact .some (.returned _ (sim.failed h einval))
    · dsimp only
      have hrun := sim.scanConversion fuel spec h
      generalize Stdio.scanConversion A fuel spec x = a at hrun ⊢
      generalize Stdio.scanConversion B fuel spec y = b at hrun ⊢
      cases hrun with
      | none => exact .none
      | @some a b hab =>
        obtain ⟨status, x'⟩ := a
        obtain ⟨_, y'⟩ := b
        obtain ⟨rfl, hm⟩ : status = _ ∧ x'.Matches R y' := hab
        exact .some (endDirective_alike _ _ _ _ hm)

theorem scanLoop (fuel rounds : Nat) (format : List UInt8) (assignments : Nat) {x : Scan σ} {y : Scan τ}
    (h : x.Matches R y) :
    Option.Rel (Agree (Scan.Matches R)) (Stdio.scanLoop A fuel rounds format assignments x)
      (Stdio.scanLoop B fuel rounds format assignments y) := by
  induction rounds generalizing format assignments x y with
  | zero => exact .some ⟨rfl, h⟩
  | succ rounds ih =>
    unfold Stdio.scanLoop
    split
    · exact .some ⟨rfl, h⟩
    have hround := sim.scanRound fuel format assignments h
    generalize Stdio.scanRound A fuel format assignments x = a at hround ⊢
    generalize Stdio.scanRound B fuel format assignments y = b at hround ⊢
    cases hround with
    | none => exact .none
    | some hab =>
      cases hab with
      | returned value hm => exact .some ⟨rfl, hm⟩
      | next format assignments hm => exact ih format assignments hm

/-- A call of the scanner over both sources. -/
theorem scanDispatch (fuel : Nat) (format : List UInt8) {x : Scan σ} {y : Scan τ} (h : x.Matches R y) :
    Option.Rel (Agree (Scan.Matches R)) (Stdio.scanDispatch A fuel format x) (Stdio.scanDispatch B fuel format y) :=
  sim.scanLoop fuel format.length format 0 h

end Simulation

end MiniLibc.Stdio
