import MiniLibc.Stdio.Scan
/-!
# Assignment suppression

A conversion with `*` reads what it reads without: wherever the assigning conversion
succeeds, the suppressed one does, on the same input, and leaves the arguments and the
memory alone.
-/
open MiniLibc.FloatParse MiniLibc.Memory MiniLibc.Wchar

namespace MiniLibc.Stdio

/-- The specification with `*`. -/
def ScanSpec.suppressed (spec : ScanSpec) : ScanSpec := { spec with suppress := true }

variable {σ : Type}

/-- The first run succeeds only where the second one does, which has read the same and
left everything else as in `x`. -/
def Neutral (x : Scan σ) (r r' : ScanStatus × Scan σ) : Prop :=
  r.1 = .success → r' = (.success, { x with input := r.2.input })

/-- Only the input has moved. -/
def OnlyReads (x x' : Scan σ) : Prop := x' = { x with input := x'.input }

theorem OnlyReads.refl (x : Scan σ) : OnlyReads x x := rfl

theorem OnlyReads.trans {x x' x'' : Scan σ} (h : OnlyReads x x') (h' : OnlyReads x' x'') : OnlyReads x x'' := by
  obtain ⟨input, args, memory⟩ := x'
  cases h
  exact h'

/-- What was read before does not count. -/
theorem Neutral.behind {x x' : Scan σ} {r r' : ScanStatus × Scan σ} (hx : OnlyReads x x') (h : Neutral x' r r') :
    Neutral x r r' := by
  intro hs
  rw [h hs, hx]

/-- Two runs that fail together. -/
theorem Neutral.failed {x : Scan σ} {r r' : ScanStatus × Scan σ} (h : r.1 ≠ .success) : Neutral x r r' :=
  fun hs => absurd hs h

variable (source : Source σ)

/-! ## Integers -/

theorem assignSigned_input {x : Scan σ} {length : FormatLength} {magnitude : Nat} {negative : Bool}
    (h : (x.assignSigned source length magnitude negative).1 = true) :
    (x.assignSigned source length magnitude negative).2.input = x.input := by
  unfold Scan.assignSigned at h ⊢
  dsimp only at h ⊢
  split at h
  · cases h
  · rename_i hin
    rw [if_neg hin]
    exact nextWord_input x

theorem assignUnsigned_input {x : Scan σ} {length : FormatLength} {magnitude : Nat} {negative : Bool}
    (h : (x.assignUnsigned source length magnitude negative).1 = true) :
    (x.assignUnsigned source length magnitude negative).2.input = x.input := by
  unfold Scan.assignUnsigned at h ⊢
  dsimp only at h ⊢
  split at h
  · cases h
  · rename_i hin
    rw [if_neg hin]
    exact nextWord_input x

theorem integerDone_neutral (spec : ScanSpec) (signed negative : Bool) (a : ScanNumber) (x : Scan σ) :
    Neutral x (integerDone source spec signed negative a x)
      (integerDone source spec.suppressed signed negative a x) := by
  intro h
  unfold integerDone at h ⊢
  split at h
  · cases h
  rename_i hdigits
  rw [if_neg hdigits, if_pos (show spec.suppressed.suppress = true from rfl)]
  split at h
  · rename_i hs
    rw [if_neg hdigits, if_pos hs]
  rename_i hs
  split at h
  · cases h
  rename_i hover
  rw [if_neg hdigits, if_neg hs, if_neg hover]
  dsimp only at h ⊢
  have hinput : ∀ {assigned : Bool × Scan σ}, (if assigned.1 = true then ScanStatus.success else .rangeFail) = .success →
      (assigned.1 = true → assigned.2.input = x.input) → assigned.2.input = x.input := by
    intro assigned hsuccess hkept
    by_cases ha : assigned.1 = true
    · exact hkept ha
    · rw [if_neg ha] at hsuccess
      cases hsuccess
  cases signed with
  | true => rw [hinput h (assignSigned_input source)]
  | false => rw [hinput h (assignUnsigned_input source)]

theorem get_reading (x : Scan σ) : OnlyReads x (x.get source).2 := rfl

theorem unget_reading (x : Scan σ) (c : Int) (status : ScanStatus) : OnlyReads x (x.unget source c status).2 := rfl

theorem skipInputSpace_reading {fuel : Nat} {x x' : Scan σ} {ok : Bool}
    (h : x.skipInputSpace source fuel = some (ok, x')) : OnlyReads x x' := by
  unfold Scan.skipInputSpace at h
  obtain ⟨⟨ok', input⟩, -, h'⟩ := Option.map_eq_some_iff.1 h
  cases h'
  rfl

/-- The loop over the digits only reads. -/
theorem integerLoop_reading (base : Nat) (a : ScanNumber) (c : Int) (x : Scan σ) (remaining : Nat) :
    OnlyReads x (integerLoop source base a c x remaining).2.2 := by
  induction remaining generalizing a c x with
  | zero => exact .refl x
  | succ remaining ih =>
    unfold integerLoop
    cases (scanDigitValue c).filter (· < base) with
    | none => exact unget_reading source x c .success
    | some digit =>
      dsimp only
      split
      · exact .refl x
      · have hget := get_reading source x
        generalize x.get source = r at hget ⊢
        obtain ⟨_ | c', x1⟩ := r
        · exact hget
        · exact hget.trans (ih (a.accumulate base digit) c' x1)

theorem integerDigits_neutral (spec : ScanSpec) (requestedBase : Nat) (signed negative : Bool) (c : Int) (x : Scan σ)
    (remaining : Nat) :
    Neutral x (integerDigits source spec requestedBase signed negative c x remaining)
      (integerDigits source spec.suppressed requestedBase signed negative c x remaining) := by
  have hfinish : ∀ {x' : Scan σ}, OnlyReads x x' → ∀ base a c remaining, Neutral x
      (integerEnd source spec signed negative (integerLoop source base a c x' remaining))
      (integerEnd source spec.suppressed signed negative (integerLoop source base a c x' remaining)) := by
    intro x' hx base a c remaining
    have hloop := hx.trans (integerLoop_reading source base a c x' remaining)
    generalize integerLoop source base a c x' remaining = r at hloop ⊢
    obtain ⟨status, a', x1⟩ := r
    cases status with
    | success => exact (integerDone_neutral source spec signed negative a' x1).behind hloop
    | _ => exact .failed (by rintro ⟨⟩)
  unfold integerDigits
  dsimp only
  split
  · have hget := get_reading source x
    generalize x.get source = r at hget ⊢
    obtain ⟨_ | next, x1⟩ := r
    · exact (integerDone_neutral source spec signed negative _ x1).behind hget
    · dsimp only
      split
      · split
        · exact .failed (by rintro ⟨⟩)
        · have hget' := hget.trans (get_reading source x1)
          generalize x1.get source = r at hget' ⊢
          obtain ⟨_ | c', x2⟩ := r
          · exact .failed (by rintro ⟨⟩)
          · exact hfinish hget' _ _ _ _
      · exact hfinish hget _ _ _ _
  · exact hfinish (.refl x) _ _ _ _

/-- What a conversion that ends and its suppressed form do. -/
def NeutralRun (x : Scan σ) (r r' : Option (ScanStatus × Scan σ)) : Prop :=
  ∀ a, r = some a → ∃ a', r' = some a' ∧ Neutral x a a'

/-- A conversion that skips white space first. -/
theorem NeutralRun.skip {fuel : Nat} {x : Scan σ} {f g : Bool × Scan σ → ScanStatus × Scan σ}
    (hfail : ∀ x', (f (false, x')).1 ≠ .success) (h : ∀ x', Neutral x' (f (true, x')) (g (true, x'))) :
    NeutralRun x ((x.skipInputSpace source fuel).map f) ((x.skipInputSpace source fuel).map g) := by
  intro a ha
  obtain ⟨⟨ok, x'⟩, hskip, rfl⟩ := Option.map_eq_some_iff.1 ha
  rw [hskip]
  refine ⟨g (ok, x'), rfl, ?_⟩
  cases ok with
  | false => exact .failed (hfail x')
  | true => exact (h x').behind (skipInputSpace_reading source hskip)

theorem scanInteger_neutral (fuel : Nat) (spec : ScanSpec) (requestedBase : Nat) (signed : Bool) (x : Scan σ) :
    NeutralRun x (scanInteger source fuel spec requestedBase signed x)
      (scanInteger source fuel spec.suppressed requestedBase signed x) := by
  refine .skip source (fun _ => nofun) fun x' => ?_
  have hget := get_reading source x'
  dsimp only
  generalize x'.get source = r at hget ⊢
  obtain ⟨_ | c, x1⟩ := r
  · exact .failed nofun
  · dsimp only
    split
    · by_cases hw : spec.width.getD scanWidthMax = 1
      · rw [if_pos hw]
        exact .failed nofun
      · rw [if_neg hw, if_neg (show ¬spec.suppressed.width.getD scanWidthMax = 1 from hw)]
        have hget' := hget.trans (get_reading source x1)
        generalize x1.get source = r at hget' ⊢
        obtain ⟨_ | c', x2⟩ := r
        · exact .failed nofun
        · exact (integerDigits_neutral source spec requestedBase signed _ c' x2 _).behind hget'
    · exact (integerDigits_neutral source spec requestedBase signed false c x1 _).behind hget

/-! ## Floating numbers -/

/-- The reader of a parse that converts, and of one that does not. -/
structure Skimmed (a b : Read σ) : Prop where
  reader : b.reader = a.reader
  success : a.status = .success → b.status = .success

theorem radix_skimmed (radix : Radix) (negative : Bool) (c : Option Int) (r : Reader σ) :
    Skimmed (radix.read source.toFloatSource negative true c r) (radix.read source.toFloatSource negative false c r) := by
  unfold Radix.read
  obtain ⟨m, c', r1⟩ := r.loop source.toFloatSource radix.step {} c
  dsimp only
  split
  · exact ⟨rfl, id⟩
  · split
    · obtain ⟨status, e, r2⟩ := r1.parseExponent source.toFloatSource
      dsimp only
      split
      · exact ⟨rfl, id⟩
      · exact ⟨rfl, fun _ => rfl⟩
    · split
      · exact ⟨rfl, id⟩
      · exact ⟨rfl, fun _ => rfl⟩

theorem special_skimmed (value : Binary64) (last : Status × Reader σ) :
    Skimmed (specialRead true value last) (specialRead false value last) := ⟨rfl, id⟩

theorem parseInfinity_skimmed (negative : Bool) (r : Reader σ) :
    Skimmed (r.parseInfinity source.toFloatSource negative true) (r.parseInfinity source.toFloatSource negative false) := by
  unfold Reader.parseInfinity
  obtain ⟨status, r1⟩ := r.matchRequired source.toFloatSource ['n', 'f']
  cases status with
  | success =>
    dsimp only
    obtain ⟨_ | c, r2⟩ := r1.get source.toFloatSource
    · exact special_skimmed _ _
    · dsimp only
      split
      · exact special_skimmed _ _
      · exact special_skimmed _ _
  | _ => exact ⟨rfl, id⟩

theorem parseNan_skimmed (negative : Bool) (r : Reader σ) :
    Skimmed (r.parseNan source.toFloatSource negative true) (r.parseNan source.toFloatSource negative false) := by
  unfold Reader.parseNan
  obtain ⟨status, r1⟩ := r.matchRequired source.toFloatSource ['a', 'n']
  cases status with
  | success =>
    dsimp only
    obtain ⟨_ | c, r2⟩ := r1.get source.toFloatSource
    · exact special_skimmed _ _
    · dsimp only
      split
      · split
        · exact special_skimmed _ _
        · exact special_skimmed _ _
      · exact special_skimmed _ _
  | _ => exact ⟨rfl, id⟩

theorem parseUnsigned_skimmed (negative : Bool) (c : Int) (r : Reader σ) :
    Skimmed (r.parseUnsigned source.toFloatSource negative true c)
      (r.parseUnsigned source.toFloatSource negative false c) := by
  unfold Reader.parseUnsigned
  split
  · exact parseInfinity_skimmed source negative r
  split
  · exact parseNan_skimmed source negative r
  split
  · dsimp only
    split
    · exact radix_skimmed source hex negative _ _
    · split
      · exact radix_skimmed source decimal negative _ _
      · exact ⟨rfl, id⟩
  · exact radix_skimmed source decimal negative _ _

theorem parseSigned_skimmed (r : Reader σ) :
    Skimmed (r.parseSigned source.toFloatSource true) (r.parseSigned source.toFloatSource false) := by
  unfold Reader.parseSigned
  obtain ⟨_ | c, r1⟩ := r.get source.toFloatSource
  · exact ⟨rfl, id⟩
  · dsimp only
    split
    · obtain ⟨_ | c', r2⟩ := r1.get source.toFloatSource
      · exact ⟨rfl, id⟩
      · exact parseUnsigned_skimmed source _ c' r2
    · exact parseUnsigned_skimmed source false c r1

theorem assignFloating_input {x : Scan σ} {length : FormatLength} {value : Binary64}
    (h : (x.assignFloating source length value).1 = true) : (x.assignFloating source length value).2.input = x.input := by
  unfold Scan.assignFloating at h ⊢
  dsimp only at h ⊢
  split
  · split
    · rename_i hnone hrange
      rw [if_pos hnone, if_pos hrange] at h
      cases h
    · exact nextWord_input x
  · exact nextWord_input x

theorem floatingDone_neutral {spec : ScanSpec} (hs : spec.suppress = false) (x : Scan σ) {a b : Read σ}
    (h : Skimmed a b) : Neutral x (floatingDone source spec a x) (floatingDone source spec.suppressed b x) := by
  intro hok
  unfold floatingDone at hok ⊢
  dsimp only at hok ⊢
  by_cases hrange : a.status = .rangeFail
  · rw [if_pos hrange] at hok
    cases hok
  rw [if_neg hrange] at hok ⊢
  by_cases hstatus : a.status = .success
  · have hgo : ¬(a.status ≠ .success ∨ spec.suppress = true) := by simp [hstatus, hs]
    have hstop : b.status ≠ .success ∨ spec.suppressed.suppress = true := .inr rfl
    have hrange' : ¬b.status = .rangeFail := by
      rw [h.success hstatus]
      nofun
    rw [if_neg hgo] at hok ⊢
    rw [if_neg hrange', if_pos hstop, h.success hstatus, h.reader]
    by_cases hassigned : (Scan.assignFloating source { x with input := a.reader.input } spec.length
        (a.result.getD Binary64.zero)).1 = true
    · rw [assignFloating_input source hassigned]
      rfl
    · rw [if_neg hassigned] at hok
      cases hok
  · rw [if_pos (.inl hstatus)] at hok
    revert hok hstatus
    cases a.status <;> simp [floatStatus]

theorem scanFloating_neutral (fuel : Nat) {spec : ScanSpec} (hs : spec.suppress = false) (x : Scan σ) :
    NeutralRun x (scanFloating source fuel spec x) (scanFloating source fuel spec.suppressed x) := by
  intro a ha
  have hs' : spec.suppressed.suppress = true := rfl
  unfold scanFloating FloatSource.parse at ha ⊢
  rw [hs] at ha
  rw [hs']
  obtain ⟨parsed, hparsed, rfl⟩ := Option.map_eq_some_iff.1 ha
  obtain ⟨⟨ok, s⟩, hskip, rfl⟩ := Option.map_eq_some_iff.1 hparsed
  rw [hskip]
  refine ⟨_, rfl, ?_⟩
  cases ok with
  | false => exact .failed nofun
  | true => exact floatingDone_neutral source hs x (parseSigned_skimmed source ⟨s, spec.width.getD scanWidthMax⟩)

/-! ## Characters -/

/-- What the loop over the bytes of a character does depends on the input alone. -/
theorem readWideLoop_input (fuel : Nat) (c : Int) (state : MbState) {x y : Scan σ} (h : y.input = x.input) :
    readWideLoop source fuel c state y =
      ((readWideLoop source fuel c state x).1, (readWideLoop source fuel c state x).2.1,
        { y with input := (readWideLoop source fuel c state x).2.2.input }) := by
  induction fuel generalizing c state x y with
  | zero => rw [readWideLoop, readWideLoop, ← h]
  | succ fuel ih =>
    unfold readWideLoop
    obtain ⟨result, wc, next⟩ := mbrtowcMode (some [unsignedChar c]) state source.utf8
    cases result with
    | eilseq =>
      dsimp only [Scan.setErrno]
      rw [h]
    | length n =>
      dsimp only
      rw [← h]
    | incomplete =>
      dsimp only [Scan.get]
      rw [h]
      obtain ⟨_ | c', s⟩ := source.get x.input
      · rfl
      · exact ih c' next rfl

/-- A sequence that is stored, and one that is not: they decode the same bytes. -/
structure Alike (q p : Sequence) : Prop where
  destination : p.destination = 0
  state : source.wide = false → p.state = q.state

/-- A character that is stored has its counterpart. -/
theorem storeCharacter_alike {length : FormatLength} {q p q' : Sequence} {c : Int} {x y x' : Scan σ}
    (h : Alike source q p) (hy : y.input = x.input) (hr : storeCharacter source length q c x = (true, q', x')) :
    ∃ p', storeCharacter source length p c y = (true, p', { y with input := x'.input }) ∧ Alike source q' p' := by
  unfold storeCharacter at hr ⊢
  rw [if_pos h.destination]
  by_cases hdecode : length = .l ∧ (!source.wide) = true
  · obtain ⟨rfl, hbytes⟩ := hdecode
    have hwide : source.wide = false := by simpa using hbytes
    have hread := readWideLoop_input source 4 c q.state hy
    have hl : FormatLength.l = .l ∧ (!source.wide) = true := ⟨rfl, hbytes⟩
    rw [if_pos hl]
    rw [if_pos hl, if_pos (Eq.refl FormatLength.l)] at hr
    unfold readWideCharacter at hr ⊢
    rw [hwide, if_neg Bool.false_ne_true] at hr ⊢
    rw [h.state hwide]
    generalize readWideLoop source 4 c q.state y = decoded' at hread ⊢
    generalize readWideLoop source 4 c q.state x = decoded at hr hread
    obtain ⟨wc, state, x1⟩ := decoded
    subst hread
    split at hr
    · obtain ⟨hok, hrest⟩ := Prod.mk.inj hr
      obtain ⟨rfl, rfl⟩ := Prod.mk.inj hrest
      exact ⟨_, Prod.ext hok rfl, h.destination, fun _ => rfl⟩
    · obtain _ | wc := wc
      · cases hr
      · cases hr
        exact ⟨_, rfl, h.destination, fun _ => rfl⟩
  · rw [if_neg hdecode]
    rw [if_neg hdecode] at hr
    -- Nothing is read for this character.
    suffices hsame : x'.input = x.input ∧ (source.wide = false → q'.state = q.state) by
      refine ⟨p, ?_, h.destination, fun hwide => (h.state hwide).trans (hsame.2 hwide).symm⟩
      rw [hsame.1, ← hy]
    split at hr
    · cases hr
      exact ⟨rfl, fun _ => rfl⟩
    split at hr
    · rename_i hl
      have hwide : source.wide = true := by
        by_contra hbytes
        exact hdecode ⟨hl, by simp [hbytes]⟩
      unfold readWideCharacter at hr
      rw [if_pos hwide] at hr
      cases hr
      exact ⟨rfl, fun hno => absurd hwide (by simp [hno])⟩
    split at hr
    · rename_i hwide
      generalize wcrtombMode c q.state source.utf8 = encoded at hr
      obtain ⟨_ | bytes, state⟩ := encoded
      · cases hr
      · cases hr
        exact ⟨rfl, fun hno => absurd hwide (by simp [hno])⟩
    · cases hr
      exact ⟨rfl, fun _ => rfl⟩

theorem sequenceLoop_alike {length : FormatLength} (accepts : Int → Option Bool) (remaining : Nat) {q p q' : Sequence}
    {c : Int} {x y x' : Scan σ} (h : Alike source q p) (hy : y.input = x.input)
    (hr : sequenceLoop source length accepts q c x remaining = (.success, q', x')) :
    ∃ p', sequenceLoop source length accepts p c y remaining = (.success, p', { y with input := x'.input }) := by
  induction remaining generalizing q p c x y with
  | zero =>
    cases hr
    refine ⟨p, ?_⟩
    rw [← hy]
    rfl
  | succ remaining ih =>
    unfold sequenceLoop at hr ⊢
    obtain ⟨⟨ok, q1, x1⟩, hstore⟩ : ∃ r, storeCharacter source length q c x = r := ⟨_, rfl⟩
    rw [hstore] at hr
    cases ok with
    | false => cases hr
    | true =>
      obtain ⟨p1, hstore', h1⟩ := storeCharacter_alike source h hy hstore
      rw [hstore']
      dsimp only at hr ⊢
      by_cases hlast : remaining = 0
      · rw [if_pos hlast] at hr ⊢
        cases hr
        exact ⟨p1, rfl⟩
      rw [if_neg hlast] at hr ⊢
      unfold Scan.get at hr ⊢
      dsimp only at hr ⊢
      generalize source.get x1.input = got at hr ⊢
      obtain ⟨_ | c', s⟩ := got
      · cases hr
        exact ⟨p1, rfl⟩
      dsimp only at hr ⊢
      generalize accepts c' = accepted at hr ⊢
      match accepted with
      | none => cases hr
      | some true => exact ih (x := { x1 with input := s }) h1 rfl hr
      | some false =>
        dsimp only at hr ⊢
        obtain ⟨hstatus, hrest⟩ := Prod.mk.inj hr
        obtain ⟨-, rfl⟩ := Prod.mk.inj hrest
        exact ⟨p1, Prod.ext hstatus rfl⟩

/-- The destination of an assigning conversion is fetched, and that of a suppressed one
is null. -/
theorem destination_alike {spec : ScanSpec} (hs : spec.suppress = false) (x : Scan σ) :
    (destination spec x).2.input = x.input ∧ destination spec.suppressed x = (0, x) := by
  unfold destination
  rw [hs, if_neg Bool.false_ne_true]
  exact ⟨nextWord_input x, rfl⟩

theorem scanSequence_neutral {spec : ScanSpec} (hs : spec.suppress = false) (accepts : Int → Option Bool) (x : Scan σ) :
    Neutral x (scanSequence source spec accepts x) (scanSequence source spec.suppressed accepts x) := by
  intro hok
  unfold scanSequence Scan.get at hok ⊢
  dsimp only at hok ⊢
  generalize source.get x.input = got at hok ⊢
  obtain ⟨_ | c, s⟩ := got
  · cases hok
  dsimp only at hok ⊢
  generalize accepts c = accepted at hok ⊢
  match accepted with
  | none => cases hok
  | some false =>
    -- This character ends the conversion without a success.
    have hfail : ((Scan.mk s x.args x.memory).unget source c .matchFail).1 ≠ .success := by
      unfold Scan.unget
      dsimp only
      split <;> nofun
    exact absurd hok hfail
  | some true =>
    obtain ⟨hinput, hnull⟩ := destination_alike hs { x with input := s }
    dsimp only at hok ⊢
    rw [hnull]
    dsimp only
    generalize destination spec { x with input := s } = fetched at hok hinput ⊢
    obtain ⟨address, x1⟩ := fetched
    dsimp only at hok hinput ⊢
    obtain ⟨⟨status, q', x'⟩, hloop⟩ : ∃ r, sequenceLoop source spec.length accepts ⟨address, 0, {}⟩ c x1
        (spec.width.getD scanWidthMax) = r := ⟨_, rfl⟩
    rw [hloop] at hok ⊢
    cases status with
    | success =>
      have halike : Alike source ⟨address, 0, {}⟩ ⟨0, 0, {}⟩ := ⟨rfl, fun _ => rfl⟩
      obtain ⟨p', hloop'⟩ := sequenceLoop_alike source accepts _ (y := { x with input := s }) halike hinput.symm hloop
      rw [show spec.suppressed.length = spec.length from rfl, show spec.suppressed.width = spec.width from rfl, hloop']
      dsimp only
      rw [hs, if_neg Bool.false_ne_true, if_pos (show spec.suppressed.suppress = true from rfl)]
      unfold terminateCharacterSequence
      split <;> rfl
    | _ => cases hok

theorem scanString_neutral (fuel : Nat) {spec : ScanSpec} (hs : spec.suppress = false) (x : Scan σ) :
    NeutralRun x (scanString source fuel spec x) (scanString source fuel spec.suppressed x) :=
  .skip source (fun _ => nofun) fun x' => scanSequence_neutral source hs _ x'

theorem charactersLoop_alike {length : FormatLength} (width : Nat) {q p : Sequence} {x y x' : Scan σ}
    (h : Alike source q p) (hy : y.input = x.input) (hr : charactersLoop source length q x width = (.success, x')) :
    charactersLoop source length p y width = (.success, { y with input := x'.input }) := by
  induction width generalizing q p x y with
  | zero =>
    cases hr
    rw [← hy]
    rfl
  | succ width ih =>
    unfold charactersLoop Scan.get at hr ⊢
    rw [hy]
    generalize source.get x.input = got at hr ⊢
    obtain ⟨_ | c, s⟩ := got
    · cases hr
    dsimp only at hr ⊢
    obtain ⟨⟨ok, q1, x1⟩, hstore⟩ : ∃ r, storeCharacter source length q c { x with input := s } = r := ⟨_, rfl⟩
    rw [hstore] at hr
    cases ok with
    | false => cases hr
    | true =>
      obtain ⟨p1, hstore', h1⟩ := storeCharacter_alike source (x := { x with input := s }) (y := { y with input := s })
        h rfl hstore
      rw [hstore']
      exact ih (x := x1) (y := { y with input := x1.input }) h1 rfl hr

theorem scanCharacters_neutral {spec : ScanSpec} (hs : spec.suppress = false) (x : Scan σ) :
    Neutral x (scanCharacters source spec x) (scanCharacters source spec.suppressed x) := by
  intro hok
  obtain ⟨hinput, hnull⟩ := destination_alike hs x
  unfold scanCharacters at hok ⊢
  rw [hnull]
  generalize destination spec x = fetched at hok hinput ⊢
  obtain ⟨address, x1⟩ := fetched
  have halike : Alike source ⟨address, 0, {}⟩ ⟨0, 0, {}⟩ := ⟨rfl, fun _ => rfl⟩
  exact charactersLoop_alike source _ halike hinput.symm (Prod.ext hok rfl)

/-! ## Conversions -/

theorem NeutralRun.some {x : Scan σ} {r r' : ScanStatus × Scan σ} (h : Neutral x r r') :
    NeutralRun x (some r) (some r') := by
  rintro _ ⟨⟩
  exact ⟨r', rfl, h⟩

theorem scanConversion_neutral (fuel : Nat) {spec : ScanSpec} (hs : spec.suppress = false)
    (hc : spec.conversion ≠ '%'.toUInt8) (x : Scan σ) :
    NeutralRun x (scanConversion source fuel spec x) (scanConversion source fuel spec.suppressed x) := by
  have hconversion : spec.suppressed.conversion = spec.conversion := rfl
  unfold scanConversion
  rw [hconversion, if_neg hc, if_neg hc]
  split
  · exact scanInteger_neutral source fuel spec 10 true x
  split
  · exact scanInteger_neutral source fuel spec 0 true x
  split
  · exact scanInteger_neutral source fuel spec 10 false x
  split
  · exact scanInteger_neutral source fuel spec 8 false x
  split
  · exact scanInteger_neutral source fuel spec 16 false x
  split
  · exact scanFloating_neutral source fuel hs x
  split
  · exact scanString_neutral source fuel hs x
  split
  · exact .some (scanSequence_neutral source hs _ x)
  · exact .some (scanCharacters_neutral source hs x)

/-! ## Directives -/

/-- The star alone suppresses. -/
theorem parseScanSpec_star {p rest : List UInt8} {spec : ScanSpec} (h : parseScanSpec p = some (spec, rest)) :
    spec.suppress = decide (byteAt p = '*'.toUInt8) := by
  unfold parseScanSpec at h
  dsimp only at h
  split at h
  · cases h
  split at h
  · split at h
    · cases h
    split at h
    · cases h
    · cases h
      rfl
  split at h
  · cases h
  split at h
  · cases h
    rfl
  split at h
  · split at h
    · cases h
    · cases h
      rfl
  split at h
  · split at h
    · cases h
    · cases h
      rfl
  split at h
  · split at h
    · cases h
    · cases h
      rfl
  · cases h

/-- A directive that parses has a suppressed form, except the percent sign. -/
theorem parseScanSpec_suppressed {p rest : List UInt8} {spec : ScanSpec} (h : parseScanSpec p = some (spec, rest))
    (hs : spec.suppress = false) (hc : spec.conversion ≠ '%'.toUInt8) :
    parseScanSpec ('*'.toUInt8 :: p) = some (spec.suppressed, rest) := by
  have hno := (parseScanSpec_star h).symm.trans hs
  have hyes : decide (byteAt ('*'.toUInt8 :: p) = '*'.toUInt8) = true := by
    rw [byteAt_head]
    exact decide_eq_true rfl
  unfold parseScanSpec at h ⊢
  dsimp only at h ⊢
  rw [hno, if_neg Bool.false_ne_true] at h
  rw [hyes, if_pos rfl, List.drop_succ_cons, List.drop_zero]
  generalize parseWidth p = width at h ⊢
  obtain _ | ⟨⟨width, hwidth⟩, p⟩ := width
  · cases h
  dsimp only at h ⊢
  generalize parseLength p = length at h ⊢
  obtain ⟨length, p⟩ := length
  dsimp only at h ⊢
  by_cases hset : byteAt p = '['.toUInt8
  · rw [if_pos hset] at h ⊢
    by_cases hplain : (!decide (length = .none ∨ length = .l)) = true
    · rw [if_pos hplain] at h
      cases h
    rw [if_neg hplain] at h ⊢
    generalize parseScanset (p.drop 1) = set at h ⊢
    obtain _ | ⟨negated, set, p⟩ := set
    · cases h
    · cases h
      rfl
  rw [if_neg hset] at h ⊢
  split at h
  · cases h
  rename_i hzero
  rw [if_neg hzero]
  split at h
  · rename_i hinteger
    cases h
    exact if_pos hinteger
  rename_i hinteger
  rw [if_neg hinteger]
  split at h
  · rename_i hfloat
    split at h
    · cases h
    · rename_i hplain
      cases h
      exact (if_pos hfloat).trans (if_neg hplain)
  rename_i hfloat
  rw [if_neg hfloat]
  split at h
  · rename_i htext
    split at h
    · cases h
    · rename_i hplain
      cases h
      exact (if_pos htext).trans (if_neg hplain)
  split at h
  · rename_i hpercent
    split at h
    · cases h
    · cases h
      exact absurd hpercent hc
  · cases h

/-- A directive that assigns, and the same one with `*`: from there the format goes on
with the same input, without the assignment, with the arguments and the memory of before. -/
theorem scanRound_suppressed (fuel : Nat) {format format' : List UInt8} {assignments : Nat} {x x' : Scan σ}
    (h : scanRound source fuel ('%'.toUInt8 :: format) assignments x = some (.next format' (assignments + 1) x')) :
    scanRound source fuel ('%'.toUInt8 :: '*'.toUInt8 :: format) assignments x =
      some (.next format' assignments { x with input := x'.input }) := by
  have hspace : ∀ rest, ¬isFormatSpace (byteAt ('%'.toUInt8 :: rest)) = true := by
    intro rest
    rw [byteAt_head]
    decide
  have hpercent : ∀ rest, ¬byteAt ('%'.toUInt8 :: rest) ≠ '%'.toUInt8 := by
    intro rest hne
    exact hne (byteAt_head _ _)
  unfold scanRound at h ⊢
  rw [if_neg (hspace _), if_neg (hpercent _), List.drop_succ_cons, List.drop_zero] at h ⊢
  obtain ⟨_ | ⟨spec, rest⟩, hparse⟩ : ∃ r, parseScanSpec format = r := ⟨_, rfl⟩
  · rw [hparse] at h
    cases h
  rw [hparse] at h
  obtain ⟨⟨status, x1⟩, hrun, hend⟩ := Option.map_eq_some_iff.1 h
  -- The directive counts, so it assigns.
  have hassigns : status = .success ∧ spec.conversion ≠ '%'.toUInt8 ∧ spec.suppress = false ∧ rest = format' ∧ x1 = x' := by
    dsimp only at hend
    unfold endDirective at hend
    split at hend
    · rename_i hsuccess
      obtain ⟨hrest, hcount, hx⟩ := Round.next.inj hend
      split at hcount
      · rename_i hcounted
        exact ⟨hsuccess, hcounted.1, by simpa using hcounted.2, hrest, hx⟩
      · omega
    · cases hend
  obtain ⟨rfl, hc, hs, rfl, rfl⟩ := hassigns
  rw [parseScanSpec_suppressed hparse hs hc]
  obtain ⟨_, hrun', hneutral⟩ := scanConversion_neutral source fuel hs hc x _ hrun
  dsimp only
  rw [hrun', hneutral rfl, if_neg (fun hno => Bool.false_ne_true hno.2)]
  rfl

/-- Suppression is neutral: where a conversion assigns, its suppressed form succeeds on the
same input, which it leaves where the assigning one does, and the call goes on behind it
with the same count, arguments and memory. -/
theorem suppression_neutral (fuel : Nat) {format format' : List UInt8} {assignments : Nat} {x x' : Scan σ}
    (h : scanRound source fuel ('%'.toUInt8 :: format) assignments x = some (.next format' (assignments + 1) x')) :
    scanRound source fuel ('%'.toUInt8 :: '*'.toUInt8 :: format) assignments x =
        some (.next format' assignments { x with input := x'.input }) ∧
      ∀ rounds, scanLoop source fuel (rounds + 1) ('%'.toUInt8 :: '*'.toUInt8 :: format) assignments x =
        scanLoop source fuel rounds format' assignments { x with input := x'.input } := by
  have hround := scanRound_suppressed source fuel h
  refine ⟨hround, fun rounds => ?_⟩
  rw [scanLoop, hround, if_neg]
  rw [byteAt_head]
  decide

/-- A field of two digits: the third one is left for the comma to be matched against. -/
theorem suppression_neutral_field :
    scanRound (stringSource true) 3 ['%'.toUInt8, '*'.toUInt8, '2'.toUInt8, 'l'.toUInt8, 'd'.toUInt8, ','.toUInt8] 0
        ⟨{ ahead := [32, 55, 56, 57] }, ⟨[64], 0, 0, by decide⟩, fun _ => 0⟩ =
      some (.next [','.toUInt8] 0
        ⟨{ behind := [56, 55, 32], ahead := [57] }, ⟨[64], 0, 0, by decide⟩, fun _ => 0⟩) := by
  have hassigned : scanRound (stringSource true) 3 ['%'.toUInt8, '2'.toUInt8, 'l'.toUInt8, 'd'.toUInt8, ','.toUInt8] 0
      ⟨{ ahead := [32, 55, 56, 57] }, ⟨[64], 0, 0, by decide⟩, fun _ => 0⟩ =
        some (.next [','.toUInt8] 1
          ⟨{ behind := [56, 55, 32], ahead := [57] }, ⟨[64], 0, 1, by decide⟩, store (fun _ => 0) 64 8 78⟩) := by rfl
  exact (suppression_neutral _ _ hassigned).1

end MiniLibc.Stdio
