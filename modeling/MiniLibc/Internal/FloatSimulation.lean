import MiniLibc.Internal.FloatSource
/-!
# Sources that read the same

Two sources whose states are in a relation that reading keeps, and taking back the
character just read: the parser does the same over both.
-/

namespace MiniLibc.FloatParse

variable {σ τ β : Type}

/-- The relation is kept, and both sources give the same. -/
structure FloatSimulation (A : FloatSource σ) (B : FloatSource τ) (R : σ → τ → Prop) : Prop where
  get {s : σ} {t : τ} : R s t → (A.get s).1 = (B.get t).1 ∧ R (A.get s).2 (B.get t).2
  unget {s : σ} {t : τ} {c : Int} : R s t → (A.get s).1 = some c →
    (A.unget c (A.get s).2).1 = (B.unget c (B.get t).2).1 ∧ R (A.unget c (A.get s).2).2 (B.unget c (B.get t).2).2

/-- Two results that agree, in related states. -/
def Agree {ρ ρ' : Type} (R : ρ → ρ' → Prop) (a : β × ρ) (b : β × ρ') : Prop := a.1 = b.1 ∧ R a.2 b.2

/-- Both have just read the character, if there is one. -/
def Fresh (A : FloatSource σ) (B : FloatSource τ) (R : σ → τ → Prop) (c : Option Int) (s : σ) (t : τ) : Prop :=
  match c with
  | none => R s t
  | some c => ∃ s' t', R s' t' ∧ A.get s' = (some c, s) ∧ B.get t' = (some c, t)

variable {A : FloatSource σ} {B : FloatSource τ} {R : σ → τ → Prop}

namespace FloatSimulation

variable (sim : FloatSimulation A B R)
include sim

theorem related {c : Option Int} {s : σ} {t : τ} (h : Fresh A B R c s t) : R s t := by
  obtain _ | c := c
  · exact h
  · obtain ⟨s', t', hr, hs, ht⟩ := h
    have := (sim.get hr).2
    rwa [hs, ht] at this

theorem getFresh {s : σ} {t : τ} (h : R s t) :
    ∃ c s' t', A.get s = (c, s') ∧ B.get t = (c, t') ∧ Fresh A B R c s' t' := by
  obtain ⟨hc, hr⟩ := sim.get h
  refine ⟨(A.get s).1, (A.get s).2, (B.get t).2, rfl, Prod.ext hc.symm rfl, ?_⟩
  cases hget : (A.get s).1 with
  | none => exact hr
  | some c => exact ⟨s, t, h, Prod.ext hget rfl, Prod.ext (hc ▸ hget) rfl⟩

theorem ungetFresh {c : Int} {s : σ} {t : τ} (h : Fresh A B R (some c) s t) :
    ∃ ok s' t', A.unget c s = (ok, s') ∧ B.unget c t = (ok, t') ∧ R s' t' := by
  obtain ⟨s', t', hr, hs, ht⟩ := h
  obtain ⟨hok, hr'⟩ := sim.unget (c := c) hr (by rw [hs])
  rw [hs, ht] at hok hr'
  exact ⟨_, _, _, rfl, Prod.ext hok.symm rfl, hr'⟩

theorem skipSpace (space : Int → Bool) (fuel : Nat) {s : σ} {t : τ} (h : R s t) :
    Option.Rel (Agree R) (A.skipSpace space fuel s) (B.skipSpace space fuel t) := by
  induction fuel generalizing s t with
  | zero => exact .none
  | succ fuel ih =>
    unfold FloatSource.skipSpace
    obtain ⟨c, s', t', hs, ht, hfresh⟩ := sim.getFresh h
    rw [hs, ht]
    cases c with
    | none => exact .some ⟨rfl, hfresh⟩
    | some c =>
      dsimp only
      split
      · exact ih (sim.related hfresh)
      · obtain ⟨ok, s1, t1, hs1, ht1, hr⟩ := sim.ungetFresh hfresh
        rw [hs1, ht1]
        exact .some ⟨rfl, hr⟩

end FloatSimulation

/-! ## Readers -/

/-- Two readers with as much to go. -/
structure Reader.Matches (R : σ → τ → Prop) (r : Reader σ) (r' : Reader τ) : Prop where
  input : R r.input r'.input
  remaining : r.remaining = r'.remaining

/-- Two readers that have just read the character, if there is one. -/
structure Reader.Fresh (A : FloatSource σ) (B : FloatSource τ) (R : σ → τ → Prop) (c : Option Int) (r : Reader σ)
    (r' : Reader τ) : Prop where
  input : FloatParse.Fresh A B R c r.input r'.input
  remaining : r.remaining = r'.remaining

namespace FloatSimulation

variable (sim : FloatSimulation A B R)
include sim

theorem readerRelated {c : Option Int} {r : Reader σ} {r' : Reader τ} (h : r.Fresh A B R c r') : r.Matches R r' :=
  ⟨sim.related h.input, h.remaining⟩

theorem readerGet {r : Reader σ} {r' : Reader τ} (h : r.Matches R r') :
    ∃ c r1 r1', r.get A = (c, r1) ∧ r'.get B = (c, r1') ∧ r1.Fresh A B R c r1' := by
  unfold Reader.get
  rw [← h.remaining]
  split
  · exact ⟨none, r, r', rfl, rfl, h.input, h.remaining⟩
  · obtain ⟨c, s', t', hs, ht, hfresh⟩ := sim.getFresh h.input
    rw [hs, ht]
    cases c with
    | none => exact ⟨none, _, _, rfl, rfl, hfresh, rfl⟩
    | some c => exact ⟨some c, _, _, rfl, rfl, hfresh, rfl⟩

theorem readerLeave {c : Option Int} {r : Reader σ} {r' : Reader τ} (status : Status) (h : r.Fresh A B R c r') :
    ∃ last r1 r1', r.leave A status c = (last, r1) ∧ r'.leave B status c = (last, r1') ∧ r1.Matches R r1' := by
  cases c with
  | none => exact ⟨status, r, r', rfl, rfl, sim.readerRelated h⟩
  | some c =>
    unfold Reader.leave Reader.unget
    dsimp only
    obtain ⟨ok, s1, t1, hs, ht, hr⟩ := sim.ungetFresh h.input
    rw [hs, ht]
    cases ok with
    | false => exact ⟨.inputFail, _, _, rfl, rfl, hr, h.remaining⟩
    | true => exact ⟨status, _, _, rfl, rfl, hr, congrArg (· + 1) h.remaining⟩

/-- A character that the loop takes need not be fresh: only the one that ends it is given
back. -/
theorem readWhile (step : β → Int → Option β) (remaining : Nat) (acc : β) {c : Option Int} {s : σ} {t : τ}
    (h : R s t) (hfresh : c.bind (step acc) = none → Fresh A B R c s t) :
    ∃ acc' c' r r', FloatParse.readWhile A step acc c s remaining = (acc', c', r) ∧
      FloatParse.readWhile B step acc c t remaining = (acc', c', r') ∧ r.Fresh A B R c' r' := by
  induction remaining generalizing acc c s t with
  | zero =>
    unfold FloatParse.readWhile
    cases hstep : c.bind (step acc) with
    | none => exact ⟨acc, c, _, _, rfl, rfl, hfresh hstep, rfl⟩
    | some acc => exact ⟨acc, none, _, _, rfl, rfl, h, rfl⟩
  | succ remaining ih =>
    unfold FloatParse.readWhile
    cases hstep : c.bind (step acc) with
    | none => exact ⟨acc, c, _, _, rfl, rfl, hfresh hstep, rfl⟩
    | some acc =>
      obtain ⟨c', s', t', hs, ht, hnext⟩ := sim.getFresh h
      dsimp only
      rw [hs, ht]
      cases c' with
      | none => exact ⟨acc, none, _, _, rfl, rfl, hnext, rfl⟩
      | some c' => exact ih acc (sim.related hnext) fun _ => hnext

theorem readerLoop (step : β → Int → Option β) (acc : β) {c : Option Int} {r : Reader σ} {r' : Reader τ}
    (h : r.Matches R r') (hfresh : c.bind (step acc) = none → r.Fresh A B R c r') :
    ∃ acc' c' r1 r1', r.loop A step acc c = (acc', c', r1) ∧ r'.loop B step acc c = (acc', c', r1') ∧
      r1.Fresh A B R c' r1' := by
  unfold Reader.loop
  rw [← h.remaining]
  exact sim.readWhile step r.remaining acc h.input fun hend => (hfresh hend).input

theorem parseExponent {r : Reader σ} {r' : Reader τ} (h : r.Matches R r') :
    ∃ status e r1 r1', r.parseExponent A = (status, e, r1) ∧ r'.parseExponent B = (status, e, r1') ∧
      r1.Matches R r1' := by
  unfold Reader.parseExponent
  obtain ⟨c, r1, r1', h1, h1', hfresh⟩ := sim.readerGet h
  rw [h1, h1']
  cases c with
  | none => exact ⟨_, _, _, _, rfl, rfl, sim.readerRelated hfresh⟩
  | some c =>
    dsimp only
    obtain ⟨c2, r2, r2', h2, h2', hfresh2⟩ : ∃ c2 r2 r2',
        (if isSign (code c) = true then r1.get A else (some c, r1)) = (c2, r2) ∧
          (if isSign (code c) = true then r1'.get B else (some c, r1')) = (c2, r2') ∧ r2.Fresh A B R c2 r2' := by
      split
      · exact sim.readerGet (sim.readerRelated hfresh)
      · exact ⟨_, _, _, rfl, rfl, hfresh⟩
    rw [h2, h2']
    cases c2 with
    | none => exact ⟨_, _, _, _, rfl, rfl, sim.readerRelated hfresh2⟩
    | some c2 =>
      dsimp only
      obtain ⟨⟨e, digits⟩, c3, r3, r3', h3, h3', hfresh3⟩ :=
        sim.readerLoop exponentStep ({ negative := code c = '-'.toNat }, 0) (sim.readerRelated hfresh2) fun _ => hfresh2
      rw [h3, h3']
      dsimp only
      obtain ⟨last, r4, r4', h4, h4', hm⟩ :=
        sim.readerLeave (if digits = 0 then Status.matchFail else Status.success) hfresh3
      rw [h4, h4']
      exact ⟨_, _, _, _, rfl, rfl, hm⟩

end FloatSimulation

/-- Two parses that end alike. -/
structure Read.Matches (R : σ → τ → Prop) (p : Read σ) (p' : Read τ) : Prop where
  status : p.status = p'.status
  result : p.result = p'.result
  reader : p.reader.Matches R p'.reader

namespace FloatSimulation

variable (sim : FloatSimulation A B R)
include sim

theorem radix (radix : Radix) (negative convert : Bool) {c : Option Int} {r : Reader σ} {r' : Reader τ}
    (h : r.Matches R r') (hend : c.bind (radix.step {}) = none → r.Fresh A B R c r') :
    (radix.read A negative convert c r).Matches R (radix.read B negative convert c r') := by
  unfold Radix.read
  obtain ⟨m, c1, r1, r1', h1, h1', hfresh⟩ := sim.readerLoop radix.step {} h hend
  rw [h1, h1']
  dsimp only
  split
  · obtain ⟨last, r2, r2', h2, h2', hm⟩ := sim.readerLeave .matchFail hfresh
    rw [h2, h2']
    exact ⟨rfl, rfl, hm⟩
  · obtain ⟨status, e, r2, r2', h2, h2', hm⟩ : ∃ status e r2 r2',
        (if (c1.any fun c => asciiEqualCi (code c) radix.marker) = true then r1.parseExponent A
          else ((r1.leave A .success c1).1, {}, (r1.leave A .success c1).2)) = (status, e, r2) ∧
        (if (c1.any fun c => asciiEqualCi (code c) radix.marker) = true then r1'.parseExponent B
          else ((r1'.leave B .success c1).1, {}, (r1'.leave B .success c1).2)) = (status, e, r2') ∧
        r2.Matches R r2' := by
      split
      · exact sim.parseExponent (sim.readerRelated hfresh)
      · obtain ⟨last, r2, r2', h2, h2', hm⟩ := sim.readerLeave .success hfresh
        rw [h2, h2']
        exact ⟨_, _, _, _, rfl, rfl, hm⟩
    rw [h2, h2']
    dsimp only
    split
    · exact ⟨rfl, rfl, hm⟩
    split
    · exact ⟨rfl, rfl, hm⟩
    · exact ⟨rfl, rfl, hm⟩

theorem matchRequired (text : List Char) {r : Reader σ} {r' : Reader τ} (h : r.Matches R r') :
    ∃ status r1 r1', r.matchRequired A text = (status, r1) ∧ r'.matchRequired B text = (status, r1') ∧
      r1.Matches R r1' := by
  induction text generalizing r r' with
  | nil => exact ⟨_, _, _, rfl, rfl, h⟩
  | cons t text ih =>
    unfold Reader.matchRequired
    obtain ⟨c, r1, r1', h1, h1', hfresh⟩ := sim.readerGet h
    rw [h1, h1']
    cases c with
    | none => exact ⟨_, _, _, rfl, rfl, sim.readerRelated hfresh⟩
    | some c =>
      dsimp only
      split
      · exact ih (sim.readerRelated hfresh)
      · exact sim.readerLeave .matchFail hfresh

omit sim in
theorem special (convert : Bool) (value : Binary64) {status : Status} {r : Reader σ} {r' : Reader τ}
    (h : r.Matches R r') : (specialRead convert value (status, r)).Matches R (specialRead convert value (status, r')) :=
  ⟨rfl, rfl, h⟩

theorem parseInfinity (negative convert : Bool) {r : Reader σ} {r' : Reader τ} (h : r.Matches R r') :
    (r.parseInfinity A negative convert).Matches R (r'.parseInfinity B negative convert) := by
  unfold Reader.parseInfinity
  obtain ⟨status, r1, r1', h1, h1', hm⟩ := sim.matchRequired ['n', 'f'] h
  rw [h1, h1']
  cases status with
  | success =>
    dsimp only
    obtain ⟨c, r2, r2', h2, h2', hfresh⟩ := sim.readerGet hm
    rw [h2, h2']
    cases c with
    | none => exact special _ _ (sim.readerRelated hfresh)
    | some c =>
      dsimp only
      split
      · obtain ⟨last, r3, r3', h3, h3', hm'⟩ := sim.matchRequired ['n', 'i', 't', 'y'] (sim.readerRelated hfresh)
        rw [h3, h3']
        exact special _ _ hm'
      · obtain ⟨last, r3, r3', h3, h3', hm'⟩ := sim.readerLeave .success hfresh
        rw [h3, h3']
        exact special _ _ hm'
  | _ => exact ⟨rfl, rfl, hm⟩

theorem parseNan (negative convert : Bool) {r : Reader σ} {r' : Reader τ} (h : r.Matches R r') :
    (r.parseNan A negative convert).Matches R (r'.parseNan B negative convert) := by
  unfold Reader.parseNan
  obtain ⟨status, r1, r1', h1, h1', hm⟩ := sim.matchRequired ['a', 'n'] h
  rw [h1, h1']
  cases status with
  | success =>
    dsimp only
    obtain ⟨c, r2, r2', h2, h2', hfresh⟩ := sim.readerGet hm
    rw [h2, h2']
    cases c with
    | none => exact special _ _ (sim.readerRelated hfresh)
    | some c =>
      dsimp only
      split
      · obtain ⟨c3, r3, r3', h3, h3', hfresh3⟩ := sim.readerGet (sim.readerRelated hfresh)
        rw [h3, h3']
        dsimp only
        obtain ⟨acc, c4, r4, r4', h4, h4', hfresh4⟩ := sim.readerLoop payloadStep () (sim.readerRelated hfresh3) fun _ => hfresh3
        rw [h4, h4']
        dsimp only
        split
        · exact special _ _ (sim.readerRelated hfresh4)
        · obtain ⟨last, r5, r5', h5, h5', hm'⟩ := sim.readerLeave .matchFail hfresh4
          rw [h5, h5']
          exact special _ _ hm'
      · obtain ⟨last, r3, r3', h3, h3', hm'⟩ := sim.readerLeave .success hfresh
        rw [h3, h3']
        exact special _ _ hm'
  | _ => exact ⟨rfl, rfl, hm⟩

theorem parseUnsigned (negative convert : Bool) {c : Int} {r : Reader σ} {r' : Reader τ}
    (h : r.Fresh A B R (some c) r') :
    (r.parseUnsigned A negative convert c).Matches R (r'.parseUnsigned B negative convert c) := by
  unfold Reader.parseUnsigned
  split
  · exact sim.parseInfinity negative convert (sim.readerRelated h)
  split
  · exact sim.parseNan negative convert (sim.readerRelated h)
  split
  · obtain ⟨next, r1, r1', h1, h1', hfresh⟩ := sim.readerGet (sim.readerRelated h)
    rw [h1, h1']
    dsimp only
    split
    · obtain ⟨c2, r2, r2', h2, h2', hfresh2⟩ := sim.readerGet (sim.readerRelated hfresh)
      rw [h2, h2']
      exact sim.radix hex negative convert (sim.readerRelated hfresh2) fun _ => hfresh2
    · obtain ⟨last, r2, r2', h2, h2', hm⟩ := sim.readerLeave .success hfresh
      rw [h2, h2']
      cases last with
      | success =>
        -- The zero is a digit.
        refine sim.radix decimal negative convert hm fun hend => ?_
        rename_i hzero _
        unfold Radix.step at hend
        rw [Option.bind_some, hzero] at hend
        cases hend
      | _ => exact ⟨rfl, rfl, hm⟩
  · exact sim.radix decimal negative convert (sim.readerRelated h) fun _ => h

theorem parseSigned (convert : Bool) {r : Reader σ} {r' : Reader τ} (h : r.Matches R r') :
    (r.parseSigned A convert).Matches R (r'.parseSigned B convert) := by
  unfold Reader.parseSigned
  obtain ⟨c, r1, r1', h1, h1', hfresh⟩ := sim.readerGet h
  rw [h1, h1']
  cases c with
  | none => exact ⟨rfl, rfl, sim.readerRelated hfresh⟩
  | some c =>
    dsimp only
    split
    · obtain ⟨c2, r2, r2', h2, h2', hfresh2⟩ := sim.readerGet (sim.readerRelated hfresh)
      rw [h2, h2']
      cases c2 with
      | none => exact ⟨rfl, rfl, sim.readerRelated hfresh2⟩
      | some c2 => exact sim.parseUnsigned _ convert hfresh2
    · exact sim.parseUnsigned false convert hfresh

/-- The parser over both sources. -/
theorem parse (fuel width : Nat) (convert : Bool) {s : σ} {t : τ} (h : R s t) :
    Option.Rel (Read.Matches R) (A.parse fuel width convert s) (B.parse fuel width convert t) := by
  unfold FloatSource.parse
  have hskip := sim.skipSpace (fun c => asciiSpace (code c)) fuel h
  generalize A.skipSpace (fun c => asciiSpace (code c)) fuel s = a at hskip ⊢
  generalize B.skipSpace (fun c => asciiSpace (code c)) fuel t = b at hskip ⊢
  cases hskip with
  | none => exact .none
  | @some a b hab =>
    obtain ⟨ok, s'⟩ := a
    obtain ⟨_, t'⟩ := b
    obtain ⟨rfl, hr⟩ : ok = _ ∧ R s' t' := hab
    refine .some ?_
    cases ok with
    | false => exact ⟨rfl, rfl, hr, rfl⟩
    | true => exact sim.parseSigned convert ⟨hr, rfl⟩

end FloatSimulation

end MiniLibc.FloatParse
