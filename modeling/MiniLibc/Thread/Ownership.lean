import MiniLibc.Lib.Runs
import MiniLibc.Thread.Mutex
/-!
# Who owns a mutex

The owner and the depth are written outside the atomic exchange, by the thread
that took the state word and by no other. `Ledger` says for every thread what
its place in the code means for its own acquisitions, and for the one that has
the word what the other two cells hold.
-/
open MiniLibc.FutexLock MiniLibc.Runs

namespace MiniLibc.Thread.Mtx

variable {ι : Type} [DecidableEq ι]

/-- What a thread knows at a place of the code about its acquisitions, now and
when its call began. -/
def Facts (type : MtxType) (held entry : Nat) : MtxPc → Prop
  | .idle => True
  | .ownedState _ _ | .ownedOwner _ _ => entry = held
  | .recurseDepth op => op ≠ .unlock ∧ type.recursive = true ∧ 0 < held ∧ entry = held
  | .recurseAdd op => op ≠ .unlock ∧ type.recursive = true ∧ 0 < held ∧ entry = held ∧ held < mtxIntMax
  | .exchange op _ | .wait op | .asleep op | .storeOwner op | .storeDepth op => op ≠ .unlock ∧ held = 0 ∧ entry = 0
  | .unlockDepth => 0 < held ∧ entry = held
  | .unlockNested => type.recursive = true ∧ 1 < held ∧ entry = held
  | .clearDepth | .clearOwner | .clearState => held = 1 ∧ entry = 1
  | .wake => held = 0 ∧ entry = 1
  | .returned .unlock .success => entry = held + 1
  | .returned .unlock _ => held = 0 ∧ entry = 0
  | .returned _ .success => held = entry + 1 ∧ (0 < entry → type.recursive = true)
  | .returned _ _ => held = entry

/-- What the owner and the depth are while `t` has the state word. -/
def Cells (m : Mtx ι) (t : ι) : MtxPc → Prop
  | .storeOwner _ | .clearState => m.owner = none ∧ m.depth = 0
  | .storeDepth _ | .clearOwner => m.owner = some t ∧ m.depth = 0
  | _ => m.owner = some t ∧ m.depth = m.held t ∧ m.held t ≤ mtxIntMax ∧ (m.type.recursive = false → m.held t = 1)

/-- The account of a mutex. -/
structure Ledger (m : Mtx ι) : Prop where
  facts : ∀ t, Facts m.type (m.held t) (m.entry t) (m.pc t)
  cells : ∀ t, m.lock.phase t = .holding → Cells m t (m.pc t)
  free : m.state = false → m.owner = none ∧ m.depth = 0

omit [DecidableEq ι] in
theorem Cells.congr {m m' : Mtx ι} {t : ι} {p : MtxPc} (h : Cells m t p) (htype : m'.type = m.type)
    (ho : m'.owner = m.owner) (hd : m'.depth = m.depth) (hh : m'.held t = m.held t) : Cells m' t p := by
  unfold Cells at h ⊢
  rw [htype, ho, hd, hh]
  exact h

omit [DecidableEq ι] in
/-- One thread moves on. Another one that has the word keeps its cells. -/
theorem Ledger.update {m m' : Mtx ι} (h : Ledger m) (t : ι) (htype : m'.type = m.type)
    (hothers : ∀ u, u ≠ t → m'.pc u = m.pc u ∧ m'.held u = m.held u ∧ m'.entry u = m.entry u)
    (hfacts : Facts m.type (m'.held t) (m'.entry t) (m'.pc t))
    (hcells : m'.lock.phase t = .holding → Cells m' t (m'.pc t))
    (hkept : (m'.owner = m.owner ∧ m'.depth = m.depth) ∨ ∀ u, u ≠ t → m.lock.phase u ≠ .holding)
    (hfree : m'.state = false → m'.owner = none ∧ m'.depth = 0) : Ledger m' where
  facts u := by
    by_cases hu : u = t
    · rw [hu, htype]
      exact hfacts
    · obtain ⟨h1, h2, h3⟩ := hothers u hu
      rw [h1, h2, h3, htype]
      exact h.facts u
  cells u hp := by
    by_cases hu : u = t
    · rw [hu] at hp ⊢
      exact hcells hp
    · obtain ⟨h1, h2, h3⟩ := hothers u hu
      have hphase : m.lock.phase u = .holding := by
        rw [← hp]
        unfold lock
        dsimp only
        rw [h1, h2]
      rcases hkept with ⟨ho, hd⟩ | hno
      · rw [h1]
        exact (h.cells u hphase).congr htype ho hd h2
      · exact absurd hphase (hno u hu)
  free := hfree

/-! ## Updates -/

section
variable (m : Mtx ι) (t u : ι) (p : MtxPc) (n : Nat)

@[simp] theorem goto_pc : (m.goto t p).pc t = p := Function.update_self _ _ _
@[simp] theorem goto_held : (m.goto t p).held = m.held := rfl
@[simp] theorem goto_entry : (m.goto t p).entry = m.entry := rfl
@[simp] theorem goto_type : (m.goto t p).type = m.type := rfl
@[simp] theorem goto_state : (m.goto t p).state = m.state := rfl
@[simp] theorem goto_owner : (m.goto t p).owner = m.owner := rfl
@[simp] theorem goto_depth : (m.goto t p).depth = m.depth := rfl
@[simp] theorem goHolding_pc : (m.goHolding t p n).pc t = p := Function.update_self _ _ _
@[simp] theorem goHolding_held : (m.goHolding t p n).held t = n := Function.update_self _ _ _
@[simp] theorem goHolding_entry : (m.goHolding t p n).entry = m.entry := rfl
@[simp] theorem goHolding_type : (m.goHolding t p n).type = m.type := rfl
@[simp] theorem goHolding_state : (m.goHolding t p n).state = m.state := rfl
@[simp] theorem goHolding_owner : (m.goHolding t p n).owner = m.owner := rfl
@[simp] theorem goHolding_depth : (m.goHolding t p n).depth = m.depth := rfl

end

theorem goto_others (m : Mtx ι) {t u : ι} (p : MtxPc) (h : u ≠ t) :
    (m.goto t p).pc u = m.pc u ∧ (m.goto t p).held u = m.held u ∧ (m.goto t p).entry u = m.entry u :=
  ⟨Function.update_of_ne h _ _, rfl, rfl⟩

theorem goHolding_others (m : Mtx ι) {t u : ι} (p : MtxPc) (n : Nat) (h : u ≠ t) :
    (m.goHolding t p n).pc u = m.pc u ∧ (m.goHolding t p n).held u = m.held u ∧
      (m.goHolding t p n).entry u = m.entry u :=
  ⟨Function.update_of_ne h _ _, Function.update_of_ne h _ _, rfl⟩

/-- A thread goes on and touches no cell. What it has to know there is all there
is to show. -/
theorem Ledger.goto {m : Mtx ι} (h : Ledger m) {t : ι} {p : MtxPc} (hfacts : Facts m.type (m.held t) (m.entry t) p)
    (hcells : phaseOf (m.held t) p = .holding → Cells m t p) : Ledger (m.goto t p) := by
  refine h.update t rfl (fun u hu => goto_others m p hu) ?_ ?_ (.inl ⟨rfl, rfl⟩) h.free
  · rw [goto_pc]
    exact hfacts
  · rw [lock_goto, to_phase, if_pos rfl, goto_pc]
    exact fun hp => (hcells hp).congr rfl rfl rfl rfl

/-! ## The view -/

/-- A step of the mutex is a step of the lock, or none. -/
def Seen (m m' : Mtx ι) : Prop := m'.lock = m.lock ∨ FutexLock.Step m.lock m'.lock

theorem seen_goto {m : Mtx ι} {t : ι} {p : MtxPc}
    (h : phaseOf (m.held t) p = phaseOf (m.held t) (m.pc t) ∨
      FutexLock.Step m.lock (m.lock.to t (phaseOf (m.held t) p))) : Seen m (m.goto t p) := by
  unfold Seen
  rw [lock_goto]
  rcases h with he | hs
  · exact .inl (to_self he.symm)
  · exact .inr hs

/-- The invariant. -/
structure Inv (m : Mtx ι) : Prop where
  safe : Safe m.lock
  ledger : Ledger m

theorem Inv.next {m m' : Mtx ι} (h : Inv m) (hs : Seen m m') (hl : Ledger m') : Inv m' ∧ Seen m m' := by
  refine ⟨⟨?_, hl⟩, hs⟩
  rcases hs with he | hs
  · rw [he]
    exact h.safe
  · exact h.safe.step hs

/-- A thread with acquisitions has the word. -/
theorem phaseOf_held {type : MtxType} {n e : Nat} (h : 0 < n) {p : MtxPc} (hp : Facts type n e p) :
    phaseOf n p = .holding := by
  cases p with
  | exchange op woken => exact absurd hp.2.1 h.ne'
  | wait op => exact absurd hp.2.1 h.ne'
  | asleep op => exact absurd hp.2.1 h.ne'
  | wake => exact absurd hp.1 h.ne'
  | storeOwner op => rfl
  | storeDepth op => rfl
  | _ => exact if_neg h.ne'

theorem phaseOf_returned {n : Nat} (h : 0 < n) (op : MtxOp) (r : ThrdResult) : phaseOf n (.returned op r) = .holding :=
  if_neg h.ne'

section
variable {m : Mtx ι} {t : ι}

omit [DecidableEq ι]

theorem Inv.holding (h : Inv m) (hn : 0 < m.held t) : m.lock.phase t = .holding := phaseOf_held hn (h.ledger.facts t)

/-- While the state is clear nobody has acquisitions. -/
theorem Inv.held_zero (h : Inv m) (hs : m.state = false) (u : ι) : m.held u = 0 := by
  by_contra hn
  exact h.safe.free hs u (h.holding (Nat.pos_of_ne_zero hn))

theorem Inv.state_true (h : Inv m) (hp : m.lock.phase t = .holding) : m.state = true := h.safe.held.2 ⟨t, hp⟩

theorem Inv.not_clear (h : Inv m) (hp : m.lock.phase t = .holding) : ¬ m.state = false := by
  rw [h.state_true hp]
  simp

/-- The stored owner has the word. -/
theorem Inv.owner_holds (h : Inv m) (ho : m.owner = some t) : m.lock.phase t = .holding := by
  cases hs : m.state with
  | false =>
    rw [(h.ledger.free hs).1] at ho
    cases ho
  | true =>
    obtain ⟨u, hu⟩ := h.safe.held.1 hs
    have hcells := h.ledger.cells u hu
    have howner : m.owner = none ∨ m.owner = some u := by
      cases hp : m.pc u <;> rw [hp] at hcells
      all_goals first
        | exact .inl hcells.1
        | exact .inr hcells.1
    rcases howner with hn | hn
    · rw [hn] at ho
      cases ho
    · obtain rfl := Option.some.inj (hn.symm.trans ho)
      exact hu

/-- Another thread does not have the word. -/
theorem Inv.others (h : Inv m) (hp : m.lock.phase t = .holding) (u : ι) (hu : u ≠ t) : m.lock.phase u ≠ .holding :=
  fun hv => hu (h.safe.exclusive u t hv hp)

end

/-- `owned_by` said no to a thread without acquisitions. -/
theorem Inv.notOwned {m : Mtx ι} {t : ι} (h : Inv m) (hheld : m.held t = 0) (hentry : m.entry t = 0)
    (hpc : phaseOf (m.held t) (m.pc t) = .idle) (op : MtxOp) (again : Bool) :
    Inv (m.goto t (notOwned m.type op again)) ∧ Seen m (m.goto t (notOwned m.type op again)) := by
  have htry : ∀ op, op ≠ .unlock → Inv (m.goto t (.exchange op false)) ∧ Seen m (m.goto t (.exchange op false)) := by
    intro op hop
    refine h.next (seen_goto (.inr (.start hpc))) (h.ledger.goto ⟨hop, hheld, hentry⟩ fun hp => ?_)
    cases hp
  have hstay : ∀ p, phaseOf (m.held t) p = .idle → Facts m.type (m.held t) (m.entry t) p →
      Inv (m.goto t p) ∧ Seen m (m.goto t p) := by
    intro p hp hf
    refine h.next (seen_goto (.inl (hp.trans hpc.symm))) (h.ledger.goto hf fun hp' => ?_)
    rw [hp] at hp'
    cases hp'
  cases op with
  | lock => exact htry _ (by simp)
  | timedlock time => exact htry _ (by simp)
  | unlock =>
    refine hstay _ ?_ ⟨hheld, hentry⟩
    rw [hheld]
    rfl
  | trylock =>
    dsimp only [Mtx.notOwned]
    split
    · refine hstay _ ?_ (hentry.trans hheld.symm)
      rw [hheld]
      rfl
    · exact htry _ (by simp)

/-- A step of the thread that has the word, which keeps it and touches no cell. -/
theorem Inv.keeps {m : Mtx ι} {t : ι} (h : Inv m) {p : MtxPc} (hf : Facts m.type (m.held t) (m.entry t) p)
    (hpc : m.lock.phase t = .holding) (hp : phaseOf (m.held t) p = .holding) (hcells : Cells m t p) :
    Inv (m.goto t p) ∧ Seen m (m.goto t p) :=
  h.next (seen_goto (.inl (hp.trans hpc.symm))) (h.ledger.goto hf fun _ => hcells)

/-- Every step outside the kernel keeps the invariant. -/
theorem Inv.advance {m : Mtx ι} (h : Inv m) (t : ι) : Inv (m.advance t) ∧ Seen m (m.advance t) := by
  have hf := h.ledger.facts t
  have hc := h.ledger.cells t
  have hphase : m.lock.phase t = phaseOf (m.held t) (m.pc t) := rfl
  unfold Mtx.advance
  cases hpc : m.pc t with
  | idle => exact ⟨h, .inl rfl⟩
  | wait op => exact ⟨h, .inl rfl⟩
  | asleep op => exact ⟨h, .inl rfl⟩
  | wake => exact ⟨h, .inl rfl⟩
  | ownedState op again =>
    rw [hpc] at hf hc hphase
    dsimp only
    by_cases hs : m.state = true
    · rw [if_pos hs]
      exact h.next (seen_goto (.inl (by rw [hpc]; rfl))) (h.ledger.goto hf fun hp => hc (hphase.trans hp))
    · rw [if_neg hs]
      have hzero := h.held_zero (by simpa using hs) t
      refine h.notOwned hzero (hf.trans hzero) ?_ op again
      rw [hpc, hzero]
      rfl
  | ownedOwner op again =>
    rw [hpc] at hf hc hphase
    dsimp only
    by_cases ho : m.owner = some t
    · rw [if_pos ho]
      have hhold := h.owner_holds ho
      have hpos : 0 < m.held t := by
        rcases Nat.eq_zero_or_pos (m.held t) with hz | hz
        · rw [hphase, hz] at hhold
          cases hhold
        · exact hz
      have hcells := hc hhold
      have hkeep : ∀ p, phaseOf (m.held t) p = .holding → Facts m.type (m.held t) (m.entry t) p → Cells m t p →
          Inv (m.goto t p) ∧ Seen m (m.goto t p) := fun p hp hf hc => h.keeps hf hhold hp hc
      have hdefault : ∀ p, Facts m.type (m.held t) (m.entry t) p → Cells m t p →
          Inv (m.goto t p) ∧ Seen m (m.goto t p) := fun p hf hc => hkeep p (phaseOf_held hpos hf) hf hc
      cases op with
      | lock =>
        dsimp only [Mtx.owned]
        split
        · rename_i hr
          exact hdefault _ ⟨by simp, hr, hpos, hf⟩ hcells
        · exact hdefault _ hf.symm hcells
      | timedlock time =>
        dsimp only [Mtx.owned]
        split
        · rename_i hr
          exact hdefault _ ⟨by simp, hr, hpos, hf⟩ hcells
        · exact hdefault _ hf.symm hcells
      | trylock =>
        dsimp only [Mtx.owned]
        split
        · rename_i hr
          exact hdefault _ ⟨by simp, hr.1, hpos, hf⟩ hcells
        · exact hdefault _ hf.symm hcells
      | unlock => exact hdefault _ ⟨hpos, hf⟩ hcells
    · rw [if_neg ho]
      have hzero : m.held t = 0 := by
        by_contra hn
        exact ho (hc (h.holding (Nat.pos_of_ne_zero hn))).1
      refine h.notOwned hzero (hf.trans hzero) ?_ op again
      rw [hpc, hzero]
      rfl
  | recurseDepth op =>
    rw [hpc] at hf hc hphase
    obtain ⟨h1, h2, h3, h4⟩ := hf
    have hhold := h.holding h3
    obtain ⟨g1, g2, g3, g4⟩ := hc hhold
    dsimp only
    split
    · refine h.keeps ?_ hhold (if_neg h3.ne') ⟨g1, g2, g3, g4⟩
      cases op with
      | unlock => exact absurd rfl h1
      | lock => exact h4.symm
      | timedlock time => exact h4.symm
      | trylock => exact h4.symm
    · rename_i hd
      refine h.keeps ⟨h1, h2, h3, h4, ?_⟩ hhold (if_neg h3.ne') ⟨g1, g2, g3, g4⟩
      omega
  | recurseAdd op =>
    rw [hpc] at hf hc hphase
    obtain ⟨h1, h2, h3, h4, h5⟩ := hf
    have hhold := h.holding h3
    obtain ⟨g1, g2, g3, g4⟩ := hc hhold
    have hp := phaseOf_returned (Nat.succ_pos (m.held t)) op .success
    refine h.next (.inl ?_) (h.ledger.update t rfl (fun u hu => goHolding_others _ _ _ hu) ?_ (fun _ => ?_)
      (.inr (h.others hhold)) fun hs => absurd hs (h.not_clear hhold))
    · rw [lock_goHolding, hp]
      exact to_self hhold
    · rw [goHolding_pc, goHolding_held, goHolding_entry]
      have hfacts : m.held t + 1 = m.entry t + 1 ∧ (0 < m.entry t → m.type.recursive = true) := ⟨by rw [h4], fun _ => h2⟩
      cases op with
      | unlock => exact absurd rfl h1
      | lock => exact hfacts
      | timedlock time => exact hfacts
      | trylock => exact hfacts
    · rw [goHolding_pc]
      unfold Cells
      rw [goHolding_held]
      refine ⟨g1, ?_, h5, fun hr => ?_⟩
      · show m.depth + 1 = _
        rw [g2]
        rfl
      · rw [goHolding_type, h2] at hr
        cases hr
  | exchange op woken =>
    rw [hpc] at hf hc hphase
    obtain ⟨h1, h2, h3⟩ := hf
    have htries : m.lock.Tries t := by
      cases woken with
      | false => exact .inl hphase
      | true => exact .inr hphase
    dsimp only
    by_cases hs : m.state = true
    · -- Another thread has the word.
      have hm : ({ m with state := true } : Mtx ι) = m := by rw [← hs]
      rw [hm, if_pos hs]
      have hback : ∀ r, r ≠ .success → Inv (m.goto t (.returned op r)) ∧ Seen m (m.goto t (.returned op r)) := by
        intro r hr
        refine h.next (seen_goto (.inr ?_)) (h.ledger.goto ?_ fun hp => ?_)
        · rw [h2]
          exact .abandon htries hs
        · rw [h2, h3]
          cases op <;> cases r <;> first | rfl | contradiction
        · rw [h2] at hp
          cases hp
      have hwait : Inv (m.goto t (.wait op)) ∧ Seen m (m.goto t (.wait op)) :=
        h.next (seen_goto (.inr (.fail htries hs))) (h.ledger.goto ⟨h1, h2, h3⟩ fun hp => by cases hp)
      cases op with
      | unlock => exact absurd rfl h1
      | lock => exact hwait
      | trylock => exact hback .busy (by simp)
      | timedlock time =>
        cases time with
        | none => exact hwait
        | some time =>
          dsimp only [Mtx.contended]
          split
          · exact hback .timedout (by simp)
          · exact hwait
    · have hs : m.state = false := by simpa using hs
      rw [if_neg (by rw [hs]; exact Bool.false_ne_true)]
      have hno := h.safe.free hs
      obtain ⟨g1, g2⟩ := h.ledger.free hs
      refine h.next (.inr ?_) (h.ledger.update t rfl (fun u hu => goto_others _ _ hu) ?_ (fun _ => ?_)
        (.inr fun u _ => hno u) fun hf => by cases hf)
      · rw [lock_goto]
        exact .acquire htries hs
      · rw [goto_pc]
        exact ⟨h1, h2, h3⟩
      · rw [goto_pc]
        exact ⟨g1, g2⟩
  | storeOwner op =>
    rw [hpc] at hf hc hphase
    obtain ⟨g1, g2⟩ := hc hphase
    refine h.next (.inl ?_) (h.ledger.update t rfl (fun u hu => goto_others _ _ hu) ?_ (fun _ => ?_)
      (.inr (h.others hphase)) fun hs => absurd hs (h.not_clear hphase))
    · rw [lock_goto]
      exact to_self hphase
    · rw [goto_pc]
      exact hf
    · rw [goto_pc]
      exact ⟨rfl, g2⟩
  | storeDepth op =>
    rw [hpc] at hf hc hphase
    obtain ⟨h1, h2, h3⟩ := hf
    obtain ⟨g1, g2⟩ := hc hphase
    have hp := phaseOf_returned (Nat.succ_pos (m.held t)) op .success
    refine h.next (.inl ?_) (h.ledger.update t rfl (fun u hu => goHolding_others _ _ _ hu) ?_ (fun _ => ?_)
      (.inr (h.others hphase)) fun hs => absurd hs (h.not_clear hphase))
    · rw [lock_goHolding, hp]
      exact to_self hphase
    · rw [goHolding_pc, goHolding_held, goHolding_entry]
      have hfacts : m.held t + 1 = m.entry t + 1 ∧ (0 < m.entry t → m.type.recursive = true) :=
        ⟨by rw [h2, h3], fun hlt => absurd h3 hlt.ne'⟩
      cases op with
      | unlock => exact absurd rfl h1
      | lock => exact hfacts
      | timedlock time => exact hfacts
      | trylock => exact hfacts
    · rw [goHolding_pc]
      unfold Cells
      rw [goHolding_held, h2]
      exact ⟨g1, rfl, by decide, fun _ => rfl⟩
  | unlockDepth =>
    rw [hpc] at hf hc hphase
    obtain ⟨h1, h2⟩ := hf
    have hhold := h.holding h1
    obtain ⟨g1, g2, g3, g4⟩ := hc hhold
    dsimp only
    rw [if_neg (by omega)]
    by_cases hr : m.type.recursive = true ∧ m.depth > 1
    · rw [if_pos hr]
      exact h.keeps ⟨hr.1, by omega, h2⟩ hhold (if_neg h1.ne') ⟨g1, g2, g3, g4⟩
    · rw [if_neg hr]
      -- Only a recursive mutex is held more than once.
      have hone : m.held t = 1 := by
        cases hrec : m.type.recursive with
        | false => exact g4 hrec
        | true =>
          have : ¬ m.depth > 1 := fun hd => hr ⟨hrec, hd⟩
          omega
      rw [if_neg (by rw [g2, hone]; decide)]
      exact h.keeps ⟨hone, h2.trans hone⟩ hhold (if_neg h1.ne') ⟨g1, g2, g3, g4⟩
  | unlockNested =>
    rw [hpc] at hf hc hphase
    obtain ⟨h1, h2, h3⟩ := hf
    have hhold := h.holding (Nat.zero_lt_of_lt h2)
    obtain ⟨g1, g2, g3, g4⟩ := hc hhold
    have hp := phaseOf_returned (Nat.sub_pos_of_lt h2) .unlock .success
    refine h.next (.inl ?_) (h.ledger.update t rfl (fun u hu => goHolding_others _ _ _ hu) ?_ (fun _ => ?_)
      (.inr (h.others hhold)) fun hs => absurd hs (h.not_clear hhold))
    · rw [lock_goHolding, hp]
      exact to_self hhold
    · rw [goHolding_pc, goHolding_held, goHolding_entry]
      show m.entry t = m.held t - 1 + 1
      omega
    · rw [goHolding_pc]
      unfold Cells
      rw [goHolding_held]
      refine ⟨g1, ?_, by omega, fun hr => ?_⟩
      · show m.depth - 1 = _
        omega
      · rw [goHolding_type, h1] at hr
        cases hr
  | clearDepth =>
    rw [hpc] at hf hc hphase
    have hpos : 0 < m.held t := by rw [hf.1]; exact Nat.one_pos
    have hhold := h.holding hpos
    obtain ⟨g1, g2, g3, g4⟩ := hc hhold
    refine h.next (.inl ?_) (h.ledger.update t rfl (fun u hu => goto_others _ _ hu) ?_ (fun _ => ?_)
      (.inr (h.others hhold)) fun hs => absurd hs (h.not_clear hhold))
    · rw [lock_goto]
      refine to_self (hhold.trans ?_)
      exact (if_neg hpos.ne').symm
    · rw [goto_pc]
      exact hf
    · rw [goto_pc]
      exact ⟨g1, rfl⟩
  | clearOwner =>
    rw [hpc] at hf hc hphase
    have hpos : 0 < m.held t := by rw [hf.1]; exact Nat.one_pos
    have hhold := h.holding hpos
    obtain ⟨g1, g2⟩ := hc hhold
    refine h.next (.inl ?_) (h.ledger.update t rfl (fun u hu => goto_others _ _ hu) ?_ (fun _ => ?_)
      (.inr (h.others hhold)) fun hs => absurd hs (h.not_clear hhold))
    · rw [lock_goto]
      refine to_self (hhold.trans ?_)
      exact (if_neg hpos.ne').symm
    · rw [goto_pc]
      exact hf
    · rw [goto_pc]
      exact ⟨rfl, g2⟩
  | clearState =>
    rw [hpc] at hf hc hphase
    obtain ⟨h1, h2⟩ := hf
    have hpos : 0 < m.held t := by rw [h1]; exact Nat.one_pos
    have hhold := h.holding hpos
    obtain ⟨g1, g2⟩ := hc hhold
    dsimp only
    rw [if_pos (h.state_true hhold)]
    refine h.next (.inr ?_) (h.ledger.update t rfl (fun u hu => goHolding_others _ _ _ hu) ?_ (fun hp => ?_)
      (.inr (h.others hhold)) fun _ => ⟨g1, g2⟩)
    · rw [lock_goHolding]
      exact .release hhold
    · rw [goHolding_pc, goHolding_held, goHolding_entry, h1]
      exact ⟨rfl, h2⟩
    · rw [lock_goHolding, to_phase, if_pos rfl] at hp
      cases hp
  | returned op result =>
    rw [hpc] at hf hc hphase
    refine h.next (seen_goto (.inl (by rw [hpc]; rfl))) (h.ledger.goto trivial fun hp => ?_)
    exact hc (hphase.trans hp)

/-! ## Steps -/

/-- Only a sleeper is seen asleep, -/
theorem phaseOf_asleep {n : Nat} {p : MtxPc} (h : phaseOf n p = .asleep) : ∃ op, p = .asleep op := by
  cases p with
  | asleep op => exact ⟨op, rfl⟩
  | exchange op woken => cases woken <;> cases h
  | _ =>
    unfold phaseOf at h
    first
      | cases h
      | (dsimp only at h; split at h <;> cases h)

/-- only a thread before its wake waking, -/
theorem phaseOf_waking {n : Nat} {p : MtxPc} (h : phaseOf n p = .waking) : p = .wake := by
  cases p with
  | wake => rfl
  | exchange op woken => cases woken <;> cases h
  | _ =>
    unfold phaseOf at h
    first
      | cases h
      | (dsimp only at h; split at h <;> cases h)

/-- and only one back from its wait retrying. -/
theorem phaseOf_retrying {n : Nat} {p : MtxPc} (h : phaseOf n p = .retrying) : ∃ op, p = .exchange op true := by
  cases p with
  | exchange op woken =>
    cases woken with
    | false => cases h
    | true => exact ⟨op, rfl⟩
  | _ =>
    unfold phaseOf at h
    first
      | cases h
      | (dsimp only at h; split at h <;> cases h)

/-- A thread without acquisitions goes on, and takes nothing. -/
theorem Inv.moves {m : Mtx ι} {t : ι} (h : Inv m) {p : MtxPc}
    (hs : FutexLock.Step m.lock (m.lock.to t (phaseOf (m.held t) p))) (hp : phaseOf (m.held t) p ≠ .holding)
    (hf : Facts m.type (m.held t) (m.entry t) p) : Inv (m.goto t p) ∧ Seen m (m.goto t p) :=
  h.next (seen_goto (.inr hs)) (h.ledger.goto hf fun hp' => absurd hp' hp)

/-- Every step keeps the invariant, and is a step of the lock or none. -/
theorem Inv.step {m m' : Mtx ι} {t : ι} (h : Inv m) (hs : Step m t m') : Inv m' ∧ Seen m m' := by
  have hf := h.ledger.facts t
  have hphase : m.lock.phase t = phaseOf (m.held t) (m.pc t) := rfl
  -- A thread that waits has no acquisitions.
  have hwaits : ∀ op, m.pc t = .wait op ∨ m.pc t = .asleep op →
      m.lock.Waits t ∧ op ≠ .unlock ∧ m.held t = 0 ∧ m.entry t = 0 := by
    intro op hpc
    rcases hpc with hpc | hpc
    · rw [hpc] at hf hphase
      exact ⟨.inl hphase, hf⟩
    · rw [hpc] at hf hphase
      exact ⟨.inr hphase, hf⟩
  have hgiveUp : ∀ op r, m.pc t = .wait op ∨ m.pc t = .asleep op → r ≠ .success →
      Inv (m.goto t (.returned op r)) ∧ Seen m (m.goto t (.returned op r)) := by
    intro op r hpc hr
    obtain ⟨hw, hop, hheld, hentry⟩ := hwaits op hpc
    apply h.moves
    · rw [hheld]
      exact .giveUp hw
    · rw [hheld]
      simp [phaseOf]
    · rw [hheld, hentry]
      cases op <;> cases r <;> first | rfl | contradiction
  cases hs with
  | call op hpc =>
    have hbegin : phaseOf (m.held t) (begin m.type op) = phaseOf (m.held t) (m.pc t) ∧
        Facts m.type (m.held t) (m.held t) (begin m.type op) ∧
        (phaseOf (m.held t) (begin m.type op) = .holding → Cells m t (begin m.type op)) := by
      have hc := h.ledger.cells t
      rw [hphase] at hc
      rw [hpc] at hc ⊢
      cases op with
      | lock => exact ⟨rfl, rfl, hc⟩
      | trylock => exact ⟨rfl, rfl, hc⟩
      | unlock => exact ⟨rfl, rfl, hc⟩
      | timedlock time =>
        dsimp only [begin]
        split
        · exact ⟨rfl, rfl, hc⟩
        · exact ⟨rfl, rfl, hc⟩
    obtain ⟨h1, h2, h3⟩ := hbegin
    unfold Mtx.call
    refine h.next (.inl ?_) (h.ledger.update t rfl (fun u hu => ?_) ?_ (fun hp => ?_) (.inl ⟨rfl, rfl⟩) h.ledger.free)
    · rw [lock_goto]
      exact to_self h1.symm
    · exact ⟨Function.update_of_ne hu _ _, rfl, Function.update_of_ne hu _ _⟩
    · rw [goto_pc, goto_held, goto_entry]
      dsimp only
      rw [Function.update_self]
      exact h2
    · rw [lock_goto, to_phase, if_pos rfl] at hp
      rw [goto_pc]
      exact (h3 hp).congr rfl rfl rfl rfl
  | advance => exact h.advance t
  | sleep hpc hstate =>
    obtain ⟨-, hop, hheld, hentry⟩ := hwaits _ (.inl hpc)
    rw [hpc] at hphase
    exact h.moves (.sleep hphase hstate) (by simp [phaseOf]) ⟨hop, hheld, hentry⟩
  | again hpc =>
    obtain ⟨hw, hop, hheld, hentry⟩ := hwaits _ hpc
    exact h.moves (.again hw) (by simp [phaseOf]) ⟨hop, hheld, hentry⟩
  | timeout hpc => exact hgiveUp _ _ hpc (by simp)
  | fails hpc => exact hgiveUp _ _ (.inl hpc) (by simp)
  | @wake u op hpc hu =>
    have hfu := h.ledger.facts u
    have hphaseu : m.lock.phase u = phaseOf (m.held u) (m.pc u) := rfl
    rw [hpc] at hf hphase
    rw [hu] at hfu hphaseu
    have hne : t ≠ u := by
      rintro rfl
      rw [hpc] at hu
      cases hu
    have hpc' : (m.goto u (.exchange op true)).pc t = .wake := (goto_others m _ hne).1.trans hpc
    have hledger : Ledger (m.goto u (.exchange op true)) := h.ledger.goto hfu fun hp => by cases hp
    refine h.next (.inr ?_) (hledger.goto ?_ fun hp => ?_)
    · rw [lock_goto, lock_goto, goto_held, hf.1]
      exact .wake hphase hphaseu
    · rw [goto_held, goto_entry, hf.1, hf.2]
      rfl
    · rw [goto_held, hf.1] at hp
      cases hp
  | wakeNone hpc hnone =>
    rw [hpc] at hf hphase
    apply h.moves
    · rw [hf.1]
      refine .wakeNone hphase fun u hu => ?_
      obtain ⟨op, hp⟩ := phaseOf_asleep hu
      exact hnone u op hp
    · rw [hf.1]
      simp [phaseOf]
    · rw [hf.1, hf.2]
      rfl

omit [DecidableEq ι] in
theorem Init.inv {m : Mtx ι} (h : Init m) : Inv m ∧ FutexLock.Free m.lock := by
  have hidle : ∀ t, m.lock.phase t = .idle := fun t => by
    show phaseOf (m.held t) (m.pc t) = _
    rw [h.held t, h.idle t]
    rfl
  have hfree : FutexLock.Free m.lock := ⟨h.state, hidle⟩
  refine ⟨⟨hfree.safe, ⟨fun t => ?_, fun t hp => ?_, fun _ => ⟨h.owner, h.depth⟩⟩⟩, hfree⟩
  · rw [h.idle t]
    trivial
  · rw [hidle t] at hp
    cases hp

/-- A run of a mutex is a run of the lock. -/
theorem reachable_inv {m : Mtx ι} (h : Reachable Init Moves m) : Inv m ∧ Reachable FutexLock.Free FutexLock.Step m.lock :=
  h.view lock (fun _ h => h.inv) fun _ _ h ⟨_, hs⟩ => h.step hs

end MiniLibc.Thread.Mtx
