import MiniLibc.Thread.Ownership
/-!
# Mutual exclusion

What the invariant of a mutex says to its callers, over every run of any number
of threads.
-/
open MiniLibc.FutexLock MiniLibc.Runs

namespace MiniLibc.Thread.Mtx

variable {ι : Type} [DecidableEq ι]

/-- The thread took the state word and has not cleared it. -/
def Owns (m : Mtx ι) (t : ι) : Prop := m.lock.phase t = .holding

/-- In `mtx_unlock`. -/
def Unlocking : MtxPc → Prop
  | .ownedState op _ | .ownedOwner op _ | .returned op _ => op = .unlock
  | .unlockDepth | .unlockNested | .clearDepth | .clearOwner | .clearState | .wake => True
  | _ => False

/-- No thread is between the exchange of the state and the stores around it. -/
def Settled (m : Mtx ι) : Prop :=
  ∀ t, (∀ op, m.pc t ≠ .storeOwner op ∧ m.pc t ≠ .storeDepth op) ∧ m.pc t ≠ .clearOwner ∧ m.pc t ≠ .clearState

omit [DecidableEq ι] in
/-- A settled mutex is free, or its owner and depth are its holder and how often
the holder acquired it. -/
theorem Inv.settled {m : Mtx ι} (h : Inv m) (hs : Settled m) :
    (m.state = false ∧ m.owner = none ∧ m.depth = 0 ∧ ∀ t, m.held t = 0) ∨
      ∃ t, m.state = true ∧ m.owner = some t ∧ m.depth = m.held t ∧ 0 < m.held t ∧ ∀ u, u ≠ t → m.held u = 0 := by
  cases hstate : m.state with
  | false =>
    obtain ⟨h1, h2⟩ := h.ledger.free hstate
    exact .inl ⟨rfl, h1, h2, h.held_zero hstate⟩
  | true =>
    obtain ⟨t, ht⟩ := h.safe.held.1 hstate
    obtain ⟨hstore, howner, hclear⟩ := hs t
    have hpos : 0 < m.held t := by
      rcases Nat.eq_zero_or_pos (m.held t) with hz | hz
      · have hp : phaseOf (m.held t) (m.pc t) = .holding := ht
        rw [hz] at hp
        cases hpc : m.pc t with
        | storeOwner op => exact absurd hpc (hstore op).1
        | storeDepth op => exact absurd hpc (hstore op).2
        | exchange op woken =>
          rw [hpc] at hp
          cases woken <;> cases hp
        | _ =>
          rw [hpc] at hp
          cases hp
      · exact hz
    have hcells : m.owner = some t ∧ m.depth = m.held t := by
      have hc := h.ledger.cells t ht
      cases hpc : m.pc t with
      | storeOwner op => exact absurd hpc (hstore op).1
      | storeDepth op => exact absurd hpc (hstore op).2
      | clearOwner => exact absurd hpc howner
      | clearState => exact absurd hpc hclear
      | _ =>
        rw [hpc] at hc
        exact ⟨hc.1, hc.2.1⟩
    refine .inr ⟨t, rfl, hcells.1, hcells.2, hpos, fun u hu => ?_⟩
    by_contra hn
    exact h.others ht u hu (h.holding (Nat.pos_of_ne_zero hn))

omit [DecidableEq ι] in
/-- The depth is a count of acquisitions, and never out of range. -/
theorem Inv.depth_bounds {m : Mtx ι} (h : Inv m) : 0 ≤ m.depth ∧ m.depth ≤ mtxIntMax := by
  cases hstate : m.state with
  | false =>
    rw [(h.ledger.free hstate).2]
    decide
  | true =>
    obtain ⟨t, ht⟩ := h.safe.held.1 hstate
    have hc := h.ledger.cells t ht
    have hzero : m.depth = 0 → 0 ≤ m.depth ∧ m.depth ≤ mtxIntMax := fun hz => by rw [hz]; decide
    have hheld : m.depth = m.held t ∧ m.held t ≤ mtxIntMax → 0 ≤ m.depth ∧ m.depth ≤ mtxIntMax := by
      rintro ⟨hd, hle⟩
      rw [hd]
      exact ⟨Int.natCast_nonneg _, by exact_mod_cast hle⟩
    cases hpc : m.pc t <;> rw [hpc] at hc
    all_goals first
      | exact hzero hc.2
      | exact hheld ⟨hc.2.1, hc.2.2.1⟩

/-- The call of a thread that does not hold the mutex touches nothing. -/
theorem Inv.unlock_refused {m m' : Mtx ι} {t : ι} (h : Inv m) (hs : Step m t m') (hpc : Unlocking (m.pc t))
    (hentry : m.entry t = 0) :
    m'.state = m.state ∧ m'.owner = m.owner ∧ m'.depth = m.depth ∧ m'.held = m.held ∧
      m'.pc t ≠ .returned .unlock .success := by
  have hf := h.ledger.facts t
  rw [hentry] at hf
  have hstay : ∀ p, p ≠ .returned .unlock .success →
      (m.goto t p).state = m.state ∧ (m.goto t p).owner = m.owner ∧ (m.goto t p).depth = m.depth ∧
        (m.goto t p).held = m.held ∧ (m.goto t p).pc t ≠ .returned .unlock .success := by
    intro p hp
    refine ⟨rfl, rfl, rfl, rfl, ?_⟩
    rw [goto_pc]
    exact hp
  have hwaits : ∀ op, ¬ (m.pc t = .wait op ∨ m.pc t = .asleep op) := by
    rintro op (hw | hw)
    · rw [hw] at hpc
      exact hpc
    · rw [hw] at hpc
      exact hpc
  cases hs with
  | call op hidle =>
    rw [hidle] at hpc
    exact absurd hpc id
  | sleep hw => exact absurd (.inl hw) (hwaits _)
  | again hw => exact absurd hw (hwaits _)
  | timeout hw => exact absurd hw (hwaits _)
  | fails hw => exact absurd (.inl hw) (hwaits _)
  | wake hw =>
    rw [hw] at hf
    exact absurd hf.2 (by simp)
  | wakeNone hw =>
    rw [hw] at hf
    exact absurd hf.2 (by simp)
  | advance =>
    unfold Mtx.advance
    cases hp : m.pc t with
    | ownedState op again =>
      rw [hp] at hpc
      obtain rfl : op = .unlock := hpc
      apply hstay
      split <;> simp [Mtx.notOwned]
    | ownedOwner op again =>
      rw [hp] at hpc
      obtain rfl : op = .unlock := hpc
      apply hstay
      split <;> simp [Mtx.notOwned, Mtx.owned]
    | returned op r => exact hstay _ (by simp)
    | idle => rw [hp] at hpc; exact absurd hpc id
    | recurseDepth op => rw [hp] at hpc; exact absurd hpc id
    | recurseAdd op => rw [hp] at hpc; exact absurd hpc id
    | exchange op woken => rw [hp] at hpc; exact absurd hpc id
    | storeOwner op => rw [hp] at hpc; exact absurd hpc id
    | storeDepth op => rw [hp] at hpc; exact absurd hpc id
    | wait op => rw [hp] at hpc; exact absurd hpc id
    | asleep op => rw [hp] at hpc; exact absurd hpc id
    | unlockDepth =>
      rw [hp] at hf
      exact absurd hf.2.symm hf.1.ne'
    | unlockNested =>
      rw [hp] at hf
      obtain ⟨-, h1, h2⟩ := hf
      omega
    | clearDepth => rw [hp] at hf; exact absurd hf.2 (by simp)
    | clearOwner => rw [hp] at hf; exact absurd hf.2 (by simp)
    | clearState => rw [hp] at hf; exact absurd hf.2 (by simp)
    | wake => rw [hp] at hf; exact absurd hf.2 (by simp)

/-- A thread that comes to own the mutex found it free. -/
theorem Inv.takes {m m' : Mtx ι} {t : ι} (h : Inv m) (hs : Moves m m') (hn : ¬ Owns m t) (ht : Owns m' t) :
    m.state = false ∧ ∀ u, ¬ Owns m u := by
  obtain ⟨v, hs⟩ := hs
  rcases (h.step hs).2 with he | hl
  · refine absurd ?_ hn
    unfold Owns at ht ⊢
    rwa [he] at ht
  · have hw := hl.takes hn ht
    exact ⟨hw, h.safe.free hw⟩

/-- A mutex of any type, over every run of any number of threads.
- At most one thread holds it.
- While no acquisition or release is between its stores, owner and depth are the
  holder and the number of its acquisitions, or the mutex is free.
- `mtx_unlock` in a thread that does not hold the mutex fails: none of its steps
  changes a cell.
- The depth does not overflow.
- A thread comes to own the mutex only when nobody does, so `mtx_trylock`
  succeeds from a free mutex, or it counts up the acquisitions of the holder of
  a recursive one. -/
theorem mutex_correct {m : Mtx ι} (h : Reachable Init Moves m) :
    (∀ t u, Owns m t → Owns m u → t = u) ∧ (∀ t, 0 < m.held t → Owns m t) ∧
    (Settled m →
      (m.state = false ∧ m.owner = none ∧ m.depth = 0 ∧ ∀ t, m.held t = 0) ∨
        ∃ t, m.state = true ∧ m.owner = some t ∧ m.depth = m.held t ∧ 0 < m.held t ∧ ∀ u, u ≠ t → m.held u = 0) ∧
    (∀ t, m.entry t = 0 → Unlocking (m.pc t) →
      m.pc t ≠ .returned .unlock .success ∧
        ∀ m', Step m t m' → m'.state = m.state ∧ m'.owner = m.owner ∧ m'.depth = m.depth ∧ m'.held = m.held ∧
          m'.pc t ≠ .returned .unlock .success) ∧
    (0 ≤ m.depth ∧ m.depth ≤ mtxIntMax) ∧
    (∀ t m', Moves m m' → ¬ Owns m t → Owns m' t → m.state = false ∧ ∀ u, ¬ Owns m u) ∧
    (∀ t, m.pc t = .returned .trylock .success →
      m.held t = m.entry t + 1 ∧ (0 < m.entry t → m.type.recursive = true)) := by
  have hinv := (reachable_inv h).1
  refine ⟨hinv.safe.exclusive, fun t ht => hinv.holding ht, hinv.settled, fun t hentry hpc => ⟨fun hp => ?_, ?_⟩,
    hinv.depth_bounds, fun t m' hs hn ht => hinv.takes hs hn ht, fun t hp => ?_⟩
  · have hf := hinv.ledger.facts t
    rw [hp, hentry] at hf
    exact Nat.succ_ne_zero _ hf.symm
  · exact fun m' hs => hinv.unlock_refused hs hpc hentry
  · have hf := hinv.ledger.facts t
    rw [hp] at hf
    exact hf

/-- A new mutex. -/
def fresh (type : MtxType) : Mtx Bool :=
  { type, state := false, owner := none, depth := 0, pc := fun _ => .idle, held := fun _ => 0, entry := fun _ => 0 }

theorem fresh_init (type : MtxType) : Init (fresh type) := ⟨rfl, rfl, rfl, fun _ => rfl, fun _ => rfl⟩

/-- One of two threads has locked a new mutex. -/
def locked : Mtx Bool :=
  ((((fresh ⟨false, false⟩).call true .lock).advance true).advance true |>.advance true).advance true

theorem locked_reachable : Reachable Init Moves locked :=
  .next (.next (.next (.next (.next (.start (fresh_init _)) ⟨true, .call .lock rfl⟩) ⟨true, .advance⟩)
    ⟨true, .advance⟩) ⟨true, .advance⟩) ⟨true, .advance⟩

theorem mutex_correct_locked : locked.held true = 1 ∧ locked.owner = some true ∧ ¬ Owns locked false := by
  obtain ⟨hexclusive, hheld, -⟩ := mutex_correct locked_reachable
  refine ⟨by decide, by decide, fun hf => ?_⟩
  exact absurd (hexclusive true false (hheld true (by decide)) hf) (by decide)

end MiniLibc.Thread.Mtx
