import MiniLibc.Thread.FutexWord
/-!
# The stdio lock

`src/stdio/lock.c`: a futex lock that its holder may take again. The count of a thread is
the `reserved` word of its control block, which no other thread touches. Every stdio
function works on the streams between a call of `__mini_stdio_lock` and the matching one of
`__mini_stdio_unlock`, so what a thread does from its outermost lock to the matching unlock
is one section that no other thread's work gets into.
-/
open MiniLibc.FutexLock MiniLibc.Runs

namespace MiniLibc.Stdio

/-- What a thread does next. -/
inductive StdioPc where
  /-- Outside both functions. -/
  | running
  /-- `mini_futex_lock_acquire`: exchange the state; `woken` after a wait. -/
  | exchange (woken : Bool)
  | wait
  | asleep
  /-- Acquired: before `tcb->reserved = 1U`. -/
  | setReserved
  /-- `mini_futex_lock_release`: exchange the state. -/
  | release
  | wake
deriving DecidableEq, Repr

/-- The lock word, the threads, and what the stdio functions share. -/
structure StdioLock (ι σ : Type) where
  state : Bool
  pc : ι → StdioPc
  reserved : ι → Nat
  shared : σ
  /-- The calls of `__mini_stdio_lock` that have returned and are not matched yet. -/
  depth : ι → Nat
  /-- How often a thread has come in from outside. -/
  turns : ι → Nat
  /-- The work on the shared state so far: who did it, in which of its turns, and what. -/
  trace : List ((ι × Nat) × (σ → σ))

namespace StdioLock

variable {ι σ : Type} [DecidableEq ι]

def goto (w : StdioLock ι σ) (t : ι) (p : StdioPc) : StdioLock ι σ := { w with pc := Function.update w.pc t p }

/-- A call of `__mini_stdio_lock`. -/
def lockCall (w : StdioLock ι σ) (t : ι) : StdioLock ι σ :=
  if w.reserved t ≠ 0 then
    { w with
      reserved := Function.update w.reserved t ((w.reserved t + 1) % 2 ^ 32)
      depth := Function.update w.depth t (w.depth t + 1) }
  else w.goto t (.exchange false)

/-- The exchange in `mini_futex_lock_acquire`. -/
def acquire (w : StdioLock ι σ) (t : ι) : StdioLock ι σ :=
  { w with state := true }.goto t (if w.state then .wait else .setReserved)

/-- `__mini_stdio_lock` returns. -/
def enter (w : StdioLock ι σ) (t : ι) : StdioLock ι σ :=
  { w with
    reserved := Function.update w.reserved t 1
    depth := Function.update w.depth t (w.depth t + 1)
    turns := Function.update w.turns t (w.turns t + 1) }.goto t .running

/-- A call of `__mini_stdio_unlock`. -/
def unlockCall (w : StdioLock ι σ) (t : ι) : StdioLock ι σ :=
  let w := { w with depth := Function.update w.depth t (w.depth t - 1) }
  if w.reserved t > 1 then { w with reserved := Function.update w.reserved t (w.reserved t - 1) }
  else { w with reserved := Function.update w.reserved t 0 }.goto t .release

/-- The exchange in `mini_futex_lock_release`. -/
def releaseWord (w : StdioLock ι σ) (t : ι) : StdioLock ι σ :=
  { w with state := false }.goto t (if w.state then .wake else .running)

/-- Work on the shared state. -/
def work (w : StdioLock ι σ) (t : ι) (f : σ → σ) : StdioLock ι σ :=
  { w with shared := f w.shared, trace := w.trace ++ [((t, w.turns t), f)] }

/-- The steps of the threads. Work is done between a lock and its unlock, unlocks match
locks, and no thread nests as many calls as the count has values. -/
inductive Step : StdioLock ι σ → StdioLock ι σ → Prop where
  | lock {w : StdioLock ι σ} {t : ι} : w.pc t = .running → w.depth t + 1 < 2 ^ 32 → Step w (w.lockCall t)
  | acquire {w : StdioLock ι σ} {t : ι} {woken : Bool} : w.pc t = .exchange woken → Step w (w.acquire t)
  | sleep {w : StdioLock ι σ} {t : ι} : w.pc t = .wait → w.state = true → Step w (w.goto t .asleep)
  | again {w : StdioLock ι σ} {t : ι} : w.pc t = .wait ∨ w.pc t = .asleep → Step w (w.goto t (.exchange true))
  | enter {w : StdioLock ι σ} {t : ι} : w.pc t = .setReserved → Step w (w.enter t)
  | work {w : StdioLock ι σ} {t : ι} (f : σ → σ) : w.pc t = .running → 0 < w.depth t → Step w (w.work t f)
  | unlock {w : StdioLock ι σ} {t : ι} : w.pc t = .running → 0 < w.depth t → Step w (w.unlockCall t)
  | release {w : StdioLock ι σ} {t : ι} : w.pc t = .release → Step w (w.releaseWord t)
  | wake {w : StdioLock ι σ} {t u : ι} : w.pc t = .wake → w.pc u = .asleep →
    Step w ((w.goto u (.exchange true)).goto t .running)
  | wakeNone {w : StdioLock ι σ} {t : ι} : w.pc t = .wake → (∀ u, w.pc u ≠ .asleep) → Step w (w.goto t .running)

/-- No thread has come yet. -/
def Init (start : σ) (w : StdioLock ι σ) : Prop :=
  w.state = false ∧ w.shared = start ∧ w.trace = [] ∧
    ∀ t, w.pc t = .running ∧ w.reserved t = 0 ∧ w.depth t = 0 ∧ w.turns t = 0

/-! ## The view as a lock -/

/-- The phase of a thread that is inside or not. -/
def phaseOf (depth : Nat) : StdioPc → Phase
  | .running => if depth = 0 then .idle else .holding
  | .exchange woken => if woken then .retrying else .trying
  | .wait => .contended
  | .asleep => .asleep
  | .setReserved => .holding
  | .release => .holding
  | .wake => .waking

def lock (w : StdioLock ι σ) : Lock ι := ⟨w.state, fun t => phaseOf (w.depth t) (w.pc t)⟩

/-- The count of a thread is its depth, and outside there is none. -/
def Counted (w : StdioLock ι σ) : Prop :=
  ∀ t, w.reserved t = w.depth t ∧ w.depth t < 2 ^ 32 ∧ (w.pc t ≠ .running → w.depth t = 0)

omit [DecidableEq ι] in
theorem lock_phase {w : StdioLock ι σ} {t : ι} {p : StdioPc} (h : w.pc t = p) :
    w.lock.phase t = phaseOf (w.depth t) p := by
  rw [← h]
  rfl

/-! Each phase but two has one place in the code. -/

theorem phaseOf_asleep {depth : Nat} {p : StdioPc} (h : phaseOf depth p = .asleep) : p = .asleep := by
  cases p with
  | asleep => rfl
  | running =>
    simp only [phaseOf] at h
    split at h <;> cases h
  | exchange woken => cases woken <;> cases h
  | _ => cases h

theorem phaseOf_waking {depth : Nat} {p : StdioPc} (h : phaseOf depth p = .waking) : p = .wake := by
  cases p with
  | wake => rfl
  | running =>
    simp only [phaseOf] at h
    split at h <;> cases h
  | exchange woken => cases woken <;> cases h
  | _ => cases h

theorem phaseOf_retrying {depth : Nat} {p : StdioPc} (h : phaseOf depth p = .retrying) : p = .exchange true := by
  cases p with
  | exchange woken =>
    cases woken with
    | true => rfl
    | false => cases h
  | running =>
    simp only [phaseOf] at h
    split at h <;> cases h
  | _ => cases h

theorem phaseOf_holding {depth : Nat} {p : StdioPc} (h : phaseOf depth p = .holding) :
    0 < depth ∨ p = .setReserved ∨ p = .release := by
  cases p with
  | running =>
    simp only [phaseOf] at h
    split at h
    · cases h
    · exact .inl (Nat.pos_of_ne_zero ‹_›)
  | setReserved => exact .inr (.inl rfl)
  | release => exact .inr (.inr rfl)
  | exchange woken => cases woken <;> cases h
  | _ => cases h

/-- A step of thread `t`: the others' marks stay. -/
structure StepOf (t : ι) (w w' : StdioLock ι σ) : Prop where
  pc : ∀ u, u ≠ t → w'.pc u = w.pc u
  reserved : ∀ u, u ≠ t → w'.reserved u = w.reserved u
  depth : ∀ u, u ≠ t → w'.depth u = w.depth u
  turns : ∀ u, u ≠ t → w'.turns u = w.turns u

theorem goto_stepOf (w : StdioLock ι σ) (t : ι) (p : StdioPc) : StepOf t w (w.goto t p) :=
  ⟨fun _ hu => by simp [goto, hu], fun _ _ => rfl, fun _ _ => rfl, fun _ _ => rfl⟩

theorem lockCall_stepOf (w : StdioLock ι σ) (t : ι) : StepOf t w (w.lockCall t) := by
  unfold lockCall
  split
  · exact ⟨fun _ _ => rfl, fun _ hu => by simp [hu], fun _ hu => by simp [hu], fun _ _ => rfl⟩
  · exact goto_stepOf w t _

theorem enter_stepOf (w : StdioLock ι σ) (t : ι) : StepOf t w (w.enter t) :=
  ⟨fun _ hu => by simp [enter, goto, hu], fun _ hu => by simp [enter, goto, hu], fun _ hu => by simp [enter, goto, hu],
    fun _ hu => by simp [enter, goto, hu]⟩

theorem unlockCall_stepOf (w : StdioLock ι σ) (t : ι) : StepOf t w (w.unlockCall t) := by
  unfold unlockCall
  dsimp only
  split
  · exact ⟨fun _ _ => rfl, fun _ hu => by simp [hu], fun _ hu => by simp [hu], fun _ _ => rfl⟩
  · exact ⟨fun _ hu => by simp [goto, hu], fun _ hu => by simp [goto, hu], fun _ hu => by simp [goto, hu], fun _ _ => rfl⟩

/-- It is a change of the thread's phase. -/
theorem StepOf.lock {t : ι} {w w' : StdioLock ι σ} (h : StepOf t w w') :
    w'.lock = (w.lock.put w'.state).to t (phaseOf (w'.depth t) (w'.pc t)) := by
  refine congrArg (Lock.mk w'.state) ?_
  funext u
  by_cases hu : u = t
  · subst hu
    simp
  · simp [Function.update_of_ne hu, StdioLock.lock, h.pc u hu, h.depth u hu]

theorem lock_goto (w : StdioLock ι σ) (t : ι) (p : StdioPc) :
    (w.goto t p).lock = w.lock.to t (phaseOf (w.depth t) p) := by
  rw [(goto_stepOf w t p).lock]
  simp [goto, Lock.put, StdioLock.lock]

/-- A step that leaves word and phase leaves the lock. -/
theorem StepOf.same {t : ι} {w w' : StdioLock ι σ} (h : StepOf t w w') (hs : w'.state = w.state)
    (hp : w.lock.phase t = phaseOf (w'.depth t) (w'.pc t)) : w'.lock = w.lock := by
  rw [h.lock, hs]
  exact to_self hp

omit [DecidableEq ι] in
theorem StepOf.counted {t : ι} {w w' : StdioLock ι σ} (h : StepOf t w w') (hc : Counted w)
    (ht : w'.reserved t = w'.depth t ∧ w'.depth t < 2 ^ 32 ∧ (w'.pc t ≠ .running → w'.depth t = 0)) : Counted w' := by
  intro u
  by_cases hu : u = t
  · rw [hu]
    exact ht
  · rw [h.reserved u hu, h.depth u hu, h.pc u hu]
    exact hc u

omit [DecidableEq ι] in
/-- Where a thread is whose phase is known. -/
theorem Counted.outside {w : StdioLock ι σ} (h : Counted w) {t : ι} (hpc : w.pc t ≠ .running) :
    w.reserved t = 0 ∧ w.depth t = 0 := by
  obtain ⟨hr, -, hd⟩ := h t
  rw [hr, hd hpc]
  exact ⟨rfl, rfl⟩

/-! ## The steps -/

theorem lock_spec {w : StdioLock ι σ} (hc : Counted w) {t : ι} (hpc : w.pc t = .running) (hd : w.depth t + 1 < 2 ^ 32) :
    Counted (w.lockCall t) ∧
      ((0 < w.depth t ∧ (w.lockCall t).lock = w.lock) ∨
        (w.depth t = 0 ∧ FutexLock.Step w.lock (w.lockCall t).lock)) := by
  have hstep := lockCall_stepOf w t
  have hcount := hc t
  by_cases h0 : w.depth t = 0
  · have hcall : w.lockCall t = w.goto t (.exchange false) := by
      unfold lockCall
      rw [if_neg (by omega)]
    refine ⟨hstep.counted hc ?_, .inr ⟨h0, ?_⟩⟩
    · rw [hcall]
      exact ⟨hcount.1, hcount.2.1, fun _ => h0⟩
    · rw [hcall, lock_goto]
      refine .start ((lock_phase hpc).trans ?_)
      simp [phaseOf, h0]
  · have hcall : w.lockCall t = { w with
        reserved := Function.update w.reserved t ((w.reserved t + 1) % 2 ^ 32)
        depth := Function.update w.depth t (w.depth t + 1) } := by
      unfold lockCall
      rw [if_pos (by omega)]
    refine ⟨hstep.counted hc ?_, .inl ⟨by omega, hstep.same (by rw [hcall]) ?_⟩⟩
    · rw [hcall]
      dsimp only
      rw [Function.update_self, Function.update_self, hcount.1, Nat.mod_eq_of_lt hd]
      exact ⟨rfl, hd, fun h => absurd hpc h⟩
    · rw [lock_phase hpc, hcall]
      dsimp only
      rw [Function.update_self, hpc]
      simp [phaseOf, h0]

theorem acquire_spec {w : StdioLock ι σ} (hc : Counted w) {t : ι} {woken : Bool} (hpc : w.pc t = .exchange woken) :
    Counted (w.acquire t) ∧ FutexLock.Step w.lock (w.acquire t).lock := by
  have hcount := hc t
  obtain ⟨hr, hd⟩ := hc.outside (t := t) (by simp [hpc])
  have htries : w.lock.Tries t := by
    cases woken with
    | false => exact .inl (lock_phase hpc)
    | true => exact .inr (lock_phase hpc)
  have hstep : StepOf t w (w.acquire t) :=
    ⟨fun u hu => by simp [StdioLock.acquire, goto, hu], fun _ _ => rfl, fun _ _ => rfl, fun _ _ => rfl⟩
  refine ⟨hstep.counted hc ⟨hcount.1, hcount.2.1, fun _ => hd⟩, ?_⟩
  unfold StdioLock.acquire
  rw [lock_goto]
  cases hs : w.state with
  | true =>
    have hw : ({ w with state := true } : StdioLock ι σ) = w := by rw [← hs]
    rw [hw]
    exact .fail htries hs
  | false => exact .acquire htries hs

theorem enter_spec {w : StdioLock ι σ} (hc : Counted w) {t : ι} (hpc : w.pc t = .setReserved) :
    Counted (w.enter t) ∧ (w.enter t).lock = w.lock := by
  obtain ⟨hr, hd⟩ := hc.outside (t := t) (by simp [hpc])
  have hstep := enter_stepOf w t
  refine ⟨hstep.counted hc ?_, hstep.same rfl ?_⟩
  · simp [enter, goto, hd]
  · rw [lock_phase hpc]
    simp [enter, goto, phaseOf]

theorem unlock_spec {w : StdioLock ι σ} (hc : Counted w) {t : ι} (hpc : w.pc t = .running) (hd : 0 < w.depth t) :
    Counted (w.unlockCall t) ∧ (w.unlockCall t).lock = w.lock := by
  have hstep := unlockCall_stepOf w t
  have hcount := hc t
  have hphase : w.lock.phase t = .holding := by
    rw [lock_phase hpc]
    simp [phaseOf, Nat.ne_of_gt hd]
  by_cases h1 : w.depth t = 1
  · have hcall : w.unlockCall t = { w with
        depth := Function.update w.depth t (w.depth t - 1)
        reserved := Function.update w.reserved t 0 }.goto t .release := by
      unfold unlockCall
      dsimp only
      rw [if_neg (by omega)]
    refine ⟨hstep.counted hc ?_, hstep.same (by rw [hcall]; rfl) ?_⟩
    · rw [hcall]
      simp [goto, h1]
    · rw [hphase, hcall]
      simp [goto, phaseOf]
  · have hcall : w.unlockCall t = { w with
        depth := Function.update w.depth t (w.depth t - 1)
        reserved := Function.update w.reserved t (w.reserved t - 1) } := by
      unfold unlockCall
      dsimp only
      rw [if_pos (by omega)]
    refine ⟨hstep.counted hc ?_, hstep.same (by rw [hcall]) ?_⟩
    · rw [hcall]
      dsimp only
      rw [Function.update_self, Function.update_self, hcount.1]
      exact ⟨rfl, by omega, fun h => absurd hpc h⟩
    · rw [hphase, hcall]
      dsimp only
      rw [Function.update_self, hpc]
      simp only [phaseOf]
      rw [if_neg (by omega)]

theorem release_spec {w : StdioLock ι σ} (hsafe : Safe w.lock) (hc : Counted w) {t : ι} (hpc : w.pc t = .release) :
    Counted (w.releaseWord t) ∧ (w.releaseWord t).pc t = .wake ∧ FutexLock.Step w.lock (w.releaseWord t).lock := by
  obtain ⟨hr, hd⟩ := hc.outside (t := t) (by simp [hpc])
  have hphase : w.lock.phase t = .holding := lock_phase hpc
  have hs : w.state = true := hsafe.held.2 ⟨t, hphase⟩
  have hstep : StepOf t w (w.releaseWord t) :=
    ⟨fun u hu => by simp [releaseWord, goto, hu], fun _ _ => rfl, fun _ _ => rfl, fun _ _ => rfl⟩
  refine ⟨hstep.counted hc ⟨(hc t).1, (hc t).2.1, fun _ => hd⟩, by simp [releaseWord, goto, hs], ?_⟩
  unfold releaseWord
  rw [lock_goto, if_pos hs]
  exact .release hphase

/-! ## Sections -/

/-- The work of one turn: whose, which, and what it did. -/
abbrev Turn (ι σ : Type) := (ι × Nat) × List (σ → σ)

def Turn.played (turn : Turn ι σ) : List ((ι × Nat) × (σ → σ)) := turn.2.map fun f => (turn.1, f)

/-- The work so far is a list of turns, and a thread that is inside has the last one. -/
structure Sections (w : StdioLock ι σ) (turns : List (Turn ι σ)) : Prop where
  distinct : (turns.map Prod.fst).Nodup
  trace : w.trace = turns.flatMap Turn.played
  past : ∀ turn ∈ turns, turn.1.2 ≤ w.turns turn.1.1
  current : ∀ t, 0 < w.depth t → ∃ before works, turns = before ++ [((t, w.turns t), works)]

omit [DecidableEq ι] in
theorem Sections.kept {w w' : StdioLock ι σ} {turns : List (Turn ι σ)} (h : Sections w turns)
    (htrace : w'.trace = w.trace) (hturns : w'.turns = w.turns) (hdepth : ∀ t, 0 < w'.depth t → 0 < w.depth t) :
    Sections w' turns where
  distinct := h.distinct
  trace := htrace.trans h.trace
  past := by
    rw [hturns]
    exact h.past
  current t ht := by
    rw [hturns]
    exact h.current t (hdepth t ht)

/-- A thread that comes in opens a turn of its own. -/
theorem Sections.enter {w : StdioLock ι σ} {turns : List (Turn ι σ)} (h : Sections w turns) {t : ι}
    (hfree : ∀ u, w.depth u = 0) : Sections (w.enter t) (turns ++ [((t, w.turns t + 1), [])]) where
  distinct := by
    rw [List.map_append, List.map_singleton, List.nodup_append]
    refine ⟨h.distinct, List.nodup_singleton _, ?_⟩
    rintro a ha b hb rfl
    obtain rfl := List.mem_singleton.1 hb
    obtain ⟨turn, hturn, ha⟩ := List.mem_map.1 ha
    have := h.past turn hturn
    rw [ha] at this
    exact Nat.not_succ_le_self _ this
  trace := by
    rw [List.flatMap_append, List.flatMap_singleton]
    exact h.trace.trans (List.append_nil _).symm
  past turn hturn := by
    have hturns : ∀ u, w.turns u ≤ (w.enter t).turns u := by
      intro u
      by_cases hu : u = t
      · subst hu
        simp [StdioLock.enter, goto]
      · simp [StdioLock.enter, goto, hu]
    rcases List.mem_append.1 hturn with hturn | hturn
    · exact (h.past turn hturn).trans (hturns _)
    · obtain rfl := List.mem_singleton.1 hturn
      simp [StdioLock.enter, goto]
  current u hu := by
    have hut : u = t := by
      by_contra hne
      rw [(enter_stepOf w t).depth u hne, hfree u] at hu
      exact Nat.lt_irrefl 0 hu
    subst hut
    exact ⟨turns, [], by simp [StdioLock.enter, goto]⟩

omit [DecidableEq ι] in
/-- Work goes into the turn of the only thread that is inside. -/
theorem Sections.work {w : StdioLock ι σ} {turns : List (Turn ι σ)} (h : Sections w turns) {t : ι}
    (ht : 0 < w.depth t) (halone : ∀ u, 0 < w.depth u → u = t) (f : σ → σ) :
    ∃ turns', Sections (w.work t f) turns' := by
  obtain ⟨before, works, rfl⟩ := h.current t ht
  refine ⟨before ++ [((t, w.turns t), works ++ [f])], ?_, ?_, fun turn hturn => ?_, fun u hu => ?_⟩
  · have := h.distinct
    rwa [List.map_append, List.map_singleton] at this ⊢
  · show w.trace ++ [((t, w.turns t), f)] = _
    rw [h.trace]
    simp [Turn.played]
  · rcases List.mem_append.1 hturn with hturn | hturn
    · exact h.past turn (List.mem_append_left _ hturn)
    · obtain rfl := List.mem_singleton.1 hturn
      exact Nat.le_refl _
  · obtain rfl := halone u hu
    exact ⟨before, works ++ [f], rfl⟩

/-! ## Runs -/

/-- The invariant of the stdio lock. -/
structure Inv (start : σ) (w : StdioLock ι σ) : Prop where
  safe : Safe w.lock
  counted : Counted w
  sections : ∃ turns, Sections w turns
  shared : w.shared = (w.trace.map Prod.snd).foldl (fun s f => f s) start

omit [DecidableEq ι] in
theorem Inv.inside {start : σ} {w : StdioLock ι σ} (h : Inv start w) {t : ι} (ht : 0 < w.depth t) :
    w.pc t = .running ∧ w.lock.phase t = .holding := by
  have hpc : w.pc t = .running := by
    by_contra hpc
    have := (h.counted t).2.2 hpc
    omega
  refine ⟨hpc, ?_⟩
  rw [lock_phase hpc]
  simp [phaseOf, Nat.ne_of_gt ht]

theorem Inv.step {start : σ} {w w' : StdioLock ι σ} (h : Inv start w) (hs : Step w w') : Inv start w' := by
  obtain ⟨turns, hsections⟩ := h.sections
  cases hs with
  | @lock t hpc hd =>
    obtain ⟨hcounted, hlock⟩ := lock_spec h.counted hpc hd
    have hsame : (w.lockCall t).trace = w.trace ∧ (w.lockCall t).turns = w.turns ∧ (w.lockCall t).shared = w.shared := by
      unfold lockCall
      split
      · exact ⟨rfl, rfl, rfl⟩
      · exact ⟨rfl, rfl, rfl⟩
    have hdepth : ∀ u, 0 < (w.lockCall t).depth u → 0 < w.depth u := by
      intro u hu
      by_cases hut : u = t
      · subst hut
        rcases hlock with ⟨hpos, -⟩ | ⟨h0, -⟩
        · exact hpos
        · unfold lockCall at hu
          rw [if_neg (by rw [(h.counted u).1, h0]; simp)] at hu
          exact hu
      · rwa [(lockCall_stepOf w t).depth u hut] at hu
    refine ⟨?_, hcounted, ⟨turns, hsections.kept hsame.1 hsame.2.1 hdepth⟩, ?_⟩
    · rcases hlock with ⟨-, he⟩ | ⟨-, hl⟩
      · rw [he]
        exact h.safe
      · exact h.safe.step hl
    · rw [hsame.2.2, hsame.1]
      exact h.shared
  | acquire hpc =>
    obtain ⟨hcounted, hlock⟩ := acquire_spec h.counted hpc
    exact ⟨h.safe.step hlock, hcounted, ⟨turns, hsections.kept rfl rfl fun _ hu => hu⟩, h.shared⟩
  | @sleep t hpc hs =>
    have hd := h.counted.outside (t := t) (by simp [hpc])
    refine ⟨?_, (goto_stepOf w t _).counted h.counted ⟨(h.counted t).1, (h.counted t).2.1, fun _ => hd.2⟩,
      ⟨turns, hsections.kept rfl rfl fun _ hu => hu⟩, h.shared⟩
    rw [lock_goto]
    exact h.safe.step (.sleep (lock_phase hpc) hs)
  | @again t hpc =>
    have hd := h.counted.outside (t := t) (by rcases hpc with hpc | hpc <;> simp [hpc])
    refine ⟨?_, (goto_stepOf w t _).counted h.counted ⟨(h.counted t).1, (h.counted t).2.1, fun _ => hd.2⟩,
      ⟨turns, hsections.kept rfl rfl fun _ hu => hu⟩, h.shared⟩
    rw [lock_goto]
    exact h.safe.step (.again (hpc.imp lock_phase lock_phase))
  | @enter t hpc =>
    obtain ⟨hcounted, hlock⟩ := enter_spec h.counted hpc
    have hfree : ∀ u, w.depth u = 0 := by
      intro u
      by_contra hu
      have hphase := (h.inside (Nat.pos_of_ne_zero hu)).2
      obtain rfl := h.safe.exclusive u t hphase (lock_phase hpc)
      exact hu (h.counted.outside (t := u) (by simp [hpc])).2
    refine ⟨?_, hcounted, ⟨_, hsections.enter hfree⟩, h.shared⟩
    rw [hlock]
    exact h.safe
  | @work t f hpc hd =>
    have hphase := (h.inside hd).2
    refine ⟨h.safe, h.counted, hsections.work hd (fun u hu => h.safe.exclusive u t (h.inside hu).2 hphase) f, ?_⟩
    show f w.shared = ((w.trace ++ [((t, w.turns t), f)]).map Prod.snd).foldl _ start
    rw [List.map_append, List.foldl_append, ← h.shared]
    rfl
  | @unlock t hpc hd =>
    obtain ⟨hcounted, hlock⟩ := unlock_spec h.counted hpc hd
    have hsame : (w.unlockCall t).trace = w.trace ∧ (w.unlockCall t).turns = w.turns ∧
        (w.unlockCall t).shared = w.shared ∧ (w.unlockCall t).depth = Function.update w.depth t (w.depth t - 1) := by
      unfold unlockCall
      dsimp only
      split
      · exact ⟨rfl, rfl, rfl, rfl⟩
      · exact ⟨rfl, rfl, rfl, rfl⟩
    have hdepth : ∀ u, 0 < (w.unlockCall t).depth u → 0 < w.depth u := by
      intro u hu
      by_cases hut : u = t
      · rw [hut]
        exact hd
      · rwa [(unlockCall_stepOf w t).depth u hut] at hu
    refine ⟨?_, hcounted, ⟨turns, hsections.kept hsame.1 hsame.2.1 hdepth⟩, ?_⟩
    · rw [hlock]
      exact h.safe
    · rw [hsame.2.2.1, hsame.1]
      exact h.shared
  | release hpc =>
    obtain ⟨hcounted, -, hlock⟩ := release_spec h.safe h.counted hpc
    exact ⟨h.safe.step hlock, hcounted, ⟨turns, hsections.kept rfl rfl fun _ hu => hu⟩, h.shared⟩
  | @wake t u hpc hu =>
    have hdt := h.counted.outside (t := t) (by simp [hpc])
    have hdu := h.counted.outside (t := u) (by simp [hu])
    have hcounted : Counted (w.goto u (.exchange true)) :=
      (goto_stepOf w u _).counted h.counted ⟨(h.counted u).1, (h.counted u).2.1, fun _ => hdu.2⟩
    refine ⟨?_, (goto_stepOf _ t _).counted hcounted ⟨(h.counted t).1, (h.counted t).2.1, fun _ => hdt.2⟩,
      ⟨turns, hsections.kept rfl rfl fun _ hu => hu⟩, h.shared⟩
    rw [lock_goto, lock_goto]
    have hidle : phaseOf ((w.goto u (.exchange true)).depth t) .running = .idle := by
      show (if w.depth t = 0 then _ else _) = _
      rw [if_pos hdt.2]
    rw [hidle]
    exact h.safe.step (.wake (lock_phase hpc) (lock_phase hu))
  | @wakeNone t hpc hnone =>
    have hd := h.counted.outside (t := t) (by simp [hpc])
    refine ⟨?_, (goto_stepOf w t _).counted h.counted ⟨(h.counted t).1, (h.counted t).2.1, fun _ => hd.2⟩,
      ⟨turns, hsections.kept rfl rfl fun _ hu => hu⟩, h.shared⟩
    rw [lock_goto]
    have hidle : phaseOf (w.depth t) .running = .idle := by simp [phaseOf, hd.2]
    rw [hidle]
    refine h.safe.step (.wakeNone (lock_phase hpc) fun u hu => ?_)
    exact hnone u (phaseOf_asleep hu)

omit [DecidableEq ι] in
theorem Init.inv {start : σ} {w : StdioLock ι σ} (h : Init start w) : Inv start w := by
  obtain ⟨hstate, hshared, htrace, hthreads⟩ := h
  have hfree : Free w.lock := by
    refine ⟨hstate, fun t => ?_⟩
    obtain ⟨hpc, -, hd, -⟩ := hthreads t
    rw [lock_phase hpc]
    simp [phaseOf, hd]
  refine ⟨hfree.safe, fun t => ?_, ⟨[], List.nodup_nil, htrace, by simp, fun t ht => ?_⟩, by rw [hshared, htrace]; rfl⟩
  · obtain ⟨hpc, hr, hd, -⟩ := hthreads t
    exact ⟨hr.trans hd.symm, by rw [hd]; norm_num, fun h => absurd hpc h⟩
  · rw [(hthreads t).2.2.1] at ht
    exact absurd ht (Nat.lt_irrefl 0)

theorem reachable_inv {start : σ} {w : StdioLock ι σ} (h : Reachable (Init start) Step w) : Inv start w :=
  h.invariant (fun _ h => h.inv) fun _ _ h hs => h.step hs

omit [DecidableEq ι] in
theorem played_works (turns : List (Turn ι σ)) :
    (turns.flatMap Turn.played).map Prod.snd = turns.flatMap Prod.snd := by
  rw [List.map_flatMap]
  refine congrArg (List.flatMap · turns) ?_
  funext turn
  simp [Turn.played]

/-- Over every run of any number of threads:
- the work on the streams falls into the turns of the threads, one after the other, and the
  state is what these make of the first one in this order;
- the count of a thread inside is the number of its unmatched calls, no other thread is
  inside, and it does not block when it locks again;
- where a thread is asleep, the word is set and somebody is inside or on the way in or out, or
  is about to wake a sleeper, or is back from its wait and about to retry;
- who lets the lock go issues a wake. -/
theorem stdio_atomic {start : σ} {w : StdioLock ι σ} (h : Reachable (Init start) Step w) :
    (∃ turns : List (Turn ι σ), (turns.map Prod.fst).Nodup ∧ w.trace = turns.flatMap Turn.played ∧
      w.shared = (turns.flatMap Prod.snd).foldl (fun s f => f s) start) ∧
    (∀ t, 0 < w.depth t → w.reserved t = w.depth t ∧ (∀ u, 0 < w.depth u → u = t) ∧
      w.pc t = .running ∧ (w.lockCall t).pc t = .running) ∧
    (∀ t, w.pc t = .asleep →
      (w.state = true ∧ ∃ u, 0 < w.depth u ∨ w.pc u = .setReserved ∨ w.pc u = .release) ∨
        (∃ u, w.pc u = .wake) ∨ ∃ u, w.pc u = .exchange true) ∧
    ∀ t, w.pc t = .release → (w.releaseWord t).pc t = .wake := by
  have hinv := reachable_inv h
  refine ⟨?_, fun t ht => ?_, fun t ht => ?_, fun t ht => (release_spec hinv.safe hinv.counted ht).2.1⟩
  · obtain ⟨turns, hsections⟩ := hinv.sections
    refine ⟨turns, hsections.distinct, hsections.trace, ?_⟩
    rw [hinv.shared, hsections.trace, played_works]
  · obtain ⟨hpc, hphase⟩ := hinv.inside ht
    have hcount := (hinv.counted t).1
    refine ⟨hcount, fun u hu => hinv.safe.exclusive u t (hinv.inside hu).2 hphase, hpc, ?_⟩
    unfold lockCall
    rw [if_pos (by omega)]
    exact hpc
  · have hasleep : w.lock.phase t = .asleep := lock_phase ht
    rcases hinv.safe.cared t hasleep with hw | ⟨u, hu⟩ | ⟨u, hu⟩
    · obtain ⟨u, hu⟩ := hinv.safe.held.1 hw
      exact .inl ⟨hw, u, phaseOf_holding hu⟩
    · exact .inr (.inl ⟨u, phaseOf_waking hu⟩)
    · exact .inr (.inr ⟨u, phaseOf_retrying hu⟩)

/-- One of two threads is inside, and the other has come. -/
theorem stdio_atomic_nested : ∃ w : StdioLock Bool Nat, w.depth true = 2 ∧ w.shared = 7 ∧
    w.reserved true = w.depth true ∧ (w.lockCall true).pc true = .running := by
  let w : StdioLock Bool Nat := ⟨false, fun _ => .running, fun _ => 0, 5, fun _ => 0, fun _ => 0, []⟩
  have h1 : Reachable (Init 5) Step (w.lockCall true) :=
    .next (.start ⟨rfl, rfl, rfl, fun _ => ⟨rfl, rfl, rfl, rfl⟩⟩) (.lock rfl (by decide))
  have h2 := h1.next (.acquire (t := true) rfl)
  have h3 := h2.next (.enter (t := true) rfl)
  have h4 := h3.next (.lock (t := true) rfl (by decide))
  have h5 := h4.next (.work (t := true) (· + 2) rfl (by decide))
  have h6 := h5.next (.lock (t := false) rfl (by decide))
  obtain ⟨-, hinside, -⟩ := stdio_atomic h6
  exact ⟨_, by decide, by decide, (hinside true (by decide)).1, (hinside true (by decide)).2.2.2⟩

end StdioLock

end MiniLibc.Stdio
