import MiniLibc.Thread.Reacquire
/-!
# What a notification reaches

A broadcast reaches every wait that loaded the sequence before its increment. A
signal wakes one sleeper, and between its increment and its wake a later wait
may come to be that sleeper.
-/
open MiniLibc.Runs MiniLibc.EventCount

namespace MiniLibc.Thread.Cnd

variable {ι μ : Type} [DecidableEq ι] [DecidableEq μ]

/-- Over a run the waits of a thread go up, and where their number is the same it
is the same wait. -/
theorem run_waits {w w' : Cnd ι μ} (hrun : Relation.ReflTransGen Moves w w') (t : ι) :
    w.waits t ≤ w'.waits t ∧ (w'.waits t = w.waits t →
      w'.read t = w.read t ∧ ∀ e, expectedOf (w'.pc t) = some e → expectedOf (w.pc t) = some e) := by
  induction hrun with
  | refl => exact ⟨le_rfl, fun _ => ⟨rfl, fun _ he => he⟩⟩
  | tail _ hs ih =>
    obtain ⟨hle, hsame⟩ := ih
    rcases hs.1.accounted t with ⟨hread, hwaits, he⟩ | ⟨-, hwaits, -⟩
    · rw [hread, hwaits]
      exact ⟨hle, fun heq => ⟨(hsame heq).1, fun e h => (hsame heq).2 e (he e h)⟩⟩
    · exact ⟨by omega, fun heq => by omega⟩

omit [DecidableEq ι] [DecidableEq μ] in
theorem AsleepIn.phase {w : Cnd ι μ} {t : ι} {n : Nat} (h : w.AsleepIn t n) :
    w.count.phase t = .asleep (w.read t) := by
  obtain ⟨⟨k, time, e, hpc⟩, -⟩ := h
  exact count_phase hpc

/-- Who sleeps in a wait that began before a state of the run was waiting there. -/
theorem AsleepIn.since {w w' : Cnd ι μ} (ht : Tally w) (hrun : Relation.ReflTransGen Moves w w') {t : ι} {n : Nat}
    (h : w'.AsleepIn t n) (hn : n ≤ w.waits t) : w.Waiting t ∧ w.waits t = n ∧ w'.read t ≤ w.notes := by
  obtain ⟨hle, hsame⟩ := run_waits hrun t
  obtain ⟨⟨k, time, e, hpc⟩, hwaits⟩ := h
  have heq : w'.waits t = w.waits t := by omega
  obtain ⟨hread, he⟩ := hsame heq
  have hexpected : expectedOf (w.pc t) = some e := he e (by rw [hpc]; rfl)
  refine ⟨(waiting_iff w t).2 ⟨e, hexpected⟩, heq.symm.trans hwaits, ?_⟩
  rw [hread]
  refine ht.sound.tickets t _ ?_
  rw [ticket_eq, hexpected]
  rfl

/-- A thread that is awake since a notification does not sleep in a wait it began
before. -/
theorem not_asleepIn {w w' : Cnd ι μ} (ht : Tally w) (hrun : Relation.ReflTransGen Moves w w') {t : ι} {n : Nat}
    (hn : n ≤ w.waits t) (h : Awake w'.count w.notes t) : ¬ w'.AsleepIn t n := fun hs =>
  absurd (h _ hs.phase) (hs.since ht hrun hn).2.2.not_gt

/-- Only a notification can make a wait outlast the sequence. -/
theorem Bounded.step {w w' : Cnd ι μ} (h : Bounded w) (hs : Step w w') (hnotes : w'.notes = w.notes) : Bounded w' := by
  intro t hwait
  obtain ⟨e, he⟩ := (waiting_iff w' t).1 hwait
  rw [hnotes]
  rcases hs.accounted t with ⟨hread, -, hexpected⟩ | ⟨hread, -⟩
  · rw [hread]
    exact h t ((waiting_iff w t).2 ⟨e, hexpected e he⟩)
  · omega

omit [DecidableEq μ] in
theorem fetchAdd_phase (w : Cnd ι μ) (t : ι) (all : Bool) :
    (w.fetchAdd t all).count.phase t = .notifying w.notes all := by
  simp [Cnd.fetchAdd, goto, Cnd.count, phaseOf]

/-- No lost broadcast, over every run of any number of threads and mutexes with
fewer than `2 ^ 32` notifications during a wait:
- from the wake of a broadcast on no thread sleeps in a wait for which it had
  loaded the sequence before the increment;
- a wait that returns success or a timeout returns to the holder of the mutex. -/
theorem broadcast_not_lost {w : Cnd ι μ} (h : Reachable Init Moves w) :
    (∀ t w₁ w₂, w.pc t = .fetchAdd true → Bounded (w.fetchAdd t true) →
      Relation.ReflTransGen Moves (w.fetchAdd t true) w₁ → w₁.pc t = .futexWake true →
      Relation.ReflTransGen Moves (w₁.wakeAll t) w₂ → ∀ u n, n ≤ w.waits u → ¬ w₂.AsleepIn u n) ∧
    ∀ t k r, w.pc t = .waited k r → r = .success ∨ r = .timedout → (w.mtx k).Owns t ∧ 0 < (w.mtx k).held t := by
  refine ⟨fun t w₁ w₂ hs hb hrun hpc hrun' u n hn => ?_, fun t k r hpc hr => ?_⟩
  · have ht := reachable_tally h
    have hadd : Moves w (w.fetchAdd t true) := ⟨.fetchAdd hs, hb⟩
    obtain ⟨ht₁, hcount⟩ := (ht.step hadd).run hrun
    have hwake : Moves w₁ (w₁.wakeAll t) := ⟨.wakeAll hpc, ht₁.bounded.step (.wakeAll hpc) rfl⟩
    obtain ⟨-, hcount'⟩ := (ht₁.step hwake).run hrun'
    -- The increment is before the wake, and nobody sleeps right after it.
    have hn₁ : w.notes < w₁.notes := by
      have hidle : Awake (w.fetchAdd t true).count w.notes t := fun m hm => by
        cases (fetchAdd_phase w t true).symm.trans hm
      exact (hidle.run (Nat.lt_succ_self _) hcount).2
    have hawake : Awake (w₁.wakeAll t).count w.notes u := by
      intro m hm
      obtain ⟨-, k, time, e, hp⟩ := phaseOf_asleep hm
      have hp' : (w₁.wakeAll t).pc u = if u = t then .returned .success else woken (w₁.pc u) :=
        Function.update_apply (fun v => woken (w₁.pc v)) t (.returned .success) u
      rw [hp'] at hp
      split at hp
      · cases hp
      · cases hq : w₁.pc u <;> rw [hq] at hp <;> cases hp
    have hall : Relation.ReflTransGen Moves w w₂ :=
      (((Relation.ReflTransGen.single hadd).trans hrun).tail hwake).trans hrun'
    exact not_asleepIn ht hall hn (hawake.run hn₁ hcount').1
  · have hinv := reachable_inv h
    have hheld := (hinv.engaged t).holds k r hpc hr
    exact ⟨(hinv.mtx k).holding hheld, hheld⟩

/-! ## A signal -/

/-- A step in which thread `s`, if it issues the wake of its signal, finds only
sleepers whose wait began before the state `w₁`. -/
def WakesEarlier (w₁ : Cnd ι μ) (s : ι) (w w' : Cnd ι μ) : Prop :=
  Moves w w' ∧ (w.pc s = .futexWake false → w'.pc s ≠ .futexWake false →
    ∀ u k time e, w.pc u = .asleep k time e → w.waits u ≤ w₁.waits u)

/-- Where a thread waits when a call begins or when it increments the sequence. -/
def Early (w₀ w₁ : Cnd ι μ) (t : ι) (n : Nat) : Prop :=
  (w₀.Waiting t ∧ n = w₀.waits t) ∨ (w₁.Waiting t ∧ n = w₁.waits t)

omit [DecidableEq ι] [DecidableEq μ] in
theorem phaseOf_notifying {n m r : Nat} {p : CndPc μ} (h : phaseOf n m p = .notifying r false) : p = .futexWake false := by
  cases p with
  | futexWake all =>
    cases all with
    | false => rfl
    | true => cases h
  | _ => cases h

/-- A signal, from its increment to its return. It is under way, or some thread
that waited before is awake. -/
theorem signal_run {w₀ w₁ w : Cnd ι μ} {s a : ι} (ht : Tally w₁)
    (hadd : Moves w₁ (w₁.fetchAdd s false)) (ha : w₀.Waiting a)
    (hrun : Relation.ReflTransGen (WakesEarlier w₁ s) (w₁.fetchAdd s false) w) :
    Relation.ReflTransGen Moves w₁ w ∧
      (w.pc s = .futexWake false ∨ ∃ u n, Early w₀ w₁ u n ∧ Awake w.count w₁.notes u) := by
  induction hrun with
  | refl => exact ⟨.single hadd, .inl (goto_pc_self _ s (.futexWake false))⟩
  | @tail x y hrun₁ hstep ih =>
    obtain ⟨hrun, hstate⟩ := ih
    obtain ⟨htx, -⟩ := ht.run hrun
    refine ⟨hrun.tail hstep.1, ?_⟩
    -- The increment is done.
    have hn : w₁.notes < x.notes := by
      obtain ⟨-, hcount⟩ := (ht.step hadd).run (Relation.ReflTransGen.mono (fun _ _ h => h.1) _ _ hrun₁)
      have hidle : Awake (w₁.fetchAdd s false).count w₁.notes s := fun m hm => by
        cases (fetchAdd_phase w₁ s false).symm.trans hm
      exact (hidle.run (Nat.lt_succ_self _) hcount).2
    have hkeeps : ∀ u, Awake x.count w₁.notes u → Awake y.count w₁.notes u := by
      intro u hu
      rcases hstep.1.1.count htx with he | hc
      · rwa [he]
      · exact hu.step hn hc
    rcases hstate with hpc | ⟨u, n, hearly, hu⟩
    · by_cases hpc' : y.pc s = .futexWake false
      · exact .inl hpc'
      right
      have hphase : x.count.phase s = .notifying (x.mark s) false := count_phase hpc
      have hphase' : y.count.phase s ≠ .notifying (x.mark s) false := fun hp =>
        hpc' (phaseOf_notifying hp)
      rcases hstep.1.1.count htx with he | hc
      · rw [he] at hphase'
        exact absurd hphase hphase'
      rcases hc.notifies hphase hphase' with hnone | ⟨u, m, hu, hout⟩
      · exact ⟨a, w₀.waits a, .inl ⟨ha, rfl⟩, hkeeps a fun m hm => absurd hm (hnone a m)⟩
      · -- The wake chose a thread that waited at the increment.
        obtain ⟨-, k, time, e, hp⟩ := phaseOf_asleep hu
        have hle := hstep.2 hpc hpc' u k time e hp
        have hasleep : x.AsleepIn u (x.waits u) := ⟨⟨k, time, e, hp⟩, rfl⟩
        obtain ⟨hwaiting, hwaits, -⟩ := hasleep.since ht hrun hle
        refine ⟨u, w₁.waits u, .inr ⟨hwaiting, rfl⟩, fun m hm => ?_⟩
        cases hout.symm.trans hm
    · exact .inr ⟨u, n, hearly, hkeeps u hu⟩

/-- A signal reaches a thread that waited before. Over every run of any number of
threads and mutexes with fewer than `2 ^ 32` notifications during a wait: a
thread sleeps in `w₀` when the call begins, the call increments the sequence in
`w₁`, and has returned in `w₂`. Where its wake finds only sleepers that loaded the
sequence before the increment, one of the threads that waited before it is no
longer asleep in that wait. -/
theorem signal_reaches_earlier {w₀ w₁ w₂ : Cnd ι μ} {s a : ι} {n : Nat} (h : Reachable Init Moves w₀)
    (ha : w₀.AsleepIn a n) (hrun : Relation.ReflTransGen Moves w₀ w₁)
    (hs : w₁.pc s = .fetchAdd false) (hb : Bounded (w₁.fetchAdd s false))
    (hwake : Relation.ReflTransGen (WakesEarlier w₁ s) (w₁.fetchAdd s false) w₂)
    (hreturn : w₂.pc s = .returned .success) : ∃ u m, Early w₀ w₁ u m ∧ ¬ w₂.AsleepIn u m := by
  obtain ⟨ht, -⟩ := (reachable_tally h).run hrun
  have hwaiting : w₀.Waiting a := by
    obtain ⟨⟨k, time, e, hpc⟩, -⟩ := ha
    exact ⟨k, time, e, .inr (.inr hpc)⟩
  obtain ⟨hrun', hpc | ⟨u, m, hearly, hu⟩⟩ := signal_run ht ⟨.fetchAdd hs, hb⟩ hwaiting hwake
  · cases hreturn.symm.trans hpc
  · refine ⟨u, m, hearly, not_asleepIn ht hrun' ?_ hu⟩
    rcases hearly with ⟨-, rfl⟩ | ⟨-, rfl⟩
    · exact (run_waits hrun u).1
    · exact le_rfl

end MiniLibc.Thread.Cnd
