import MiniLibc.Thread.Condition
/-!
# Waits and notifications

The sequence is the number of notifications modulo `2 ^ 32`. As long as no wait
outlasts it, the condition variable is an event count: a wait takes the number
of notifications as its ticket.
-/
open MiniLibc.Runs

namespace MiniLibc.Thread.Cnd

variable {ι μ : Type} [DecidableEq ι] [DecidableEq μ]

/-! ## The view as an event count -/

def phaseOf (read mark : Nat) : CndPc μ → EventCount.Phase
  | .unlock _ _ _ | .futexWait _ _ _ => .ready read
  | .asleep _ _ _ => .asleep read
  | .futexWake all => .notifying mark all
  | _ => .out

def count (w : Cnd ι μ) : EventCount.Count ι := ⟨w.notes, fun t => phaseOf (w.read t) (w.mark t) (w.pc t)⟩

/-- The expected sequence of a wait. -/
def expectedOf : CndPc μ → Option (BitVec 32)
  | .unlock _ _ e | .futexWait _ _ e | .asleep _ _ e => some e
  | _ => none

omit [DecidableEq μ] in
theorem count_goto (w : Cnd ι μ) (t : ι) (p : CndPc μ) :
    (w.goto t p).count = w.count.to t (phaseOf (w.read t) (w.mark t) p) := by
  refine congrArg (EventCount.Count.mk w.notes) ?_
  funext u
  exact Function.apply_update (fun u => phaseOf (w.read u) (w.mark u)) w.pc t p u

omit [DecidableEq ι] [DecidableEq μ] in
theorem count_phase {w : Cnd ι μ} {t : ι} {p : CndPc μ} (h : w.pc t = p) :
    w.count.phase t = phaseOf (w.read t) (w.mark t) p := congrArg (phaseOf (w.read t) (w.mark t)) h

omit [DecidableEq ι] [DecidableEq μ] in
/-- A thread has a ticket while it has an expected sequence. -/
theorem ticket_eq (w : Cnd ι μ) (t : ι) : (w.count.phase t).ticket = (expectedOf (w.pc t)).map fun _ => w.read t := by
  show (phaseOf _ _ (w.pc t)).ticket = _
  cases w.pc t <;> rfl

omit [DecidableEq ι] [DecidableEq μ] in
theorem waiting_iff (w : Cnd ι μ) (t : ι) : w.Waiting t ↔ ∃ e, expectedOf (w.pc t) = some e := by
  constructor
  · rintro ⟨k, time, e, hp | hp | hp⟩
    all_goals
      rw [hp]
      exact ⟨e, rfl⟩
  · rintro ⟨e, he⟩
    cases hp : w.pc t <;> rw [hp] at he <;> cases he
    · exact ⟨_, _, e, .inl hp⟩
    · exact ⟨_, _, e, .inr (.inl hp)⟩
    · exact ⟨_, _, e, .inr (.inr hp)⟩

omit [DecidableEq ι] [DecidableEq μ] in
/-- Only a sleeper is seen asleep. -/
theorem phaseOf_asleep {n m r : Nat} {p : CndPc μ} (h : phaseOf n m p = .asleep r) :
    r = n ∧ ∃ k time e, p = .asleep k time e := by
  cases p with
  | asleep k time e =>
    cases h
    exact ⟨rfl, k, time, e, rfl⟩
  | _ => cases h

/-! ## What a step does to the waits -/

/-- The account of a step for the wait of a thread: it goes on or ends, or it
begins. -/
def Accounted (w w' : Cnd ι μ) (t : ι) : Prop :=
  (w'.read t = w.read t ∧ w'.waits t = w.waits t ∧
      ∀ e, expectedOf (w'.pc t) = some e → expectedOf (w.pc t) = some e) ∨
    w'.read t = w.notes ∧ w'.waits t = w.waits t + 1 ∧ expectedOf (w'.pc t) = some w.sequence

omit [DecidableEq μ] in
theorem accounted_goto {w w' : Cnd ι μ} {u : ι} {p : CndPc μ} (hread : w'.read = w.read) (hwaits : w'.waits = w.waits)
    (hpc : w'.pc = w.pc) (hp : expectedOf p = none ∨ expectedOf p = expectedOf (w.pc u)) (t : ι) :
    Accounted w (w'.goto u p) t := by
  refine .inl ⟨congrFun hread t, congrFun hwaits t, fun e he => ?_⟩
  have hpc' : (w'.goto u p).pc t = if t = u then p else w.pc t := by
    rw [← hpc]
    exact Function.update_apply _ _ _ _
  rw [hpc'] at he
  split at he
  · rename_i htu
    rw [htu]
    rcases hp with hp | hp
    · cases hp.symm.trans he
    · exact hp.symm.trans he
  · exact he

omit [DecidableEq ι] [DecidableEq μ] in
theorem expectedOf_waitCommon (mtx : Option μ) (time : Option Timespec) (timed : Bool) :
    expectedOf (waitCommon mtx time timed) = none := by
  unfold waitCommon
  split
  · rfl
  · split <;> rfl

omit [DecidableEq ι] [DecidableEq μ] in
theorem expectedOf_unlocked (k : μ) (time : Option Timespec) (e : BitVec 32) (r : ThrdResult) :
    expectedOf (unlocked k time e r) = none ∨ expectedOf (unlocked k time e r) = some e := by
  cases r with
  | success =>
    cases time with
    | none => exact .inr rfl
    | some time =>
      dsimp only [unlocked]
      split
      · exact .inl rfl
      · exact .inr rfl
  | _ => exact .inl rfl

theorem loadSequence_self (w : Cnd ι μ) (t : ι) (k : μ) (time : Option Timespec) :
    (w.loadSequence t k time).read t = w.notes ∧ (w.loadSequence t k time).waits t = w.waits t + 1 ∧
      (w.loadSequence t k time).pc t = .unlock k time w.sequence := by
  simp [loadSequence, goto, inMtx]

theorem loadSequence_other (w : Cnd ι μ) {t u : ι} (h : u ≠ t) (k : μ) (time : Option Timespec) :
    (w.loadSequence t k time).read u = w.read u ∧ (w.loadSequence t k time).waits u = w.waits u ∧
      (w.loadSequence t k time).pc u = w.pc u := by
  simp [loadSequence, goto, inMtx, h]

theorem Step.accounted {w w' : Cnd ι μ} (h : Step w w') (t : ι) : Accounted w w' t := by
  cases h with
  | mutex | unlock | lock => exact .inl ⟨rfl, rfl, fun _ he => he⟩
  | wait | timedwait => exact accounted_goto rfl rfl rfl (.inl (expectedOf_waitCommon _ _ _)) t
  | notify | awake | timeout | fails | relock | locked | wakeNone | ret =>
    exact accounted_goto rfl rfl rfl (.inl rfl) t
  | fetchAdd =>
    unfold Cnd.fetchAdd
    refine accounted_goto ?_ ?_ ?_ (.inl ?_) t
    all_goals rfl
  | unlocked hpc =>
    refine accounted_goto (w := w) rfl rfl rfl ?_ t
    rw [hpc]
    exact expectedOf_unlocked _ _ _ _
  | sleep hpc => exact accounted_goto rfl rfl rfl (.inr (by rw [hpc]; rfl)) t
  | interrupted hpc =>
    refine accounted_goto rfl rfl rfl (.inr ?_) t
    rcases hpc with hpc | hpc
    · exact (congrArg expectedOf hpc).symm
    · exact (congrArg expectedOf hpc).symm
  | @loadSequence u k time hpc =>
    by_cases hu : t = u
    · subst hu
      obtain ⟨hread, hwaits, hpc'⟩ := loadSequence_self w t k time
      exact .inr ⟨hread, hwaits, congrArg expectedOf hpc'⟩
    · obtain ⟨hread, hwaits, hpc'⟩ := loadSequence_other w hu k time
      refine .inl ⟨hread, hwaits, fun e he => ?_⟩
      rwa [hpc'] at he
  | @wakeAll u hpc =>
    refine .inl ⟨rfl, rfl, fun e he => ?_⟩
    have hpc' : (w.wakeAll u).pc t = if t = u then .returned .success else woken (w.pc t) :=
      Function.update_apply (fun v => woken (w.pc v)) u (.returned .success) t
    rw [hpc'] at he
    split at he
    · cases he
    · cases hp : w.pc t <;> rw [hp] at he <;> first | exact he | cases he
  | @wakeOne u v k time e hpc hv =>
    refine .inl ⟨rfl, rfl, fun e he => ?_⟩
    have hpc' : ((w.goto v (.relock k .success)).goto u (.returned .success)).pc t =
        if t = u then .returned .success else if t = v then .relock k .success else w.pc t := by
      show Function.update (Function.update w.pc v _) u _ t = _
      rw [Function.update_apply, Function.update_apply]
    rw [hpc'] at he
    split at he
    · cases he
    split at he
    · cases he
    · exact he

/-! ## The sequence -/

/-- The account of the sequence. -/
structure Tally (w : Cnd ι μ) : Prop where
  sequence : w.sequence = BitVec.ofNat 32 w.notes
  expected : ∀ t e, expectedOf (w.pc t) = some e → e = BitVec.ofNat 32 (w.read t)
  sound : EventCount.Sound w.count
  bounded : Bounded w

/-- A wait that does not outlast the sequence has the number of notifications. -/
theorem ofNat_inj {n m : Nat} (h : BitVec.ofNat 32 n = BitVec.ofNat 32 m) (hle : m ≤ n) (hlt : n < m + 2 ^ 32) :
    n = m := by
  have hmod : n % 2 ^ 32 = m % 2 ^ 32 := by simpa using congrArg BitVec.toNat h
  omega

omit [DecidableEq ι] [DecidableEq μ] in
/-- The kernel finds the expected sequence when there was no notification since. -/
theorem Tally.same {w : Cnd ι μ} (h : Tally w) {t : ι} (he : expectedOf (w.pc t) = some w.sequence) :
    w.notes = w.read t := by
  have hticket : (w.count.phase t).ticket = some (w.read t) := by
    rw [ticket_eq, he]
    rfl
  have hseq := h.expected t _ he
  rw [h.sequence] at hseq
  exact ofNat_inj hseq (h.sound.tickets t _ hticket) (h.bounded t ((waiting_iff w t).2 ⟨_, he⟩))

omit [DecidableEq μ] in
/-- A thread that keeps its phase. -/
theorem count_stays {w w' : Cnd ι μ} {t : ι} {p : CndPc μ} (hw : w'.count = w.count)
    (hp : w.count.phase t = phaseOf (w'.read t) (w'.mark t) p) : (w'.goto t p).count = w.count := by
  rw [count_goto, hw]
  exact EventCount.to_self hp

omit [DecidableEq ι] [DecidableEq μ] in
theorem phaseOf_waitCommon (n m : Nat) (mtx : Option μ) (time : Option Timespec) (timed : Bool) :
    phaseOf n m (waitCommon mtx time timed) = .out := by
  unfold waitCommon
  split
  · rfl
  · split <;> rfl

/-- Every step is one of the event count, or none. -/
theorem Step.count {w w' : Cnd ι μ} (ht : Tally w) (h : Step w w') :
    w'.count = w.count ∨ EventCount.Step w.count w'.count := by
  -- A wait that ends.
  have hleave : ∀ {t k time e p}, w.pc t = .futexWait k time e ∨ w.pc t = .asleep k time e →
      phaseOf (w.read t) (w.mark t) p = .out → EventCount.Step w.count (w.goto t p).count := by
    intro t k time e p hpc hp
    rw [count_goto, hp]
    refine .leave ?_
    rw [ticket_eq]
    rcases hpc with hpc | hpc <;> (rw [hpc]; rfl)
  cases h with
  | mutex | unlock | lock => exact .inl rfl
  | wait mtx hpc => exact .inl (count_stays rfl ((count_phase hpc).trans (phaseOf_waitCommon _ _ _ _ _).symm))
  | timedwait mtx time hpc => exact .inl (count_stays rfl ((count_phase hpc).trans (phaseOf_waitCommon _ _ _ _ _).symm))
  | notify all hpc => exact .inl (count_stays rfl ((count_phase hpc).trans rfl))
  | relock hpc => exact .inl (count_stays rfl ((count_phase hpc).trans rfl))
  | locked hpc => exact .inl (count_stays rfl ((count_phase hpc).trans rfl))
  | @loadSequence t k time hpc =>
    right
    have hphase : w.count.phase t = .out := count_phase hpc
    have he : (w.loadSequence t k time).count = w.count.to t (.ready w.count.count) := by
      refine congrArg (EventCount.Count.mk w.notes) ?_
      funext u
      by_cases hu : u = t
      · subst hu
        obtain ⟨hread, -, hpc'⟩ := loadSequence_self w u k time
        rw [hpc', hread]
        exact (EventCount.to_phase_self w.count u (.ready w.notes)).symm
      · obtain ⟨hread, -, hpc'⟩ := loadSequence_other w hu k time
        rw [hpc', hread]
        refine Eq.trans ?_ (EventCount.to_phase w.count t u (.ready w.notes)).symm
        rw [if_neg hu]
        rfl
    rw [he]
    exact .take hphase
  | @unlocked t k time e op r hpc hr =>
    have hphase := count_phase hpc
    rcases expectedOf_unlocked k time e r with he | he
    · right
      have hp : phaseOf (w.read t) (w.mark t) (Cnd.unlocked k time e r) = .out := by
        cases r with
        | success =>
          cases time with
          | none => cases he
          | some time =>
            dsimp only [Cnd.unlocked] at he ⊢
            split at he
            · rw [if_pos ‹_›]
              rfl
            · cases he
        | _ => rfl
      rw [count_goto]
      show EventCount.Step w.count (w.count.to t (phaseOf (w.read t) (w.mark t) (Cnd.unlocked k time e r)))
      rw [hp]
      refine .leave ?_
      rw [hphase]
      rfl
    · left
      refine count_stays rfl (hphase.trans ?_)
      cases r with
      | success =>
        cases time with
        | none => rfl
        | some time =>
          dsimp only [Cnd.unlocked] at he ⊢
          split at he
          · cases he
          · rw [if_neg ‹_›]
            rfl
      | _ => cases he
  | @sleep t k time e hpc he =>
    right
    rw [count_goto]
    refine .sleep (count_phase hpc) (ht.same ?_)
    rw [hpc, he]
    rfl
  | awake hpc => exact .inr (hleave hpc rfl)
  | timeout hpc => exact .inr (hleave hpc rfl)
  | fails hpc => exact .inr (hleave (.inl hpc) rfl)
  | interrupted hpc =>
    rcases hpc with hpc | hpc
    · exact .inl (count_stays rfl (count_phase hpc))
    · right
      rw [count_goto]
      exact .again (count_phase hpc)
  | @fetchAdd t all hpc =>
    right
    have he : (w.fetchAdd t all).count = w.count.advance.to t (.notifying w.count.count all) := by
      refine congrArg (EventCount.Count.mk (w.notes + 1)) ?_
      funext u
      by_cases hu : u = t
      · subst hu
        simp [Cnd.fetchAdd, goto, phaseOf, Cnd.count]
      · simp [Cnd.fetchAdd, goto, Cnd.count, EventCount.Count.advance, hu]
    rw [he]
    exact .advance all (count_phase hpc)
  | @wakeAll t hpc =>
    right
    have he : (w.wakeAll t).count = w.count.wakeAll.to t .out := by
      refine congrArg (EventCount.Count.mk w.notes) ?_
      funext u
      by_cases hu : u = t
      · subst hu
        simp [Cnd.wakeAll, goto, phaseOf]
      · have hwoken : phaseOf (w.read u) (w.mark u) (woken (w.pc u)) = (phaseOf (w.read u) (w.mark u) (w.pc u)).woken := by
          cases w.pc u <;> rfl
        simpa [Cnd.wakeAll, goto, Cnd.count, EventCount.Count.wakeAll, hu] using hwoken
    rw [he]
    exact .wakeAll (count_phase hpc)
  | wakeOne hpc hu =>
    right
    rw [count_goto, count_goto]
    exact .wakeOne (count_phase hpc) (count_phase hu)
  | @wakeNone t hpc hnone =>
    right
    rw [count_goto]
    refine .wakeNone (count_phase hpc) fun u m hu => ?_
    obtain ⟨-, k, time, e, hp⟩ := phaseOf_asleep hu
    exact hnone u k time e hp
  | ret hpc =>
    left
    refine count_stays rfl ?_
    rcases hpc with ⟨k, r, hpc⟩ | ⟨r, hpc⟩
    · exact (count_phase hpc).trans rfl
    · exact (count_phase hpc).trans rfl

/-- The sequence counts the notifications. -/
theorem Step.sequence {w w' : Cnd ι μ} (h : Step w w') :
    (w'.sequence = w.sequence ∧ w'.notes = w.notes) ∨ w'.sequence = w.sequence + 1 ∧ w'.notes = w.notes + 1 := by
  cases h with
  | fetchAdd => exact .inr ⟨rfl, rfl⟩
  | _ => exact .inl ⟨rfl, rfl⟩

theorem Tally.step {w w' : Cnd ι μ} (h : Tally w) (hs : Moves w w') : Tally w' where
  sequence := by
    rcases hs.1.sequence with ⟨h1, h2⟩ | ⟨h1, h2⟩
    · rw [h1, h2]
      exact h.sequence
    · rw [h1, h2, h.sequence]
      exact (BitVec.ofNat_add _ _).symm
  expected t e he := by
    rcases hs.1.accounted t with ⟨h1, -, h3⟩ | ⟨h1, -, h3⟩
    · rw [h1]
      exact h.expected t e (h3 e he)
    · rw [h1, ← h.sequence]
      exact Option.some.inj (he.symm.trans h3)
  sound := by
    rcases hs.1.count h with he | hc
    · rw [he]
      exact h.sound
    · exact h.sound.step hc
  bounded := hs.2

omit [DecidableEq ι] [DecidableEq μ] in
theorem Init.tally {w : Cnd ι μ} (h : Init w) : Tally w where
  sequence := by
    rw [h.sequence, h.notes]
    rfl
  expected t e he := by
    rw [h.pc t] at he
    cases he
  sound := by
    have hphase : ∀ t, w.count.phase t = .out := fun t => count_phase (h.pc t)
    refine ⟨fun t n hn => ?_, fun t n all hn => ?_⟩
    · rw [hphase t] at hn
      cases hn
    · rw [hphase t] at hn
      cases hn
  bounded t ht := by
    obtain ⟨e, he⟩ := (waiting_iff w t).1 ht
    rw [h.pc t] at he
    cases he

theorem reachable_tally {w : Cnd ι μ} (h : Reachable Init Moves w) : Tally w :=
  h.invariant (fun _ h => h.tally) fun _ _ h hs => h.step hs

/-- A run of the condition variable is a run of the event count. -/
theorem Tally.run {w w' : Cnd ι μ} (h : Tally w) (hrun : Relation.ReflTransGen Moves w w') :
    Tally w' ∧ Relation.ReflTransGen EventCount.Step w.count w'.count :=
  view_run Cnd.count (fun _ _ h hs => ⟨h.step hs, hs.1.count h⟩) h hrun

end MiniLibc.Thread.Cnd
