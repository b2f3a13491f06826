import MiniLibc.Lib.Runs
/-!
# An event count

A counter that threads wait on. A waiter takes the count as its ticket, and may
sleep as long as the count is still the ticket. A notifier advances the count,
and then wakes one sleeper, or all of them. Sleeps may end at any time.

A sleeper whose ticket is older than a notification of all is gone when that
notification is done. A notification of one wakes one sleeper, and it may be one
whose ticket is newer.
-/
open MiniLibc.Runs

namespace MiniLibc.EventCount

variable {ι : Type} [DecidableEq ι]

/-- Where a thread is. -/
inductive Phase where
  | out
  /-- It has a ticket, and may go to sleep. -/
  | ready (ticket : Nat)
  | asleep (ticket : Nat)
  /-- It advanced the count from `number`, and will wake `all` or one. -/
  | notifying (number : Nat) (all : Bool)
deriving DecidableEq, Repr

structure Count (ι : Type) where
  count : Nat
  phase : ι → Phase

/-- A thread moves on. -/
def Count.to (c : Count ι) (t : ι) (p : Phase) : Count ι := { c with phase := Function.update c.phase t p }

/-- The count advances. -/
def Count.advance (c : Count ι) : Count ι := { c with count := c.count + 1 }

/-- A sleeper that is woken is out. -/
def Phase.woken : Phase → Phase
  | .asleep _ => .out
  | p => p

/-- Wake every sleeper. -/
def Count.wakeAll (c : Count ι) : Count ι := { c with phase := fun u => (c.phase u).woken }

/-- The ticket of a thread that sleeps or may still go to sleep with it. -/
def Phase.ticket : Phase → Option Nat
  | .ready n | .asleep n => some n
  | _ => none

/-- One step of a thread. -/
inductive Step : Count ι → Count ι → Prop where
  | take {c : Count ι} {t : ι} : c.phase t = .out → Step c (c.to t (.ready c.count))
  | sleep {c : Count ι} {t : ι} {n : Nat} : c.phase t = .ready n → c.count = n → Step c (c.to t (.asleep n))
  /-- Awake with the ticket, and about to sleep again. -/
  | again {c : Count ι} {t : ι} {n : Nat} : c.phase t = .asleep n → Step c (c.to t (.ready n))
  | leave {c : Count ι} {t : ι} : (c.phase t).ticket.isSome → Step c (c.to t .out)
  | advance {c : Count ι} {t : ι} (all : Bool) : c.phase t = .out →
    Step c (c.advance.to t (.notifying c.count all))
  | wakeAll {c : Count ι} {t : ι} {n : Nat} : c.phase t = .notifying n true → Step c (c.wakeAll.to t .out)
  | wakeOne {c : Count ι} {t u : ι} {n m : Nat} : c.phase t = .notifying n false → c.phase u = .asleep m →
    Step c ((c.to u .out).to t .out)
  | wakeNone {c : Count ι} {t : ι} {n : Nat} : c.phase t = .notifying n false → (∀ u m, c.phase u ≠ .asleep m) →
    Step c (c.to t .out)

theorem to_phase (c : Count ι) (t u : ι) (p : Phase) : (c.to t p).phase u = if u = t then p else c.phase u :=
  Function.update_apply _ _ _ _

theorem to_phase_self (c : Count ι) (t : ι) (p : Phase) : (c.to t p).phase t = p := Function.update_self _ _ _

/-- A thread that stays in its phase changes nothing. -/
theorem to_self {c : Count ι} {t : ι} {p : Phase} (h : c.phase t = p) : c.to t p = c := by
  subst h
  exact congrArg (Count.mk c.count) (Function.update_eq_self t c.phase)

/-- What a step does to a thread that had a ticket or has one. -/
theorem Step.tickets {c c' : Count ι} (h : Step c c') (t : ι) :
    c.count ≤ c'.count ∧ ((c'.phase t).ticket = (c.phase t).ticket ∨ (c'.phase t).ticket = none ∨
      (c.phase t = .out ∧ c'.phase t = .ready c.count)) := by
  have hmove : ∀ {u : ι} {p : Phase}, (p.ticket = (c.phase u).ticket ∨ p.ticket = none ∨
      (c.phase u = .out ∧ p = .ready c.count)) →
      ((c.to u p).phase t).ticket = (c.phase t).ticket ∨ ((c.to u p).phase t).ticket = none ∨
        (c.phase t = .out ∧ (c.to u p).phase t = .ready c.count) := by
    intro u p hp
    rw [to_phase]
    split
    · rename_i hu
      rw [hu]
      exact hp
    · exact .inl rfl
  cases h with
  | take hp => exact ⟨le_rfl, hmove (.inr (.inr ⟨hp, rfl⟩))⟩
  | sleep hp => exact ⟨le_rfl, hmove (.inl (by rw [hp]; rfl))⟩
  | again hp => exact ⟨le_rfl, hmove (.inl (by rw [hp]; rfl))⟩
  | leave => exact ⟨le_rfl, hmove (.inr (.inl rfl))⟩
  | wakeNone => exact ⟨le_rfl, hmove (.inr (.inl rfl))⟩
  | @advance u all =>
    refine ⟨Nat.le_succ _, ?_⟩
    rw [to_phase]
    split
    · exact .inr (.inl rfl)
    · exact .inl rfl
  | @wakeAll u n =>
    refine ⟨le_rfl, ?_⟩
    rw [to_phase]
    split
    · exact .inr (.inl rfl)
    · show (c.phase t).woken.ticket = _ ∨ (c.phase t).woken.ticket = _ ∨ _
      cases c.phase t with
      | asleep m => exact .inr (.inl rfl)
      | _ => exact .inl rfl
  | @wakeOne u v n m =>
    refine ⟨le_rfl, ?_⟩
    rw [to_phase, to_phase]
    split
    · exact .inr (.inl rfl)
    split
    · exact .inr (.inl rfl)
    · exact .inl rfl

/-- Who falls asleep has the count for a ticket. -/
theorem Step.falls {c c' : Count ι} (h : Step c c') {t : ι} {m : Nat} (ht : c'.phase t = .asleep m) :
    c.phase t = .asleep m ∨ m = c.count := by
  have hmove : ∀ {u : ι} {p : Phase}, p ≠ .asleep m → (c.to u p).phase t = .asleep m → c.phase t = .asleep m := by
    intro u p hp hu
    rw [to_phase] at hu
    split at hu
    · exact absurd hu hp
    · exact hu
  cases h with
  | @sleep u n hp hn =>
    rw [to_phase] at ht
    split at ht
    · cases ht
      exact .inr hn.symm
    · exact .inl ht
  | take | again | leave | wakeNone => exact .inl (hmove (by simp) ht)
  | advance =>
    rw [to_phase] at ht
    split at ht
    · cases ht
    · exact .inl ht
  | wakeAll =>
    rw [to_phase] at ht
    split at ht
    · cases ht
    · have hw : (c.phase t).woken = .asleep m := ht
      cases hp : c.phase t <;> rw [hp] at hw <;> cases hw
  | @wakeOne u v n k =>
    rw [to_phase] at ht
    split at ht
    · cases ht
    · exact .inl (hmove (by simp) ht)

/-! ## Awake since a notification -/

/-- Thread `t` does not sleep with a ticket of notification `number` or older. -/
def Awake (c : Count ι) (number : Nat) (t : ι) : Prop := ∀ m, c.phase t = .asleep m → number < m

/-- After the notification it stays so. -/
theorem Awake.step {c c' : Count ι} {n : Nat} {t : ι} (h : Awake c n t) (hn : n < c.count) (hs : Step c c') :
    Awake c' n t := by
  intro m hm
  rcases hs.falls hm with hp | rfl
  · exact h m hp
  · exact hn

theorem Awake.run {c c' : Count ι} {n : Nat} {t : ι} (h : Awake c n t) (hn : n < c.count)
    (hrun : Relation.ReflTransGen Step c c') : Awake c' n t ∧ n < c'.count := by
  induction hrun with
  | refl => exact ⟨h, hn⟩
  | tail _ hs ih => exact ⟨ih.1.step ih.2 hs, ih.2.trans_le (hs.tickets t).1⟩

/-- A notification of one finds nobody asleep, or wakes a sleeper. -/
theorem Step.notifies {c c' : Count ι} (h : Step c c') {t : ι} {n : Nat} (ht : c.phase t = .notifying n false)
    (ht' : c'.phase t ≠ .notifying n false) :
    (∀ u m, c.phase u ≠ .asleep m) ∨ ∃ u m, c.phase u = .asleep m ∧ c'.phase u = .out := by
  have hother : ∀ {u : ι} {p : Phase}, c.phase u ≠ .notifying n false → (c.to u p).phase t = .notifying n false := by
    intro u p hu
    rw [to_phase, if_neg]
    · exact ht
    · rintro rfl
      exact hu ht
  cases h with
  | wakeNone _ hnone => exact .inl hnone
  | @wakeOne u v k m hu hv =>
    refine .inr ⟨v, m, hv, ?_⟩
    rw [to_phase, to_phase]
    split
    · rfl
    · exact if_pos rfl
  | take hp | sleep hp | again hp => exact absurd (hother (by rw [hp]; simp)) ht'
  | leave hp =>
    refine absurd (hother fun hu => ?_) ht'
    rw [hu] at hp
    cases hp
  | @advance u all hp =>
    refine absurd ?_ ht'
    rw [to_phase, if_neg]
    · exact ht
    · rintro rfl
      rw [ht] at hp
      cases hp
  | @wakeAll u k hp =>
    refine absurd ?_ ht'
    rw [to_phase, if_neg]
    · show (c.phase t).woken = _
      rw [ht]
      rfl
    · rintro rfl
      rw [ht] at hp
      cases hp

/-! ## Tickets and numbers -/

/-- No ticket is newer than the count, and a notification under way has advanced
it. -/
structure Sound (c : Count ι) : Prop where
  tickets : ∀ t n, (c.phase t).ticket = some n → n ≤ c.count
  numbers : ∀ t n all, c.phase t = .notifying n all → n < c.count

theorem Sound.step {c c' : Count ι} (h : Sound c) (hs : Step c c') : Sound c' where
  tickets t n hn := by
    obtain ⟨hle, he | he | ⟨-, he⟩⟩ := hs.tickets t
    · exact (h.tickets t n (he.symm.trans hn)).trans hle
    · cases he.symm.trans hn
    · rw [he] at hn
      cases hn
      exact hle
  numbers t n all hn := by
    have hmove : ∀ {u : ι} {p : Phase}, p.ticket.isSome ∨ p = .out → (c.to u p).phase t = .notifying n all →
        n < c.count := by
      intro u p hp hu
      rw [to_phase] at hu
      split at hu
      · subst hu
        rcases hp with hp | hp <;> cases hp
      · exact h.numbers t n all hu
    cases hs with
    | take | sleep | again => exact hmove (.inl rfl) hn
    | leave | wakeNone => exact hmove (.inr rfl) hn
    | advance =>
      rw [to_phase] at hn
      split at hn
      · cases hn
        exact Nat.lt_succ_self _
      · exact (h.numbers t n all hn).trans (Nat.lt_succ_self _)
    | wakeAll =>
      rw [to_phase] at hn
      split at hn
      · cases hn
      · have hw : (c.phase t).woken = .notifying n all := hn
        refine h.numbers t n all ?_
        cases hp : c.phase t <;> rw [hp] at hw <;> first | exact hw | cases hw
    | wakeOne =>
      rw [to_phase] at hn
      split at hn
      · cases hn
      · exact hmove (.inr rfl) hn

end MiniLibc.EventCount
