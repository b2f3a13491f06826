import MiniLibc.Lib.Runs
/-!
# What a once flag is for

The flag as its callers see it, without the lock around it: one of them claims
the flag while it is uninitialised, runs the callback, completes the flag and
wakes those that sleep until then.
-/
open MiniLibc.Runs

namespace MiniLibc.Thread

/-- `MINI_ONCE_UNINITIALIZED` to `MINI_ONCE_COMPLETE`. -/
inductive OnceState where
  | uninitialized
  | running
  | complete
deriving DecidableEq, Repr

/-- What a thread is to a flag. -/
inductive Role where
  | outside
  | asleep
  /-- It found the flag uninitialised. -/
  | claiming
  /-- The flag is complete, and it returns. -/
  | leaving
  /-- The flag is running: before the callback, in it, and after it. -/
  | starting
  | calling
  | closing
  /-- The flag is complete: before the wake. -/
  | finishing
deriving DecidableEq, Repr

/-- A flag, how often its callback was started and has returned, and whether the
sleepers were woken. -/
structure OnceFlag (ι : Type) where
  state : OnceState
  role : ι → Role
  starts : Nat
  ends : Nat
  woken : Bool

namespace OnceFlag

variable {ι : Type} [DecidableEq ι]

def move (f : OnceFlag ι) (t : ι) (r : Role) : OnceFlag ι := { f with role := Function.update f.role t r }

/-- Wake every sleeper. -/
def wakeAll (f : OnceFlag ι) : OnceFlag ι :=
  { f with woken := true, role := fun u => if f.role u = .asleep then .outside else f.role u }

inductive Step : OnceFlag ι → OnceFlag ι → Prop where
  | sleep {f : OnceFlag ι} {t : ι} : f.role t = .outside → f.state = .running → Step f (f.move t .asleep)
  | rouse {f : OnceFlag ι} {t : ι} : f.role t = .asleep → Step f (f.move t .outside)
  | claim {f : OnceFlag ι} {t : ι} : f.role t = .outside → f.state = .uninitialized → (∀ u, f.role u ≠ .claiming) →
    Step f (f.move t .claiming)
  | claimed {f : OnceFlag ι} {t : ι} : f.role t = .claiming → Step f ({ f with state := .running }.move t .starting)
  | see {f : OnceFlag ι} {t : ι} : f.role t = .outside → f.state = .complete → Step f (f.move t .leaving)
  | leave {f : OnceFlag ι} {t : ι} : f.role t = .leaving → Step f (f.move t .outside)
  | start {f : OnceFlag ι} {t : ι} : f.role t = .starting → Step f ({ f with starts := f.starts + 1 }.move t .calling)
  | callback {f : OnceFlag ι} {t : ι} : f.role t = .calling → Step f ({ f with ends := f.ends + 1 }.move t .closing)
  | complete {f : OnceFlag ι} {t : ι} : f.role t = .closing → Step f ({ f with state := .complete }.move t .finishing)
  | wake {f : OnceFlag ι} {t : ι} : f.role t = .finishing → Step f (f.wakeAll.move t .leaving)

/-- `ONCE_FLAG_INIT`. -/
structure Init (f : OnceFlag ι) : Prop where
  state : f.state = .uninitialized
  role : ∀ t, f.role t = .outside
  starts : f.starts = 0
  ends : f.ends = 0
  woken : f.woken = false

/-- How far the thread that runs the callback is. -/
def Progress (f : OnceFlag ι) (t : ι) : Prop :=
  (f.role t = .starting ∧ f.starts = 0 ∧ f.ends = 0) ∨ (f.role t = .calling ∧ f.starts = 1 ∧ f.ends = 0) ∨
    (f.role t = .closing ∧ f.starts = 1 ∧ f.ends = 1)

/-- The invariant of a flag. -/
structure Inv (f : OnceFlag ι) : Prop where
  uninitialized : f.state = .uninitialized →
    (f.starts = 0 ∧ f.ends = 0 ∧ f.woken = false) ∧ (∀ t, f.role t = .outside ∨ f.role t = .claiming) ∧
      ∀ t u, f.role t = .claiming → f.role u = .claiming → t = u
  running : f.state = .running → f.woken = false ∧
    ∃ t, f.Progress t ∧ ∀ u, u ≠ t → f.role u = .outside ∨ f.role u = .asleep
  complete : f.state = .complete → (f.starts = 1 ∧ f.ends = 1) ∧
    ((f.woken = true ∧ ∀ t, f.role t = .outside ∨ f.role t = .leaving) ∨
      f.woken = false ∧ ∃ t, f.role t = .finishing ∧
        ∀ u, u ≠ t → f.role u = .outside ∨ f.role u = .asleep ∨ f.role u = .leaving)

/-- A thread that keeps its role changes nothing. -/
theorem move_self {f : OnceFlag ι} {t : ι} {r : Role} (h : f.role t = r) : f.move t r = f := by
  subst h
  exact congrArg (fun role => OnceFlag.mk f.state role f.starts f.ends f.woken) (Function.update_eq_self t f.role)

theorem move_role (f : OnceFlag ι) (t u : ι) (r : Role) : (f.move t r).role u = if u = t then r else f.role u :=
  Function.update_apply _ _ _ _

theorem move_role_self (f : OnceFlag ι) (t : ι) (r : Role) : (f.move t r).role t = r := Function.update_self _ _ _

theorem move_role_of_ne (f : OnceFlag ι) {t u : ι} (h : u ≠ t) (r : Role) : (f.move t r).role u = f.role u :=
  Function.update_of_ne h _ _

omit [DecidableEq ι] in
theorem Init.inv {f : OnceFlag ι} (h : Init f) : Inv f where
  uninitialized _ := ⟨⟨h.starts, h.ends, h.woken⟩, fun t => .inl (h.role t),
    fun t u ht => by rw [h.role t] at ht; cases ht⟩
  running hs := by rw [h.state] at hs; cases hs
  complete hs := by rw [h.state] at hs; cases hs

omit [DecidableEq ι] in
/-- Which state a role belongs to. -/
theorem Inv.state_of {f : OnceFlag ι} (h : Inv f) (t : ι) :
    (f.role t = .claiming → f.state = .uninitialized) ∧
    (f.role t = .starting ∨ f.role t = .calling ∨ f.role t = .closing → f.state = .running ∧ f.Progress t ∧
      f.woken = false ∧ ∀ u, u ≠ t → f.role u = .outside ∨ f.role u = .asleep) ∧
    (f.role t = .leaving → f.state = .complete) ∧
    (f.role t = .finishing → f.state = .complete ∧ f.woken = false ∧
      ∀ u, u ≠ t → f.role u = .outside ∨ f.role u = .asleep ∨ f.role u = .leaving) ∧
    (f.role t = .asleep → f.state = .running ∨ f.state = .complete ∧ f.woken = false) := by
  cases hs : f.state with
  | uninitialized =>
    obtain ⟨-, hr, -⟩ := h.uninitialized hs
    rcases hr t with hr | hr <;> simp [hr]
  | running =>
    obtain ⟨hw, v, hp, hothers⟩ := h.running hs
    by_cases ht : t = v
    · subst ht
      refine ⟨fun hc => ?_, fun _ => ⟨rfl, hp, hw, hothers⟩, fun hc => ?_, fun hc => ?_, fun _ => .inl rfl⟩
      all_goals
        rcases hp with ⟨hr, -⟩ | ⟨hr, -⟩ | ⟨hr, -⟩
        all_goals
          rw [hr] at hc
          cases hc
    · rcases hothers t ht with hr | hr <;> simp [hr]
  | complete =>
    obtain ⟨-, ⟨hw, hr⟩ | ⟨hw, v, hv, hothers⟩⟩ := h.complete hs
    · rcases hr t with hr | hr <;> simp [hr]
    · by_cases ht : t = v
      · subst ht
        simp only [hv]
        simpa [hw] using hothers
      · rcases hothers t ht with hr | hr | hr <;> simp [hr, hw]

/-- A thread changes its role and nothing else of the flag. -/
theorem Inv.moves {f : OnceFlag ι} (h : Inv f) {t : ι} {r : Role}
    (hfrom : f.role t = .outside ∨ f.role t = .asleep ∨ f.role t = .leaving)
    (hto : r = .outside ∨ (r = .asleep ∧ f.state = .running) ∨ (r = .leaving ∧ f.state = .complete)) :
    Inv (f.move t r) where
  uninitialized hs := by
    obtain ⟨h1, h2, h3⟩ := h.uninitialized hs
    have hs : f.state = .uninitialized := hs
    obtain rfl : r = .outside := by
      rcases hto with hr | ⟨-, hr⟩ | ⟨-, hr⟩
      · exact hr
      · rw [hs] at hr; cases hr
      · rw [hs] at hr; cases hr
    refine ⟨h1, fun u => ?_, fun u v hu hv => ?_⟩
    · rw [move_role]
      split
      · exact .inl rfl
      · exact h2 u
    · rw [move_role] at hu hv
      split at hu
      · cases hu
      split at hv
      · cases hv
      · exact h3 u v hu hv
  running hs := by
    obtain ⟨hw, v, hp, hothers⟩ := h.running hs
    have hs : f.state = .running := hs
    have hne : v ≠ t := by
      rintro rfl
      rcases hp with ⟨hr, -⟩ | ⟨hr, -⟩ | ⟨hr, -⟩ <;> rw [hr] at hfrom <;> simp at hfrom
    refine ⟨hw, v, ?_, fun u hu => ?_⟩
    · unfold Progress
      rw [move_role_of_ne f hne]
      exact hp
    · rw [move_role]
      split
      · rcases hto with hr | ⟨hr, -⟩ | ⟨-, hr⟩
        · exact .inl hr
        · exact .inr hr
        · rw [hs] at hr; cases hr
      · exact hothers u hu
  complete hs := by
    have hs : f.state = .complete := hs
    have hto : r = .outside ∨ r = .leaving := by
      rcases hto with hr | ⟨-, hr⟩ | ⟨hr, -⟩
      · exact .inl hr
      · rw [hs] at hr; cases hr
      · exact .inr hr
    obtain ⟨hcount, ⟨hw, hr⟩ | ⟨hw, v, hv, hothers⟩⟩ := h.complete hs
    · refine ⟨hcount, .inl ⟨hw, fun u => ?_⟩⟩
      rw [move_role]
      split
      · exact hto
      · exact hr u
    · have hne : v ≠ t := by
        rintro rfl
        rw [hv] at hfrom
        simp at hfrom
      refine ⟨hcount, .inr ⟨hw, v, ?_, fun u hu => ?_⟩⟩
      · rw [move_role_of_ne f hne]
        exact hv
      · rw [move_role]
        split
        · exact hto.imp_right .inr
        · exact hothers u hu

/-- The thread that runs the callback goes on. -/
theorem Inv.progress {g : OnceFlag ι} {t : ι} {r : Role} (hg : g.state = .running) (hw : g.woken = false)
    (hothers : ∀ u, u ≠ t → g.role u = .outside ∨ g.role u = .asleep) (hp : (g.move t r).Progress t) :
    Inv (g.move t r) where
  uninitialized hs := by cases hg.symm.trans hs
  running _ := ⟨hw, t, hp, fun u hu => by rw [move_role_of_ne g hu]; exact hothers u hu⟩
  complete hs := by cases hg.symm.trans hs

omit [DecidableEq ι] in
/-- Who leaves finds the callback started and ended once. -/
theorem Inv.leaving {f : OnceFlag ι} (h : Inv f) {t : ι} (ht : f.role t = .leaving) : f.starts = 1 ∧ f.ends = 1 :=
  (h.complete ((h.state_of t).2.2.1 ht)).1

omit [DecidableEq ι] in
/-- The callback is not started twice. -/
theorem Inv.starts_le {f : OnceFlag ι} (h : Inv f) : f.starts ≤ 1 := by
  cases hs : f.state with
  | uninitialized => exact (h.uninitialized hs).1.1.le.trans zero_le_one
  | running =>
    obtain ⟨-, t, ⟨-, hn, -⟩ | ⟨-, hn, -⟩ | ⟨-, hn, -⟩, -⟩ := h.running hs
    · exact hn.le.trans zero_le_one
    · exact hn.le
    · exact hn.le
  | complete => exact (h.complete hs).1.1.le

omit [DecidableEq ι] in
/-- After the wake nobody sleeps. -/
theorem Inv.awake {f : OnceFlag ι} (h : Inv f) (hw : f.woken = true) (t : ι) : f.role t ≠ .asleep := fun ht => by
  rcases (h.state_of t).2.2.2.2 ht with hs | ⟨-, hw'⟩
  · cases hw.symm.trans (h.running hs).1
  · cases hw.symm.trans hw'

/-- The wake is not undone. -/
theorem Step.woken {f f' : OnceFlag ι} (hs : Step f f') (hw : f.woken = true) : f'.woken = true := by
  cases hs with
  | wake => rfl
  | _ => exact hw

/-- Every step keeps the invariant. -/
theorem Inv.step {f f' : OnceFlag ι} (h : Inv f) (hs : Step f f') : Inv f' := by
  cases hs with
  | sleep hr hs => exact h.moves (.inl hr) (.inr (.inl ⟨rfl, hs⟩))
  | rouse hr => exact h.moves (.inr (.inl hr)) (.inl rfl)
  | see hr hs => exact h.moves (.inl hr) (.inr (.inr ⟨rfl, hs⟩))
  | leave hr => exact h.moves (.inr (.inr hr)) (.inl rfl)
  | @claim t hr hs hno =>
    obtain ⟨h1, h2, -⟩ := h.uninitialized hs
    refine ⟨fun _ => ⟨h1, fun u => ?_, fun u v hu hv => ?_⟩, fun hs' => ?_, fun hs' => ?_⟩
    · rw [move_role]
      split
      · exact .inr rfl
      · exact h2 u
    · rw [move_role] at hu hv
      split at hu
      · split at hv
        · exact ‹u = t›.trans ‹v = t›.symm
        · exact absurd hv (hno v)
      · exact absurd hu (hno u)
    · cases hs.symm.trans hs'
    · cases hs.symm.trans hs'
  | @claimed t hr =>
    obtain ⟨⟨h1, h2, h3⟩, h4, h5⟩ := h.uninitialized ((h.state_of t).1 hr)
    have hothers : ∀ u, u ≠ t → f.role u = .outside ∨ f.role u = .asleep := fun u hu =>
      .inl ((h4 u).resolve_right fun hc => hu (h5 u t hc hr))
    refine Inv.progress rfl h3 hothers ?_
    exact .inl ⟨move_role_self _ _ _, h1, h2⟩
  | @start t hr =>
    obtain ⟨hs, hp, hw, hothers⟩ := (h.state_of t).2.1 (.inl hr)
    refine Inv.progress hs hw hothers (.inr (.inl ⟨move_role_self _ _ _, ?_⟩))
    rcases hp with ⟨-, h1, h2⟩ | ⟨hr', -⟩ | ⟨hr', -⟩
    · exact ⟨congrArg Nat.succ h1, h2⟩
    · cases hr.symm.trans hr'
    · cases hr.symm.trans hr'
  | @callback t hr =>
    obtain ⟨hs, hp, hw, hothers⟩ := (h.state_of t).2.1 (.inr (.inl hr))
    refine Inv.progress hs hw hothers (.inr (.inr ⟨move_role_self _ _ _, ?_⟩))
    rcases hp with ⟨hr', -⟩ | ⟨-, h1, h2⟩ | ⟨hr', -⟩
    · cases hr.symm.trans hr'
    · exact ⟨h1, congrArg Nat.succ h2⟩
    · cases hr.symm.trans hr'
  | @complete t hr =>
    obtain ⟨hs, hp, hw, hothers⟩ := (h.state_of t).2.1 (.inr (.inr hr))
    refine ⟨?_, ?_, fun _ => ⟨?_, .inr ⟨hw, t, move_role_self _ _ _, fun u hu => ?_⟩⟩⟩
    · intro hs'
      cases hs'
    · intro hs'
      cases hs'
    · rcases hp with ⟨hr', -⟩ | ⟨hr', -⟩ | ⟨-, hcount⟩
      · cases hr.symm.trans hr'
      · cases hr.symm.trans hr'
      · exact hcount
    · rw [move_role_of_ne _ hu]
      exact (hothers u hu).imp_right .inl
  | @wake t hr =>
    obtain ⟨hs, -, hothers⟩ := (h.state_of t).2.2.2.1 hr
    have hs' : (f.wakeAll.move t .leaving).state = .complete := hs
    refine ⟨?_, ?_, fun _ => ⟨(h.complete hs).1, .inl ⟨rfl, fun u => ?_⟩⟩⟩
    · intro he
      cases hs'.symm.trans he
    · intro he
      cases hs'.symm.trans he
    · rw [move_role]
      split
      · exact .inr rfl
      · have hrole : f.wakeAll.role u = if f.role u = .asleep then .outside else f.role u := rfl
        rw [hrole]
        rcases hothers u ‹u ≠ t› with ho | ho | ho
        all_goals
          rw [ho]
          simp

end OnceFlag

end MiniLibc.Thread
