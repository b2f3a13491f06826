import Mathlib
/-!
# A lock of one futex word

Any number of threads share a word that is set while one of them holds the lock.
A thread takes the lock by exchanging a set word for it. Where the word was set
already the thread may sleep in the kernel as long as it still is, and a release
clears the word and wakes one sleeper. Sleeps may end at any time and may be
given up, and a thread that comes along may take the lock before one that was
woken for it.

Whatever the order of these steps, at most one thread holds the lock, and a
sleeper is never left behind.
-/
namespace MiniLibc.FutexLock

variable {ι : Type} [DecidableEq ι]

/-- Where a thread is. -/
inductive Phase where
  | idle
  -- before the exchange, for the first time
  | trying
  -- before the exchange, back from the kernel
  | retrying
  -- the word was set: before the call that may sleep
  | contended
  | asleep
  | holding
  -- the word is cleared: before the wake
  | waking
deriving DecidableEq, Repr

structure Lock (ι : Type) where
  word : Bool
  phase : ι → Phase

def Lock.to (l : Lock ι) (t : ι) (p : Phase) : Lock ι := { l with phase := Function.update l.phase t p }

def Lock.put (l : Lock ι) (word : Bool) : Lock ι := { l with word }

@[simp] theorem to_word (l : Lock ι) (t : ι) (p : Phase) : (l.to t p).word = l.word := rfl
omit [DecidableEq ι] in
@[simp] theorem put_word (l : Lock ι) (word : Bool) : (l.put word).word = word := rfl
omit [DecidableEq ι] in
@[simp] theorem put_phase (l : Lock ι) (word : Bool) : (l.put word).phase = l.phase := rfl

theorem to_self {l : Lock ι} {t : ι} {p : Phase} (h : l.phase t = p) : l.to t p = l := by
  subst h
  exact congrArg (Lock.mk l.word) (Function.update_eq_self t l.phase)

theorem to_phase (l : Lock ι) (t u : ι) (p : Phase) : (l.to t p).phase u = if u = t then p else l.phase u :=
  Function.update_apply _ _ _ _

/-- About to exchange the word. -/
def Lock.Tries (l : Lock ι) (t : ι) : Prop := l.phase t = .trying ∨ l.phase t = .retrying

/-- In the kernel or about to be. -/
def Lock.Waits (l : Lock ι) (t : ι) : Prop := l.phase t = .contended ∨ l.phase t = .asleep

inductive Step : Lock ι → Lock ι → Prop where
  | start {l : Lock ι} {t : ι} : l.phase t = .idle → Step l (l.to t .trying)
  | acquire {l : Lock ι} {t : ι} : l.Tries t → l.word = false → Step l ((l.put true).to t .holding)
  | fail {l : Lock ι} {t : ι} : l.Tries t → l.word = true → Step l (l.to t .contended)
  -- the exchange failed, and the thread does not wait
  | abandon {l : Lock ι} {t : ι} : l.Tries t → l.word = true → Step l (l.to t .idle)
  | sleep {l : Lock ι} {t : ι} : l.phase t = .contended → l.word = true → Step l (l.to t .asleep)
  -- the call returns without a wake
  | again {l : Lock ι} {t : ι} : l.Waits t → Step l (l.to t .retrying)
  -- the call returns, and the thread gives up
  | giveUp {l : Lock ι} {t : ι} : l.Waits t → Step l (l.to t .idle)
  | release {l : Lock ι} {t : ι} : l.phase t = .holding → Step l ((l.put false).to t .waking)
  | wake {l : Lock ι} {t u : ι} : l.phase t = .waking → l.phase u = .asleep →
    Step l ((l.to u .retrying).to t .idle)
  | wakeNone {l : Lock ι} {t : ι} : l.phase t = .waking → (∀ u, l.phase u ≠ .asleep) → Step l (l.to t .idle)

/-- Nobody has come yet. -/
def Free (l : Lock ι) : Prop := l.word = false ∧ ∀ t, l.phase t = .idle

structure Safe (l : Lock ι) : Prop where
  exclusive : ∀ t u, l.phase t = .holding → l.phase u = .holding → t = u
  held : l.word = true ↔ ∃ t, l.phase t = .holding
  /-- A sleeper has somebody who will wake it or take its place. -/
  cared : ∀ t, l.phase t = .asleep →
    l.word = true ∨ (∃ u, l.phase u = .waking) ∨ ∃ u, l.phase u = .retrying

omit [DecidableEq ι] in
theorem Free.safe {l : Lock ι} (h : Free l) : Safe l where
  exclusive t _ ht := by rw [h.2 t] at ht; cases ht
  held := by
    rw [h.1]
    exact ⟨fun hw => absurd hw Bool.false_ne_true, fun ⟨t, ht⟩ => by rw [h.2 t] at ht; cases ht⟩
  cared t ht := by rw [h.2 t] at ht; cases ht

omit [DecidableEq ι] in
/-- While the word is clear nobody holds the lock. -/
theorem Safe.free {l : Lock ι} (h : Safe l) (hw : l.word = false) (t : ι) : l.phase t ≠ .holding := fun ht => by
  have := h.held.2 ⟨t, ht⟩
  rw [hw] at this
  cases this

/-- A thread that neither holds the lock nor comes to hold it moves on. The
sleepers stay cared for when it does not go to sleep, and is not the one that
cares for them. -/
theorem Safe.moves {l : Lock ι} (h : Safe l) {t : ι} {p : Phase} (hold : l.phase t ≠ .holding)
    (hnew : p ≠ .holding)
    (hcare : (∃ u, (l.to t p).phase u = .asleep) →
      l.word = true ∨ (∃ u, (l.to t p).phase u = .waking) ∨ ∃ u, (l.to t p).phase u = .retrying) :
    Safe (l.to t p) where
  exclusive u v hu hv := by
    rw [to_phase] at hu hv
    split at hu
    · exact absurd hu hnew
    split at hv
    · exact absurd hv hnew
    · exact h.exclusive u v hu hv
  held := by
    rw [to_word, h.held]
    constructor
    · rintro ⟨u, hu⟩
      refine ⟨u, ?_⟩
      rw [to_phase, if_neg]
      · exact hu
      · rintro rfl
        exact hold hu
    · rintro ⟨u, hu⟩
      rw [to_phase] at hu
      split at hu
      · exact absurd hu hnew
      · exact ⟨u, hu⟩
  cared u hu := hcare ⟨u, hu⟩

/-- Where another thread was in a phase it still is. -/
theorem to_phase_ne {l : Lock ι} {t u : ι} {p q : Phase} (hu : l.phase u = q) (ht : l.phase t ≠ q) :
    (l.to t p).phase u = q := by
  rw [to_phase, if_neg]
  · exact hu
  · rintro rfl
    exact ht hu

/-- The cares of a lock whose thread `t` neither wakes nor retries. -/
theorem Safe.kept {l : Lock ι} (h : Safe l) {t : ι} {p : Phase} (hp : p ≠ .asleep) (hw : l.phase t ≠ .waking)
    (hr : l.phase t ≠ .retrying) (ha : ∃ u, (l.to t p).phase u = .asleep) :
    l.word = true ∨ (∃ u, (l.to t p).phase u = .waking) ∨ ∃ u, (l.to t p).phase u = .retrying := by
  obtain ⟨u, hu⟩ := ha
  rw [to_phase] at hu
  split at hu
  · exact absurd hu hp
  rcases h.cared u hu with hl | ⟨v, hv⟩ | ⟨v, hv⟩
  · exact .inl hl
  · exact .inr (.inl ⟨v, to_phase_ne hv hw⟩)
  · exact .inr (.inr ⟨v, to_phase_ne hv hr⟩)

theorem Safe.step {l l' : Lock ι} (h : Safe l) (hs : Step l l') : Safe l' := by
  cases hs with
  | @start t ht => exact h.moves (by simp [ht]) (by simp) (h.kept (by simp) (by simp [ht]) (by simp [ht]))
  | @acquire t ht hw =>
    refine ⟨fun u v hu hv => ?_, ?_, fun u _ => .inl rfl⟩
    · rw [to_phase] at hu hv
      split at hu
      · split at hv
        · rename_i h1 h2
          rw [h1, h2]
        · exact absurd hv (h.free hw v)
      · exact absurd hu (h.free hw u)
    · refine ⟨fun _ => ⟨t, ?_⟩, fun _ => rfl⟩
      rw [to_phase, if_pos rfl]
  | @fail t ht hw =>
    have hold : l.phase t ≠ .holding := by rcases ht with ht | ht <;> simp [ht]
    exact h.moves hold (by simp) fun _ => .inl hw
  | @abandon t ht hw =>
    have hold : l.phase t ≠ .holding := by rcases ht with ht | ht <;> simp [ht]
    exact h.moves hold (by simp) fun _ => .inl hw
  | @sleep t ht hw => exact h.moves (by simp [ht]) (by simp) fun _ => .inl hw
  | @again t ht =>
    have hold : l.phase t ≠ .holding := by rcases ht with ht | ht <;> simp [ht]
    refine h.moves hold (by simp) fun _ => .inr (.inr ⟨t, ?_⟩)
    rw [to_phase, if_pos rfl]
  | @giveUp t ht =>
    have hp : l.phase t ≠ .holding ∧ l.phase t ≠ .waking ∧ l.phase t ≠ .retrying := by
      rcases ht with ht | ht <;> simp [ht]
    exact h.moves hp.1 (by simp) (h.kept (by simp) hp.2.1 hp.2.2)
  | @release t ht =>
    have hother : ∀ u, ((l.put false).to t .waking).phase u ≠ .holding := by
      intro u hu
      rw [to_phase] at hu
      split at hu
      · cases hu
      · exact absurd (h.exclusive u t hu ht) ‹_›
    refine ⟨fun u _ hu => absurd hu (hother u), ?_, fun u _ => .inr (.inl ⟨t, ?_⟩)⟩
    · exact ⟨fun hw => absurd hw Bool.false_ne_true, fun ⟨u, hu⟩ => absurd hu (hother u)⟩
    · rw [to_phase, if_pos rfl]
  | @wake t u ht hu =>
    -- The woken thread cares for the sleepers that are left.
    have hne : u ≠ t := by
      rintro rfl
      rw [ht] at hu
      cases hu
    have hretry : (l.to u .retrying).phase u = .retrying := by rw [to_phase, if_pos rfl]
    have hwoken : Safe (l.to u .retrying) :=
      h.moves (by simp [hu]) (by simp) fun _ => .inr (.inr ⟨u, hretry⟩)
    refine hwoken.moves ?_ (by simp) fun _ => .inr (.inr ⟨u, ?_⟩)
    · rw [to_phase_ne ht (by simp [hu])]
      simp
    · rw [to_phase, if_neg hne]
      exact hretry
  | @wakeNone t ht hnone =>
    refine h.moves (by simp [ht]) (by simp) ?_
    rintro ⟨u, hu⟩
    rw [to_phase] at hu
    split at hu
    · cases hu
    · exact absurd hu (hnone u)

/-- Who comes to hold the lock found the word clear. -/
theorem Step.takes {l l' : Lock ι} (hs : Step l l') {t : ι} (h : l.phase t ≠ .holding) (h' : l'.phase t = .holding) :
    l.word = false := by
  have hmove : ∀ {l : Lock ι} {u : ι} {p : Phase}, l.phase t ≠ .holding → p ≠ .holding →
      (l.to u p).phase t ≠ .holding := by
    intro l u p h hp ht
    rw [to_phase] at ht
    split at ht
    · exact hp ht
    · exact h ht
  cases hs with
  | acquire _ hw => exact hw
  | wake => exact absurd h' (hmove (hmove h (by simp)) (by simp))
  | _ => exact absurd h' (hmove h (by simp))

end MiniLibc.FutexLock
