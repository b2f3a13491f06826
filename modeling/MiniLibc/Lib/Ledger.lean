import Mathlib
/-!
# Ledgers of tokens

Tokens are handed out in order, one holder has each, and each comes back at most
once. The books balance when a token handed out is held by one holder and has
not come back, or by nobody and has come back once.
-/

namespace MiniLibc.Ledger

/-- One more for the token, if there is one. -/
def bump {α : Type} [DecidableEq α] (count : α → Nat) : Option α → α → Nat
  | none => count
  | some a => Function.update count a (count a + 1)

theorem bump_le {α : Type} [DecidableEq α] (count : α → Nat) (token : Option α) (a : α) :
    count a ≤ bump count token a := by
  cases token with
  | none => exact Nat.le_refl _
  | some b =>
    show count a ≤ Function.update count b (count b + 1) a
    by_cases hab : a = b
    · subst hab
      rw [Function.update_self]
      exact Nat.le_succ _
    · rw [Function.update_of_ne hab]

variable {σ : Type}

/-- `issued` tokens are out, `held` is what each holder has, and `released` how
often each token came back. -/
structure Balanced (issued : Nat) (held : σ → Option Nat) (released : Nat → Nat) : Prop where
  issued_of_held : ∀ {s n}, held s = some n → n < issued
  unique : ∀ {s t n}, held s = some n → held t = some n → s = t
  kept : ∀ {s n}, held s = some n → released n = 0
  returned : ∀ {n}, n < issued → (∀ s, held s ≠ some n) → released n = 1
  unissued : ∀ {n}, issued ≤ n → released n = 0

namespace Balanced

variable {issued : Nat} {held : σ → Option Nat} {released : Nat → Nat}

/-- A token that has come back is held by nobody. -/
theorem released_cases (h : Balanced issued held released) {n : Nat} (hn : n < issued) :
    (released n = 0 ∧ ∃ s, held s = some n) ∨ (released n = 1 ∧ ∀ s, held s ≠ some n) := by
  by_cases hs : ∃ s, held s = some n
  · obtain ⟨s, hs⟩ := hs
    exact .inl ⟨h.kept hs, s, hs⟩
  · have hnone : ∀ s, held s ≠ some n := fun s hn => hs ⟨s, hn⟩
    exact .inr ⟨h.returned hn hnone, hnone⟩

/-- A token handed out and returned at once. -/
theorem burn (h : Balanced issued held released) :
    Balanced (issued + 1) held (bump released (some issued)) where
  issued_of_held hs := Nat.lt_succ_of_lt (h.issued_of_held hs)
  unique := h.unique
  kept hs := by
    rw [bump, Function.update_of_ne (Nat.ne_of_lt (h.issued_of_held hs))]
    exact h.kept hs
  returned {n} hn hs := by
    by_cases heq : n = issued
    · subst heq
      rw [bump, Function.update_self, h.unissued (Nat.le_refl n)]
    · rw [bump, Function.update_of_ne heq]
      exact h.returned (by omega) hs
  unissued {n} hn := by
    rw [bump, Function.update_of_ne (by omega)]
    exact h.unissued (by omega)

variable [DecidableEq σ]

omit [DecidableEq σ] in
theorem bump_other {n : Nat} {token : Option Nat} (h : token ≠ some n) : bump released token n = released n := by
  cases token with
  | none => rfl
  | some m => exact Function.update_of_ne (fun hnm => h (congrArg some hnm.symm)) _ _

theorem held_given {s t : σ} {m n : Nat} (h : Function.update held s (some m) t = some n) :
    (t = s ∧ n = m) ∨ held t = some n := by
  by_cases hts : t = s
  · subst hts
    rw [Function.update_self] at h
    exact .inl ⟨rfl, (Option.some.inj h).symm⟩
  · rw [Function.update_of_ne hts] at h
    exact .inr h

theorem held_returned {s t : σ} {n : Nat} (h : Function.update held s none t = some n) : t ≠ s ∧ held t = some n := by
  by_cases hts : t = s
  · subst hts
    rw [Function.update_self] at h
    cases h
  · rw [Function.update_of_ne hts] at h
    exact ⟨hts, h⟩

/-- A holder with nothing takes a new token. -/
theorem issue (h : Balanced issued held released) {s : σ} (hs : held s = none) :
    Balanced (issued + 1) (Function.update held s (some issued)) released where
  issued_of_held ht := by
    rcases held_given ht with ⟨-, rfl⟩ | ht
    · exact Nat.lt_succ_self _
    · exact Nat.lt_succ_of_lt (h.issued_of_held ht)
  unique {t u n} ht hu := by
    rcases held_given ht with ⟨rfl, rfl⟩ | ht' <;> rcases held_given hu with ⟨rfl, hn⟩ | hu'
    · rfl
    · exact absurd (h.issued_of_held hu') (Nat.lt_irrefl _)
    · rw [hn] at ht'
      exact absurd (h.issued_of_held ht') (Nat.lt_irrefl _)
    · exact h.unique ht' hu'
  kept ht := by
    rcases held_given ht with ⟨-, rfl⟩ | ht
    · exact h.unissued (Nat.le_refl _)
    · exact h.kept ht
  returned {n} hn hnone := by
    have hn' : n ≠ issued := by
      rintro rfl
      exact hnone s (Function.update_self ..)
    apply h.returned (by omega)
    intro t ht
    apply hnone t
    rw [Function.update_of_ne, ht]
    rintro rfl
    rw [hs] at ht
    cases ht
  unissued hn := h.unissued (by omega)

/-- A holder gives back what it has. -/
theorem giveBack (h : Balanced issued held released) (s : σ) :
    Balanced issued (Function.update held s none) (bump released (held s)) where
  issued_of_held ht := h.issued_of_held (held_returned ht).2
  unique ht hu := h.unique (held_returned ht).2 (held_returned hu).2
  kept {t n} ht := by
    obtain ⟨hts, ht⟩ := held_returned ht
    rw [bump_other (fun hs => hts (h.unique ht hs))]
    exact h.kept ht
  returned {n} hn hnone := by
    by_cases hs : held s = some n
    · rw [hs, bump, Function.update_self, h.kept hs]
    · rw [bump_other hs]
      apply h.returned hn
      intro t ht
      have hts : t ≠ s := by
        rintro rfl
        exact hs ht
      apply hnone t
      rw [Function.update_of_ne hts, ht]
  unissued {n} hn := by
    rw [bump_other]
    · exact h.unissued hn
    · intro hs
      exact absurd (h.issued_of_held hs) (by omega)

end Balanced

end MiniLibc.Ledger
