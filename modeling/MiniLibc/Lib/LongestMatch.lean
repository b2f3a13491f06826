import Mathlib
/-!
# Longest matches

A pattern is a predicate on texts. `Longest` says which text at the front of an
input is the longest one of a pattern, and `NoMatch` that there is none.
-/

namespace MiniLibc.LongestMatch

variable {α : Type} {P Q : List α → Prop} {input text rest : List α}

/-- The longest text of the pattern at the front of the input, and what follows it. -/
structure Longest (P : List α → Prop) (input text rest : List α) : Prop where
  split : input = text ++ rest
  holds : P text
  length_le : ∀ {text' rest' : List α}, input = text' ++ rest' → P text' → text'.length ≤ text.length

def NoMatch (P : List α → Prop) (input : List α) : Prop := ∀ text rest, input = text ++ rest → ¬ P text

/-- A pattern whose texts of an input all start with the same front. -/
theorem Longest.behind {front : List α} (h : Longest P input text rest) (hto : P text → Q (front ++ text))
    (hfrom : ∀ {text' rest' : List α}, front ++ input = text' ++ rest' → Q text' → ∃ t, text' = front ++ t ∧ P t) :
    Longest Q (front ++ input) (front ++ text) rest where
  split := by rw [h.split, List.append_assoc]
  holds := hto h.holds
  length_le {text' rest'} hsplit hq := by
    obtain ⟨t, rfl, hp⟩ := hfrom hsplit hq
    rw [List.append_assoc] at hsplit
    have := h.length_le (List.append_cancel_left hsplit) hp
    rw [List.length_append, List.length_append]
    omega

theorem NoMatch.behind {front : List α} (h : NoMatch P input)
    (hfrom : ∀ {text' rest' : List α}, front ++ input = text' ++ rest' → Q text' → ∃ t, text' = front ++ t ∧ P t) :
    NoMatch Q (front ++ input) := by
  intro text' rest' hsplit hq
  obtain ⟨t, rfl, hp⟩ := hfrom hsplit hq
  rw [List.append_assoc] at hsplit
  exact h t rest' (List.append_cancel_left hsplit) hp

/-- A pattern with the same texts. -/
theorem Longest.congr (h : Longest P input text rest)
    (hpq : ∀ {text' rest' : List α}, input = text' ++ rest' → (Q text' ↔ P text')) : Longest Q input text rest where
  split := h.split
  holds := (hpq h.split).2 h.holds
  length_le hsplit hq := h.length_le hsplit ((hpq hsplit).1 hq)

theorem NoMatch.mono (h : NoMatch P input) (hpq : ∀ {text' rest' : List α}, input = text' ++ rest' → Q text' → P text') :
    NoMatch Q input := fun text' rest' hsplit hq => h text' rest' hsplit (hpq hsplit hq)

/-- A front whose items have a property, up to one that has not. -/
theorem span_unique {p : α → Bool} {front rest : List α} (hfront : ∀ c ∈ front, p c = true)
    (hrest : ∀ c t, rest = c :: t → p c = false) :
    (front ++ rest).takeWhile p = front ∧ (front ++ rest).dropWhile p = rest := by
  rw [List.takeWhile_append_of_pos hfront, List.dropWhile_append_of_pos hfront]
  cases rest with
  | nil => simp
  | cons c t =>
    have hc := hrest c t rfl
    simp [hc]

/-- Every front whose items have the property is part of the longest. -/
theorem length_le_takeWhile {p : α → Bool} {front : List α} (rest : List α) (hfront : ∀ c ∈ front, p c = true) :
    front.length ≤ ((front ++ rest).takeWhile p).length := by
  rw [List.takeWhile_append_of_pos hfront, List.length_append]
  omega

end MiniLibc.LongestMatch
