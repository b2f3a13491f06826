import Mathlib
/-!
# Arguments in two lanes and on a stack

The arguments of a call come in two classes. Each class has registers of its
own, and an argument whose class has none left is on a stack that both share.
`deliver` fetches arguments one class after the other, and is stated for any
machine that can be asked for them.
-/

namespace MiniLibc.Args

/-- The class of the next argument. -/
inductive Fetch where
  | word
  | double
deriving DecidableEq, Repr

variable {α σ τ : Type}

/-- The values a machine delivers to a list of fetches. -/
def deliver (step : σ → Fetch → α × σ) : σ → List Fetch → List α
  | _, [] => []
  | s, f :: fs => (step s f).1 :: deliver step (step s f).2 fs

/-- A machine that is seen as another one delivers what it delivers. -/
theorem deliver_view {step : σ → Fetch → α × σ} {step' : τ → Fetch → α × τ} (view : σ → τ)
    (h : ∀ s f, (step s f).1 = (step' (view s) f).1 ∧ view (step s f).2 = (step' (view s) f).2) (s : σ)
    (fs : List Fetch) : deliver step s fs = deliver step' (view s) fs := by
  induction fs generalizing s with
  | nil => rfl
  | cons f fs ih =>
    obtain ⟨hvalue, hview⟩ := h s f
    rw [deliver, deliver, hvalue, ih, hview]

/-- The values in the registers of each class, and on the stack. -/
structure Lanes (α : Type) where
  words : List α
  doubles : List α
  stack : Nat → α

/-- An argument is taken from the stack. -/
def Lanes.spill (l : Lanes α) : α × Lanes α := (l.stack 0, { l with stack := fun n => l.stack (n + 1) })

/-- The next argument of a class. -/
def Lanes.take (l : Lanes α) : Fetch → α × Lanes α
  | .word =>
    match l.words with
    | w :: words => (w, { l with words })
    | [] => l.spill
  | .double =>
    match l.doubles with
    | d :: doubles => (d, { l with doubles })
    | [] => l.spill

/-- Only so many words are in registers. -/
def Lanes.cap (l : Lanes α) (n : Nat) : Lanes α := { l with words := l.words.take n }

/-- A cap that is not reached makes no difference. -/
theorem deliver_cap (l : Lanes α) (n : Nat) (fs : List Fetch) (h : fs.count .word ≤ n) :
    deliver Lanes.take (l.cap n) fs = deliver Lanes.take l fs := by
  induction fs generalizing l n with
  | nil => rfl
  | cons f fs ih =>
    obtain ⟨words, doubles, stack⟩ := l
    rw [deliver, deliver]
    cases f with
    | double =>
      rw [List.count_cons_of_ne (by simp)] at h
      cases doubles with
      | nil => exact congrArg (stack 0 :: ·) (ih ⟨words, [], fun n => stack (n + 1)⟩ n h)
      | cons d doubles => exact congrArg (d :: ·) (ih ⟨words, doubles, stack⟩ n h)
    | word =>
      rw [List.count_cons_self] at h
      obtain ⟨n, rfl⟩ : ∃ k, n = k + 1 := ⟨n - 1, by omega⟩
      cases words with
      | nil => exact congrArg (stack 0 :: ·) (ih ⟨[], doubles, fun n => stack (n + 1)⟩ (n + 1) (by omega))
      | cons w words => exact congrArg (w :: ·) (ih ⟨words, doubles, stack⟩ n (by omega))

/-- Every value delivered is in a register or on the stack. -/
theorem mem_deliver {l : Lanes α} {fs : List Fetch} {x : α} (h : x ∈ deliver Lanes.take l fs) :
    x ∈ l.words ∨ x ∈ l.doubles ∨ ∃ n, x = l.stack n := by
  induction fs generalizing l with
  | nil => cases h
  | cons f fs ih =>
    obtain ⟨words, doubles, stack⟩ := l
    rw [deliver] at h
    have hspill : x ∈ stack 0 :: deliver Lanes.take ⟨words, doubles, fun n => stack (n + 1)⟩ fs →
        x ∈ words ∨ x ∈ doubles ∨ ∃ n, x = stack n := by
      intro hx
      rcases List.mem_cons.1 hx with hx | hx
      · exact .inr (.inr ⟨0, hx⟩)
      rcases ih hx with hx | hx | ⟨n, hx⟩
      · exact .inl hx
      · exact .inr (.inl hx)
      · exact .inr (.inr ⟨n + 1, hx⟩)
    cases f with
    | word =>
      cases words with
      | nil => exact hspill h
      | cons w words =>
        rcases List.mem_cons.1 h with hx | hx
        · exact .inl (List.mem_cons.2 (.inl hx))
        · exact (ih hx).imp (List.mem_cons_of_mem w) id
    | double =>
      cases doubles with
      | nil => exact hspill h
      | cons d doubles =>
        rcases List.mem_cons.1 h with hx | hx
        · exact .inr (.inl (List.mem_cons.2 (.inl hx)))
        · exact (ih hx).imp id (Or.imp_left (List.mem_cons_of_mem d))

/-- The word of a register is delivered when that many words are fetched. -/
theorem word_delivered {l : Lanes α} {fs : List Fetch} {k : Nat} (hk : k < l.words.length)
    (h : k < fs.count .word) : l.words[k] ∈ deliver Lanes.take l fs := by
  induction fs generalizing l k with
  | nil => cases h
  | cons f fs ih =>
    obtain ⟨words, doubles, stack⟩ := l
    rw [deliver]
    cases f with
    | double =>
      rw [List.count_cons_of_ne (by simp)] at h
      cases doubles with
      | nil => exact List.mem_cons_of_mem _ (ih (l := ⟨words, [], fun n => stack (n + 1)⟩) hk h)
      | cons d doubles => exact List.mem_cons_of_mem _ (ih (l := ⟨words, doubles, stack⟩) hk h)
    | word =>
      rw [List.count_cons_self] at h
      cases words with
      | nil => cases hk
      | cons w words =>
        cases k with
        | zero => exact List.mem_cons_self
        | succ k =>
          have hk' : k < words.length := Nat.lt_of_succ_lt_succ hk
          exact List.mem_cons_of_mem _ (ih (l := ⟨words, doubles, stack⟩) hk' (Nat.lt_of_succ_lt_succ h))

end MiniLibc.Args
