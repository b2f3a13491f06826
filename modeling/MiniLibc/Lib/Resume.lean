import Mathlib
/-!
# Bounded calls that resume

A bounded call on a source gives some output and either a final outcome or the
source to go on from. Where every call gives the front of what the whole source
gives, and the source it leaves gives the rest, so do successive calls with any
limits.
-/

namespace MiniLibc.Resume

variable {σ ω ρ : Type}

/-- Calls with these limits, each from the source the last one left, up to the
first that ends. -/
def successive (call : Nat → σ → List ω × (ρ ⊕ σ)) : List Nat → σ → List (List ω) × (ρ ⊕ σ)
  | [], s => ([], .inr s)
  | n :: ns, s =>
    match call n s with
    | (out, .inl r) => ([out], .inl r)
    | (out, .inr s) =>
      let (outs, r) := successive call ns s
      (out :: outs, r)

/-- From a source in `P` a call gives the front of the whole. -/
structure Resumes (P : σ → Prop) (call : Nat → σ → List ω × (ρ ⊕ σ)) (whole : σ → List ω × ρ) : Prop where
  ends : ∀ {n s out r}, P s → call n s = (out, .inl r) → whole s = (out, r)
  goesOn : ∀ {n s out s'}, P s → call n s = (out, .inr s') → P s' ∧ whole s = (out ++ (whole s').1, (whole s').2)

variable {P : σ → Prop} {call : Nat → σ → List ω × (ρ ⊕ σ)} {whole : σ → List ω × ρ}

/-- Successive calls that end gave the whole. -/
theorem Resumes.successive (h : Resumes P call whole) {ns : List Nat} {s : σ} (hp : P s) {outs : List (List ω)} {r : ρ}
    (hr : successive call ns s = (outs, .inl r)) : whole s = (outs.flatten, r) := by
  induction ns generalizing s outs with
  | nil => simp [Resume.successive] at hr
  | cons n ns ih =>
    unfold Resume.successive at hr
    obtain ⟨⟨out, _ | s'⟩, hc⟩ : ∃ e, call n s = e := ⟨_, rfl⟩
    · rw [hc] at hr
      obtain ⟨rfl, he⟩ := Prod.mk.inj hr
      obtain rfl := Sum.inl.inj he
      rw [h.ends hp hc, List.flatten_singleton]
    · rw [hc] at hr
      obtain ⟨⟨outs', e⟩, he⟩ : ∃ e, Resume.successive call ns s' = e := ⟨_, rfl⟩
      dsimp only at hr
      rw [he] at hr
      obtain ⟨rfl, rfl⟩ := Prod.mk.inj hr
      obtain ⟨hp', hw⟩ := h.goesOn hp hc
      rw [hw, ih hp' he, List.flatten_cons]

/-- Calls that each use something up come to an end. -/
theorem Resumes.successive_ends (h : Resumes P call whole) {good : Nat → Prop} {size : σ → Nat}
    (hstep : ∀ n s out s', good n → P s → call n s = (out, .inr s') → size s' < size s) {ns : List Nat}
    (hns : ∀ n ∈ ns, good n) {s : σ} (hp : P s) (hs : size s < ns.length) :
    ∃ outs r, Resume.successive call ns s = (outs, .inl r) := by
  induction ns generalizing s with
  | nil => exact absurd hs (Nat.not_lt_zero _)
  | cons n ns ih =>
    unfold Resume.successive
    obtain ⟨⟨out, r | s'⟩, hc⟩ : ∃ e, call n s = e := ⟨_, rfl⟩
    · rw [hc]
      exact ⟨_, r, rfl⟩
    · have hlt := hstep n s out s' (hns n List.mem_cons_self) hp hc
      rw [List.length_cons] at hs
      obtain ⟨outs, r, he⟩ := ih (fun m hm => hns m (List.mem_cons_of_mem _ hm)) (h.goesOn hp hc).1 (by omega)
      rw [hc]
      dsimp only
      rw [he]
      exact ⟨_, r, rfl⟩

end MiniLibc.Resume
