import Mathlib
/-!
# Intrusive lists

A list whose links are kept in its nodes: a head, and the next node of each
node. A cursor is the place of a link, the head or a node's own, and removal
walks the cursor until the link under it names the node to take out.
-/

namespace MiniLibc.Intrusive

variable {α : Type} [DecidableEq α]

/-- The links of the nodes. -/
structure Links (α : Type) where
  head : Option α
  next : α → Option α

/-- The links from `link` on lead through exactly the nodes of the list. -/
def Chain (next : α → Option α) : Option α → List α → Prop
  | link, [] => link = none
  | link, a :: l => link = some a ∧ Chain next (next a) l

namespace Links

/-- The nodes in order. -/
def Spells (k : Links α) (l : List α) : Prop := Chain k.next k.head l

/-- The link at a cursor. -/
def follow (k : Links α) : Option α → Option α
  | none => k.head
  | some a => k.next a

/-- Set the link at a cursor. -/
def set (k : Links α) (cursor link : Option α) : Links α :=
  match cursor with
  | none => { k with head := link }
  | some a => { k with next := Function.update k.next a link }

/-- Put a node at the front. -/
def push (k : Links α) (a : α) : Links α := (k.set (some a) k.head).set none (some a)

/-- Take a node out: the first link from the cursor on that names it. -/
def unlink (a : α) : (fuel : Nat) → (cursor : Option α) → Links α → Links α
  | 0, _, k => k
  | fuel + 1, cursor, k =>
    match k.follow cursor with
    | none => k
    | some b => if b = a then (k.set cursor (k.next b)).set (some b) none else unlink a fuel (some b) k

end Links

/-! ## Chains -/

omit [DecidableEq α] in
theorem Chain.congr {next next' : α → Option α} {link : Option α} {l : List α} (h : Chain next link l)
    (heq : ∀ a ∈ l, next' a = next a) : Chain next' link l := by
  induction l generalizing link with
  | nil => exact h
  | cons a l ih =>
    obtain ⟨rfl, h⟩ := h
    refine ⟨rfl, ?_⟩
    rw [heq a List.mem_cons_self]
    exact ih h (fun b hb => heq b (List.mem_cons_of_mem a hb))

/-! ## Operations -/

section
variable (k : Links α) (c d link : Option α)

@[simp] theorem Links.follow_set_self : (k.set c link).follow c = link := by
  cases c <;> simp [Links.set, Links.follow]

theorem Links.follow_set_other (h : d ≠ c) : (k.set c link).follow d = k.follow d := by
  cases c with
  | none =>
    cases d with
    | none => exact absurd rfl h
    | some b => rfl
  | some a =>
    cases d with
    | none => rfl
    | some b => exact Function.update_of_ne (fun hba => h (congrArg some hba)) _ _
end

theorem Links.Spells.push {k : Links α} {l : List α} (h : k.Spells l) {a : α} (ha : a ∉ l) :
    (k.push a).Spells (a :: l) := by
  refine ⟨rfl, ?_⟩
  have hnext : (k.push a).next a = k.head := Function.update_self ..
  rw [hnext]
  apply Chain.congr h
  intro b hb
  apply Function.update_of_ne
  rintro rfl
  exact ha hb

/-- What the walk does from a cursor outside the rest of the list: the node is
gone from the rest, and no link before it has changed. -/
theorem Links.unlink_from {a : α} {l : List α} {fuel : Nat} {c : Option α} {k : Links α}
    (h : Chain k.next (k.follow c) l) (hnodup : l.Nodup) (hc : ∀ b ∈ l, c ≠ some b) (hfuel : l.length ≤ fuel) :
    Chain (unlink a fuel c k).next ((unlink a fuel c k).follow c) (l.erase a) ∧
      ∀ d, d ≠ c → (∀ b ∈ l, d ≠ some b) → (unlink a fuel c k).follow d = k.follow d := by
  induction l generalizing fuel c with
  | nil =>
    have hstop : unlink a fuel c k = k := by
      cases fuel with
      | zero => rfl
      | succ n => simp only [unlink, show k.follow c = none from h]
    rw [hstop]
    exact ⟨h, fun _ _ _ => rfl⟩
  | cons b l ih =>
    obtain ⟨hb, h⟩ := h
    obtain ⟨hbl, hnodup⟩ := List.nodup_cons.1 hnodup
    obtain ⟨n, rfl⟩ : ∃ n, fuel = n + 1 := ⟨fuel - 1, by simp only [List.length_cons] at hfuel; omega⟩
    have hcb : c ≠ some b := hc b List.mem_cons_self
    by_cases hba : b = a
    · subst hba
      have hstep : unlink b (n + 1) c k = (k.set c (k.next b)).set (some b) none := by
        simp only [unlink, hb, if_pos]
      rw [hstep, List.erase_cons_head]
      have hother : ∀ d, d ≠ c → d ≠ some b →
          ((k.set c (k.next b)).set (some b) none).follow d = k.follow d := by
        intro d hd hdb
        rw [follow_set_other _ _ _ _ hdb, follow_set_other _ _ _ _ hd]
      constructor
      · rw [follow_set_other _ _ _ _ hcb, follow_set_self]
        apply h.congr
        intro x hx
        refine hother (some x) (fun hxc => hc x (List.mem_cons_of_mem b hx) hxc.symm) ?_
        rintro ⟨⟩
        exact hbl hx
      · intro d hd hdl
        exact hother d hd (hdl b List.mem_cons_self)
    · have hstep : unlink a (n + 1) c k = unlink a n (some b) k := by
        simp only [unlink, hb, if_neg hba]
      have hlen : l.length ≤ n := by simpa using hfuel
      have hbc : ∀ x ∈ l, some b ≠ some x := by
        rintro x hx ⟨⟩
        exact hbl hx
      obtain ⟨hchain, hframe⟩ := ih (c := some b) h hnodup hbc hlen
      rw [hstep, List.erase_cons_tail (by simpa using hba)]
      constructor
      · refine ⟨?_, hchain⟩
        rw [hframe c hcb (fun x hx => hc x (List.mem_cons_of_mem b hx)), hb]
      · intro d hd hdl
        exact hframe d (hdl b List.mem_cons_self) (fun x hx => hdl x (List.mem_cons_of_mem b hx))

theorem Links.Spells.unlink {k : Links α} {l : List α} (h : k.Spells l) (hnodup : l.Nodup) {fuel : Nat}
    (hfuel : l.length ≤ fuel) (a : α) : (k.unlink a fuel none).Spells (l.erase a) :=
  (Links.unlink_from (c := none) h hnodup (fun _ _ => nofun) hfuel).1

end MiniLibc.Intrusive
