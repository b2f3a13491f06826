import Mathlib
import MiniLibc.Thread.Storage
/-!
# Destructors of an exiting thread

A pass scans the slots under the registry lock and calls the destructors after
it, which may call anything: a destructor takes the storage, and the rest of the
program, from any state to any other. `Passes` says what the passes may do
without arrays; it only speaks of the values that are due when a pass starts.
-/

namespace MiniLibc.Thread.Tss

variable {ι ν δ ω : Type} [DecidableEq ι]

/-! ## The source -/

/-- `TSS_DTOR_ITERATIONS`. -/
def dtorIterations : Nat := 4

/-- The locals of a pass, and the storage it scans. -/
structure Scan (ι ν δ : Type) where
  destructors : Index → Option δ
  values : Index → Option ν
  pending : Bool
  storage : Storage ι ν δ

def scanSlot (t : ι) (x : Scan ι ν δ) (index : Index) : Scan ι ν δ :=
  let slot := x.storage.keys index
  let tcb := x.storage.tcb t
  if slot.active = true ∧ slot.destructor.isSome ∧ tcb.generations index = slot.generation ∧ (tcb.values index).isSome then
    { destructors := Function.update x.destructors index slot.destructor
      values := Function.update x.values index (tcb.values index)
      pending := true
      storage := { x.storage with
        tcb := Function.update x.storage.tcb t { tcb with values := Function.update tcb.values index none } } }
  else
    { x with
      destructors := Function.update x.destructors index none
      values := Function.update x.values index none }

/-- The loop under the registry lock. -/
def scanSlots (t : ι) (s : Storage ι ν δ) : Scan ι ν δ :=
  (List.finRange maxKeys).foldl (scanSlot t) ⟨fun _ => none, fun _ => none, false, s⟩

/-- The loop over the destructors; `invoke` is a call of one with its value. -/
def callDestructors (invoke : δ → Option ν → ω × Storage ι ν δ → ω × Storage ι ν δ) (destructors : Index → Option δ)
    (values : Index → Option ν) (world : ω × Storage ι ν δ) : ω × Storage ι ν δ :=
  (List.finRange maxKeys).foldl
    (fun world index =>
      match destructors index with
      | some destructor => invoke destructor (values index) world
      | none => world)
    world

/-- The passes that are left. -/
def runPasses (invoke : δ → Option ν → ω × Storage ι ν δ → ω × Storage ι ν δ) (t : ι) :
    Nat → ω × Storage ι ν δ → ω × Storage ι ν δ
  | 0, world => world
  | passes + 1, world =>
    let x := scanSlots t world.2
    if x.pending then
      runPasses invoke t passes (callDestructors invoke x.destructors x.values (world.1, x.storage))
    else (world.1, x.storage)

/-- `__mini_tss_run_destructors`. -/
def runDestructors (invoke : δ → Option ν → ω × Storage ι ν δ → ω × Storage ι ν δ) (t : ι) (world : ω × Storage ι ν δ) :
    ω × Storage ι ν δ :=
  runPasses invoke t dtorIterations world

/-! ## What is due -/

/-- The slot is active with the destructor `d`, and holds the value `v` of the
thread, stored under this creation of the key. -/
structure Due (s : Storage ι ν δ) (t : ι) (index : Index) (d : δ) (v : ν) : Prop where
  active : (s.keys index).active = true
  destructor : (s.keys index).destructor = some d
  generation : (s.tcb t).generations index = (s.keys index).generation
  value : (s.tcb t).values index = some v

/-- Something is due in the slot. -/
def IsDue (s : Storage ι ν δ) (t : ι) (index : Index) : Prop := ∃ d v, Due s t index d v

open Classical in
/-- The storage without the values of some slots. -/
noncomputable def cleared (s : Storage ι ν δ) (t : ι) (slots : Index → Prop) : Storage ι ν δ where
  keys := s.keys
  tcb := Function.update s.tcb t
    ⟨fun index => if slots index then none else (s.tcb t).values index, (s.tcb t).generations⟩

/-- A call of a destructor. -/
structure Delivery (ν δ : Type) where
  index : Index
  destructor : δ
  value : ν

/-- The passes, of which so many are left: each delivers what is due at its
start, in some order and each slot once, from the storage without those values. -/
inductive Passes (invoke : δ → Option ν → ω × Storage ι ν δ → ω × Storage ι ν δ) (t : ι) :
    Nat → ω × Storage ι ν δ → ω × Storage ι ν δ → Prop where
  | exhausted (world : ω × Storage ι ν δ) : Passes invoke t 0 world world
  | idle {passes : Nat} {world : ω × Storage ι ν δ} : (∀ index, ¬IsDue world.2 t index) →
      Passes invoke t (passes + 1) world world
  | pass {passes : Nat} {world world' : ω × Storage ι ν δ} (deliveries : List (Delivery ν δ)) :
      (∀ index d v, ⟨index, d, v⟩ ∈ deliveries ↔ Due world.2 t index d v) →
      (deliveries.map (·.index)).Nodup → deliveries ≠ [] →
      Passes invoke t passes
        (deliveries.foldl (fun world delivery => invoke delivery.destructor (some delivery.value) world)
          (world.1, cleared world.2 t (IsDue world.2 t))) world' →
      Passes invoke t (passes + 1) world world'

/-! ## The scan -/

omit [DecidableEq ι] in
theorem isDue_iff {s : Storage ι ν δ} {t : ι} {index : Index} :
    IsDue s t index ↔ (s.keys index).active = true ∧ (s.keys index).destructor.isSome ∧
      (s.tcb t).generations index = (s.keys index).generation ∧ ((s.tcb t).values index).isSome := by
  constructor
  · rintro ⟨d, v, h⟩
    rw [h.destructor, h.value]
    exact ⟨h.active, rfl, h.generation, rfl⟩
  · rintro ⟨hactive, hdestructor, hgeneration, hvalue⟩
    obtain ⟨d, hd⟩ := Option.isSome_iff_exists.1 hdestructor
    obtain ⟨v, hv⟩ := Option.isSome_iff_exists.1 hvalue
    exact ⟨d, v, hactive, hd, hgeneration, hv⟩

/-- What the scan knows after the slots of `done`. -/
structure Scanned (s : Storage ι ν δ) (t : ι) (done : List Index) (x : Scan ι ν δ) : Prop where
  storage : x.storage = cleared s t fun index => index ∈ done ∧ IsDue s t index
  found {index : Index} {d : δ} {v : ν} : Due s t index d v → index ∈ done →
    x.destructors index = some d ∧ x.values index = some v
  notFound {index : Index} : (index ∈ done → ¬IsDue s t index) → x.destructors index = none
  pending : x.pending = true ↔ ∃ index ∈ done, IsDue s t index

theorem cleared_eq {s : Storage ι ν δ} {t : ι} {slots : Index → Prop} {values : Index → Option ν}
    (h : ∀ index, slots index → values index = none)
    (h' : ∀ index, ¬slots index → values index = (s.tcb t).values index) :
    cleared s t slots = ⟨s.keys, Function.update s.tcb t ⟨values, (s.tcb t).generations⟩⟩ := by
  unfold cleared
  congr 3
  funext index
  by_cases hslot : slots index
  · rw [if_pos hslot, h index hslot]
  · rw [if_neg hslot, h' index hslot]

theorem cleared_values (s : Storage ι ν δ) (t : ι) {slots : Index → Prop} {index : Index} (h : ¬slots index) :
    ((cleared s t slots).tcb t).values index = (s.tcb t).values index := by
  unfold cleared
  simp [h]

theorem cleared_generations (s : Storage ι ν δ) (t : ι) (slots : Index → Prop) :
    ((cleared s t slots).tcb t).generations = (s.tcb t).generations := by
  unfold cleared
  simp

theorem cleared_congr (s : Storage ι ν δ) (t : ι) {slots slots' : Index → Prop} (h : ∀ index, slots index ↔ slots' index) :
    cleared s t slots = cleared s t slots' := by
  rw [show slots = slots' from funext fun index => propext (h index)]

/-- Nothing is cleared where nothing was to be. -/
theorem cleared_none (s : Storage ι ν δ) (t : ι) {slots : Index → Prop} (h : ∀ index, ¬slots index) :
    cleared s t slots = s := by
  rw [cleared_eq (fun index hslot => absurd hslot (h index)) fun index _ => rfl]
  show (⟨s.keys, Function.update s.tcb t (s.tcb t)⟩ : Storage ι ν δ) = s
  rw [Function.update_eq_self]

/-- A slot that has not been scanned is as it was at the start. -/
theorem Scanned.due {s : Storage ι ν δ} {t : ι} {done : List Index} {x : Scan ι ν δ} (h : Scanned s t done x)
    {index : Index} (hnew : index ∉ done) : IsDue x.storage t index ↔ IsDue s t index := by
  rw [isDue_iff, isDue_iff, h.storage, cleared_generations, cleared_values s t fun hdone => hnew hdone.1]
  rfl

theorem scanSlot_due {s : Storage ι ν δ} {t : ι} {done : List Index} {x : Scan ι ν δ} (h : Scanned s t done x)
    {index : Index} (hnew : index ∉ done) (hcase : IsDue s t index) :
    Scanned s t (done ++ [index]) (scanSlot t x index) := by
  have hsame := (h.due hnew).2 hcase
  unfold scanSlot
  dsimp only
  rw [if_pos (isDue_iff.1 hsame)]
  have hkeys : x.storage.keys = s.keys := by
    rw [h.storage]
    rfl
  have hvalue : (x.storage.tcb t).values index = (s.tcb t).values index := by
    rw [h.storage, cleared_values s t fun hdone => hnew hdone.1]
  constructor
  case storage =>
    have hgenerations : (x.storage.tcb t).generations = (s.tcb t).generations := by rw [h.storage, cleared_generations]
    have hupdate : ∀ tcb, Function.update x.storage.tcb t tcb = Function.update s.tcb t tcb := by
      intro tcb
      rw [h.storage]
      exact Function.update_idem _ _ _
    rw [hkeys, hgenerations, hupdate]
    symm
    apply cleared_eq
    · rintro i ⟨hi, hdue⟩
      by_cases hindex : i = index
      · rw [hindex, Function.update_self]
      · have hdone := (List.mem_append.1 hi).resolve_right fun hlast => hindex (List.mem_singleton.1 hlast)
        rw [Function.update_of_ne hindex, h.storage]
        simp [cleared, hdone, hdue]
    · intro i hi
      have hindex : i ≠ index := by
        rintro rfl
        exact hi ⟨List.mem_append_right _ (List.mem_singleton_self i), hcase⟩
      rw [Function.update_of_ne hindex, h.storage,
        cleared_values s t fun hdone => hi ⟨List.mem_append_left _ hdone.1, hdone.2⟩]
  case found =>
    intro i d v hdue hi
    dsimp only
    by_cases hindex : i = index
    · subst hindex
      rw [Function.update_self, Function.update_self, hkeys, hvalue]
      exact ⟨hdue.destructor, hdue.value⟩
    · rw [Function.update_of_ne hindex, Function.update_of_ne hindex]
      exact h.found hdue ((List.mem_append.1 hi).resolve_right fun hlast => hindex (List.mem_singleton.1 hlast))
  case notFound =>
    intro i hi
    have hindex : i ≠ index := by
      rintro rfl
      exact hi (List.mem_append_right _ (List.mem_singleton_self i)) hcase
    dsimp only
    rw [Function.update_of_ne hindex]
    exact h.notFound fun hdone => hi (List.mem_append_left _ hdone)
  case pending =>
    exact ⟨fun _ => ⟨index, List.mem_append_right _ (List.mem_singleton_self index), hcase⟩, fun _ => rfl⟩

theorem scanSlot_notDue {s : Storage ι ν δ} {t : ι} {done : List Index} {x : Scan ι ν δ} (h : Scanned s t done x)
    {index : Index} (hnew : index ∉ done) (hcase : ¬IsDue s t index) :
    Scanned s t (done ++ [index]) (scanSlot t x index) := by
  have hmem : ∀ i, IsDue s t i → (i ∈ done ++ [index] ↔ i ∈ done) := by
    intro i hi
    rw [List.mem_append, List.mem_singleton]
    constructor
    · rintro (hdone | rfl)
      · exact hdone
      · exact absurd hi hcase
    · exact .inl
  unfold scanSlot
  dsimp only
  rw [if_neg fun hc => hcase ((h.due hnew).1 (isDue_iff.2 hc))]
  constructor
  case storage =>
    dsimp only
    rw [h.storage]
    apply cleared_congr
    intro i
    constructor
    · rintro ⟨hdone, hi⟩
      exact ⟨(hmem i hi).2 hdone, hi⟩
    · rintro ⟨hdone, hi⟩
      exact ⟨(hmem i hi).1 hdone, hi⟩
  case found =>
    intro i d v hdue hi
    have hindex : i ≠ index := by
      rintro rfl
      exact hcase ⟨d, v, hdue⟩
    dsimp only
    rw [Function.update_of_ne hindex, Function.update_of_ne hindex]
    exact h.found hdue ((hmem i ⟨d, v, hdue⟩).1 hi)
  case notFound =>
    intro i hi
    dsimp only
    by_cases hindex : i = index
    · subst hindex
      rw [Function.update_self]
    · rw [Function.update_of_ne hindex]
      exact h.notFound fun hdone => hi (List.mem_append_left _ hdone)
  case pending =>
    rw [h.pending]
    constructor
    · rintro ⟨i, hdone, hi⟩
      exact ⟨i, (hmem i hi).2 hdone, hi⟩
    · rintro ⟨i, hdone, hi⟩
      exact ⟨i, (hmem i hi).1 hdone, hi⟩

theorem scanSlots_scanned (s : Storage ι ν δ) (t : ι) : Scanned s t (List.finRange maxKeys) (scanSlots t s) := by
  have hfold : ∀ done : List Index, done.Nodup →
      Scanned s t done (done.foldl (scanSlot t) ⟨fun _ => none, fun _ => none, false, s⟩) := by
    intro done
    induction done using List.reverseRecOn with
    | nil =>
      intro _
      constructor
      case storage => exact (cleared_none s t fun _ h => absurd h.1 List.not_mem_nil).symm
      case found => exact fun _ h => absurd h List.not_mem_nil
      case notFound => exact fun _ => rfl
      case pending => simp
    | append_singleton done index ih =>
      intro hnodup
      rw [List.nodup_append] at hnodup
      have hnew : index ∉ done := fun h => hnodup.2.2 index h index (List.mem_singleton_self index) rfl
      rw [List.foldl_append]
      by_cases hcase : IsDue s t index
      · exact scanSlot_due (ih hnodup.1) hnew hcase
      · exact scanSlot_notDue (ih hnodup.1) hnew hcase
  exact hfold _ (List.nodup_finRange maxKeys)

/-! ## The calls -/

/-- The calls of a snapshot, in the order of the slots. -/
def deliveriesOf (destructors : Index → Option δ) (values : Index → Option ν) (slots : List Index) : List (Delivery ν δ) :=
  slots.filterMap fun index =>
    match destructors index, values index with
    | some d, some v => some ⟨index, d, v⟩
    | _, _ => none

omit [DecidableEq ι] in
theorem mem_deliveriesOf {destructors : Index → Option δ} {values : Index → Option ν} {slots : List Index} {index : Index}
    {d : δ} {v : ν} :
    ⟨index, d, v⟩ ∈ deliveriesOf destructors values slots ↔
      index ∈ slots ∧ destructors index = some d ∧ values index = some v := by
  unfold deliveriesOf
  rw [List.mem_filterMap]
  constructor
  · rintro ⟨i, hi, hd⟩
    split at hd
    · cases hd
      exact ⟨hi, by assumption, by assumption⟩
    · cases hd
  · rintro ⟨hi, hd, hv⟩
    exact ⟨index, hi, by rw [hd, hv]⟩

/-- No slot is called twice. -/
theorem deliveriesOf_sublist (destructors : Index → Option δ) (values : Index → Option ν) (slots : List Index) :
    ((deliveriesOf destructors values slots).map (·.index)).Sublist slots := by
  induction slots with
  | nil => exact List.Sublist.refl []
  | cons index slots ih =>
    unfold deliveriesOf at ih ⊢
    rw [List.filterMap_cons]
    cases destructors index with
    | none => exact ih.cons index
    | some d =>
      cases values index with
      | none => exact ih.cons index
      | some v => exact ih.cons_cons index

omit [DecidableEq ι] in
theorem callDestructors_deliveries (invoke : δ → Option ν → ω × Storage ι ν δ → ω × Storage ι ν δ)
    {destructors : Index → Option δ} {values : Index → Option ν}
    (h : ∀ {index d}, destructors index = some d → ∃ v, values index = some v) (world : ω × Storage ι ν δ) :
    callDestructors invoke destructors values world =
      (deliveriesOf destructors values (List.finRange maxKeys)).foldl
        (fun world delivery => invoke delivery.destructor (some delivery.value) world) world := by
  unfold callDestructors deliveriesOf
  generalize List.finRange maxKeys = slots
  induction slots generalizing world with
  | nil => rfl
  | cons index slots ih =>
    rw [List.foldl_cons, List.filterMap_cons]
    cases hd : destructors index with
    | none => exact ih world
    | some d =>
      obtain ⟨v, hv⟩ := h hd
      rw [hv]
      exact ih _

/-! ## The passes -/

theorem runPasses_passes (invoke : δ → Option ν → ω × Storage ι ν δ → ω × Storage ι ν δ) (t : ι) (passes : Nat)
    (world : ω × Storage ι ν δ) : Passes invoke t passes world (runPasses invoke t passes world) := by
  induction passes generalizing world with
  | zero => exact .exhausted world
  | succ passes ih =>
    have hscan := scanSlots_scanned world.2 t
    have hall : ∀ index, index ∈ List.finRange maxKeys := List.mem_finRange
    unfold runPasses
    dsimp only
    by_cases hpending : (scanSlots t world.2).pending = true
    · rw [if_pos hpending]
      have hdue : ∀ {index d}, (scanSlots t world.2).destructors index = some d → IsDue world.2 t index := by
        intro index d hd
        by_contra hnone
        rw [hscan.notFound fun _ => hnone] at hd
        cases hd
      have hmem : ∀ index d v, ⟨index, d, v⟩ ∈ deliveriesOf (scanSlots t world.2).destructors
          (scanSlots t world.2).values (List.finRange maxKeys) ↔ Due world.2 t index d v := by
        intro index d v
        rw [mem_deliveriesOf]
        constructor
        · rintro ⟨-, hd, hv⟩
          obtain ⟨d', v', h⟩ := hdue hd
          obtain ⟨hd', hv'⟩ := hscan.found h (hall index)
          rw [hd] at hd'
          rw [hv] at hv'
          cases hd'
          cases hv'
          exact h
        · intro h
          exact ⟨hall index, hscan.found h (hall index)⟩
      refine .pass _ hmem ?_ ?_ ?_
      · exact (List.nodup_finRange maxKeys).sublist (deliveriesOf_sublist _ _ _)
      · obtain ⟨index, -, d, v, h⟩ := hscan.pending.1 hpending
        exact List.ne_nil_of_mem ((hmem index d v).2 h)
      · have hcleared : (scanSlots t world.2).storage = cleared world.2 t (IsDue world.2 t) := by
          rw [hscan.storage]
          exact cleared_congr _ _ fun index => ⟨And.right, fun h => ⟨hall index, h⟩⟩
        rw [← hcleared, ← callDestructors_deliveries invoke fun hd => ?_]
        · exact ih _
        · obtain ⟨d', v', h⟩ := hdue hd
          exact ⟨v', (hscan.found h (hall _)).2⟩
    · rw [if_neg hpending]
      have hidle : ∀ index, ¬IsDue world.2 t index := fun index h =>
        hpending (hscan.pending.2 ⟨index, hall index, h⟩)
      have hstorage : (scanSlots t world.2).storage = world.2 := by
        rw [hscan.storage]
        exact cleared_none _ _ fun index h => hidle index h.2
      rw [hstorage]
      exact .idle hidle

omit [DecidableEq ι] in
/-- In a storage that tells the creations of a slot apart, a value is due when it
was set under the creation that the active key stands for now. -/
theorem Represents.due_iff {s : Storage ι ν δ} {a : Store ι ν} (h : Represents s a)
    (hbound : ∀ index, (s.keys index).generation < 2 ^ 27) (t : ι) (index : Index) (d : δ) (v : ν) :
    Due s t index d v ↔ (s.keys index).destructor = some d ∧
      ∃ key c, decodeKey key = some (index, (s.keys index).generation) ∧ a.active key = some c ∧ a.value t c = some v := by
  constructor
  · rintro ⟨hactive, hdestructor, hgeneration, hvalue⟩
    have hd := @decodeKey_makeKey index _ (h.active_pos hactive) (hbound index)
    obtain ⟨c, hc⟩ := Option.ne_none_iff_exists'.1 ((h.active_of_decode hd).2 (keyIsActive_iff.2 ⟨hactive, rfl⟩))
    refine ⟨hdestructor, _, c, hd, hc, ?_⟩
    rw [h.value t hc hd, if_pos hgeneration, hvalue]
  · rintro ⟨hdestructor, key, c, hd, hc, hvalue⟩
    have hactive := keyIsActive_iff.1 ((h.active_of_decode hd).1 (by rw [hc]; nofun))
    rw [h.value t hc hd] at hvalue
    by_cases hgeneration : (s.tcb t).generations index = (s.keys index).generation
    · rw [if_pos hgeneration] at hvalue
      exact ⟨hactive.1, hdestructor, hgeneration, hvalue⟩
    · rw [if_neg hgeneration] at hvalue
      cases hvalue

/-- The destructors of an exiting thread, whatever they do: the passes are those
of `Passes`, of which there are `TSS_DTOR_ITERATIONS` at most. What is due was set
under the creation that is active, where the generations tell the creations apart. -/
theorem runDestructors_passes (invoke : δ → Option ν → ω × Storage ι ν δ → ω × Storage ι ν δ) (t : ι)
    (world : ω × Storage ι ν δ) :
    Passes invoke t dtorIterations world (runDestructors invoke t world) ∧
      ∀ (s : Storage ι ν δ) (a : Store ι ν), Represents s a → (∀ index, (s.keys index).generation < 2 ^ 27) →
        ∀ index d v, Due s t index d v ↔ (s.keys index).destructor = some d ∧
          ∃ key c, decodeKey key = some (index, (s.keys index).generation) ∧ a.active key = some c ∧
            a.value t c = some v :=
  ⟨runPasses_passes invoke t dtorIterations world, fun _ _ h hbound index d v => h.due_iff hbound t index d v⟩

/-- A thread has set its key to five. -/
def armed : Storage Bool Nat Unit :=
  ((Storage.init : Storage Bool Nat Unit).run [(true, .create true (some ())), (true, .set 32 (some 5))]).2

/-- A destructor that records its value, and sets the key to the one below. -/
def rearm (_ : Unit) (value : Option Nat) (world : List (Option Nat) × Storage Bool Nat Unit) :
    List (Option Nat) × Storage Bool Nat Unit :=
  (world.1 ++ [value], (world.2.tssSet true 32 (value.map (· - 1))).2)

/-- The fourth pass is the last, and leaves one in the key. -/
theorem runDestructors_passes_rearmed :
    Passes rearm true dtorIterations ([], armed) (runDestructors rearm true ([], armed)) ∧
      (runDestructors rearm true ([], armed)).1 = [some 5, some 4, some 3, some 2] ∧
      ∃ a key c, Represents armed a ∧ decodeKey key = some (0, 1) ∧ a.active key = some c ∧ a.value true c = some 5 := by
  obtain ⟨hpasses, hdue⟩ := runDestructors_passes rearm true ([], armed)
  refine ⟨hpasses, by decide +kernel, ?_⟩
  obtain ⟨a, -, ha⟩ := run_refines (s := Storage.init) represents_init
    [(true, .create true (some ())), (true, .set 32 (some 5))] (by decide)
  have hbound : ∀ index, (armed.keys index).generation < 2 ^ 27 := by decide
  obtain ⟨-, key, c, hkey, hactive, hvalue⟩ := (hdue armed a ha hbound 0 () 5).1 ⟨rfl, rfl, rfl, rfl⟩
  exact ⟨a, key, c, ha, hkey, hactive, hvalue⟩

end MiniLibc.Thread.Tss
