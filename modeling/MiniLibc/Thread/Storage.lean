import Mathlib
/-!
# Thread-specific storage

`src/thread/tss.c`. The key slots are shared and reused; each carries the
generation of its last creation, and the control block of a thread tags every
value with the generation it was set under. Outside the lock a call works on
the control block of its own thread only, so the calls of all threads are one
sequence, in the order of their locked parts. The store below has neither slots
nor generations: it numbers the creations of keys and keeps a value for each
thread and creation.
-/

namespace MiniLibc.Thread

namespace Tss

/-! ## Keys -/

/-- `MINI_TSS_MAX_KEYS`. -/
abbrev maxKeys : Nat := 32

/-- `MINI_TSS_INDEX_BITS`. -/
def indexBits : Nat := 5

/-- `MINI_TSS_INDEX_MASK`. -/
def indexMask : Nat := (1 <<< indexBits) - 1

/-- `MINI_TSS_GENERATION_MASK`. -/
def generationMask : Nat := 0x07ffffff

/-- `tss_t`. -/
abbrev Key := BitVec 32

abbrev Index := Fin maxKeys

/-- `struct mini_tss_key_slot`. -/
structure KeySlot (δ : Type) where
  generation : Nat
  active : Bool
  destructor : Option δ

/-- The thread-specific part of `struct mini_thread_tcb`. -/
structure Tcb (ν : Type) where
  values : Index → Option ν
  generations : Index → Nat

def decodeKey (key : Key) : Option (Index × Nat) :=
  let candidateIndex := key.toNat &&& indexMask
  let candidateGeneration := key.toNat >>> indexBits
  if h : candidateIndex < maxKeys then
    if candidateGeneration = 0 then none else some (⟨candidateIndex, h⟩, candidateGeneration)
  else none

/-- The key `tss_create` makes. -/
def makeKey (index : Index) (generation : Nat) : Key :=
  BitVec.ofNat 32 ((generation <<< indexBits) ||| index.val)

theorem makeKey_toNat {index : Index} {generation : Nat} (h : generation < 2 ^ 27) :
    (makeKey index generation).toNat = generation * 32 + index := by
  have hi : index.val < 2 ^ 5 := index.isLt
  have hor : (generation <<< 5) ||| index.val = generation * 32 + index.val := by
    rw [← Nat.shiftLeft_add_eq_or_of_lt hi, Nat.shiftLeft_eq]
  show ((generation <<< 5) ||| index.val) % 2 ^ 32 = _
  rw [hor]
  exact Nat.mod_eq_of_lt (by omega)

theorem decodeKey_eq_some {key : Key} {index : Index} {generation : Nat} :
    decodeKey key = some (index, generation) ↔ generation ≠ 0 ∧ key.toNat = generation * 32 + index := by
  have hand : key.toNat &&& indexMask = key.toNat % 32 := Nat.and_two_pow_sub_one_eq_mod key.toNat 5
  have hshift : key.toNat >>> indexBits = key.toNat / 32 := Nat.shiftRight_eq_div_pow key.toNat 5
  unfold decodeKey
  simp only [hand, hshift]
  rw [dif_pos (Nat.mod_lt _ (by decide))]
  constructor
  · intro h
    split at h
    · cases h
    · cases h
      constructor
      · assumption
      · exact (Nat.div_add_mod' key.toNat 32).symm
  · rintro ⟨hg, hk⟩
    have hi : index.val < 32 := index.isLt
    have hdiv : key.toNat / 32 = generation := by omega
    have hmod : key.toNat % 32 = index := by omega
    simp [hdiv, hmod, hg]

theorem decodeKey_makeKey {index : Index} {generation : Nat} (h0 : generation ≠ 0) (h : generation < 2 ^ 27) :
    decodeKey (makeKey index generation) = some (index, generation) :=
  decodeKey_eq_some.2 ⟨h0, makeKey_toNat h⟩

theorem decodeKey_inj {key key' : Key} {x : Index × Nat} (h : decodeKey key = some x) (h' : decodeKey key' = some x) :
    key = key' := by
  apply BitVec.eq_of_toNat_eq
  rw [(decodeKey_eq_some.1 h).2, (decodeKey_eq_some.1 h').2]

/-- The generation after `generation`; it is never zero. -/
def nextGeneration (generation : Nat) : Nat :=
  let next := (generation + 1) &&& generationMask
  if next = 0 then 1 else next

theorem nextGeneration_eq {generation : Nat} (h : generation + 1 < 2 ^ 27) :
    nextGeneration generation = generation + 1 := by
  have hand : (generation + 1) &&& generationMask = (generation + 1) % 2 ^ 27 :=
    Nat.and_two_pow_sub_one_eq_mod (generation + 1) 27
  unfold nextGeneration
  rw [hand, Nat.mod_eq_of_lt h]
  exact if_neg (Nat.succ_ne_zero generation)

/-! ## The calls -/

/-- The key slots and the control block of each thread. -/
structure Storage (ι ν δ : Type) where
  keys : Index → KeySlot δ
  tcb : ι → Tcb ν

inductive Op (ν δ : Type) where
  /-- `tss_create`; `hasKey` unless the key pointer is null. -/
  | create (hasKey : Bool) (dtor : Option δ)
  | delete (key : Key)
  | get (key : Key)
  | set (key : Key) (value : Option ν)

inductive Reply (ν : Type) where
  /-- `thrd_success`, with the key stored. -/
  | created (key : Key)
  | nomem
  | error
  | done
  | value (value : Option ν)
deriving DecidableEq

namespace Storage

variable {ι ν δ : Type} [DecidableEq ι]

def keyIsActive (s : Storage ι ν δ) (index : Index) (generation : Nat) : Bool :=
  (s.keys index).active && decide ((s.keys index).generation = generation)

def tssCreate (s : Storage ι ν δ) (hasKey : Bool) (dtor : Option δ) : Reply ν × Storage ι ν δ :=
  if hasKey then
    match (List.finRange maxKeys).find? (fun index => !(s.keys index).active) with
    | some index =>
      let generation := nextGeneration (s.keys index).generation
      (.created (makeKey index generation), { s with keys := Function.update s.keys index ⟨generation, true, dtor⟩ })
    | none => (.nomem, s)
  else (.error, s)

def tssDelete (s : Storage ι ν δ) (t : ι) (key : Key) : Reply ν × Storage ι ν δ :=
  match decodeKey key with
  | none => (.done, s)
  | some (index, generation) =>
    let keys :=
      if s.keyIsActive index generation then
        Function.update s.keys index { s.keys index with active := false, destructor := none }
      else s.keys
    let tcb := s.tcb t
    let tcb : Tcb ν :=
      if tcb.generations index = generation then
        ⟨Function.update tcb.values index none, Function.update tcb.generations index 0⟩
      else tcb
    (.done, ⟨keys, Function.update s.tcb t tcb⟩)

def tssGet (s : Storage ι ν δ) (t : ι) (key : Key) : Reply ν × Storage ι ν δ :=
  match decodeKey key with
  | none => (.value none, s)
  | some (index, generation) =>
    if s.keyIsActive index generation && decide ((s.tcb t).generations index = generation) then
      (.value ((s.tcb t).values index), s)
    else (.value none, s)

def tssSet (s : Storage ι ν δ) (t : ι) (key : Key) (value : Option ν) : Reply ν × Storage ι ν δ :=
  match decodeKey key with
  | none => (.error, s)
  | some (index, generation) =>
    if s.keyIsActive index generation then
      let tcb : Tcb ν :=
        ⟨Function.update (s.tcb t).values index value, Function.update (s.tcb t).generations index generation⟩
      (.done, { s with tcb := Function.update s.tcb t tcb })
    else (.error, s)

/-- A call of thread `t`. -/
def call (s : Storage ι ν δ) (t : ι) : Op ν δ → Reply ν × Storage ι ν δ
  | .create hasKey dtor => s.tssCreate hasKey dtor
  | .delete key => s.tssDelete t key
  | .get key => s.tssGet t key
  | .set key value => s.tssSet t key value

/-- The replies to a sequence of calls, and the storage after them. -/
def run (s : Storage ι ν δ) : List (ι × Op ν δ) → List (Reply ν) × Storage ι ν δ
  | [] => ([], s)
  | (t, op) :: ops =>
    let first := s.call t op
    let rest := first.2.run ops
    (first.1 :: rest.1, rest.2)

/-- Zeroed slots and control blocks. -/
def init : Storage ι ν δ where
  keys _ := ⟨0, false, none⟩
  tcb _ := ⟨fun _ => none, fun _ => 0⟩

end Storage

/-! ## The store the calls implement -/

/-- One value for each thread and each creation of a key. -/
structure Store (ι ν : Type) where
  /-- The keys handed out, one for each creation, in order. -/
  issued : List Key
  /-- The creation an active key stands for. -/
  active : Key → Option Nat
  value : ι → Nat → Option ν

namespace Store

variable {ι ν δ : Type} [DecidableEq ι]

def init : Store ι ν where
  issued := []
  active _ := none
  value _ _ := none

/-- What thread `t` may be answered. -/
inductive Step (a : Store ι ν) (t : ι) : Op ν δ → Reply ν → Store ι ν → Prop where
  | create {key : Key} {dtor : Option δ} : key ∉ a.issued →
      Step a t (.create true dtor) (.created key)
        { issued := a.issued ++ [key]
          active := Function.update a.active key (some a.issued.length)
          value u c := if c = a.issued.length then none else a.value u c }
  | full {dtor : Option δ} {keys : Index → Key} : Function.Injective keys → (∀ i, a.active (keys i) ≠ none) →
      Step a t (.create true dtor) .nomem a
  | nullKey {dtor : Option δ} : Step a t (.create false dtor) .error a
  | delete {key : Key} : Step a t (.delete key) .done { a with active := Function.update a.active key none }
  | get {key : Key} : Step a t (.get key) (.value ((a.active key).bind (a.value t))) a
  | set {key : Key} {c : Nat} {value : Option ν} : a.active key = some c →
      Step a t (.set key value) .done
        { a with value := Function.update a.value t (Function.update (a.value t) c value) }
  | setInactive {key : Key} {value : Option ν} : a.active key = none → Step a t (.set key value) .error a

/-- A sequence of calls with its replies. -/
inductive Run : Store ι ν → List (ι × Op ν δ) → List (Reply ν) → Store ι ν → Prop where
  | nil (a : Store ι ν) : Run a [] [] a
  | cons {a a' b : Store ι ν} {t : ι} {op : Op ν δ} {reply : Reply ν} {ops : List (ι × Op ν δ)}
      {replies : List (Reply ν)} :
      Step a t op reply a' → Run a' ops replies b → Run a ((t, op) :: ops) (reply :: replies) b

end Store

/-! ## The slots represent the store -/

section Refinement

variable {ι ν δ : Type} [DecidableEq ι]

structure Represents (s : Storage ι ν δ) (a : Store ι ν) : Prop where
  nodup : a.issued.Nodup
  active_issued {key : Key} {c : Nat} : a.active key = some c → a.issued[c]? = some key
  active_iff (key : Key) : a.active key ≠ none ↔
    ∃ index generation, decodeKey key = some (index, generation) ∧ s.keyIsActive index generation = true
  issued_old {key : Key} : key ∈ a.issued →
    ∃ index generation, decodeKey key = some (index, generation) ∧ generation ≤ (s.keys index).generation
  active_pos {index : Index} : (s.keys index).active = true → (s.keys index).generation ≠ 0
  tags (t : ι) (index : Index) : (s.tcb t).generations index ≤ (s.keys index).generation
  value {key : Key} {c : Nat} {index : Index} {generation : Nat} (t : ι) : a.active key = some c →
    decodeKey key = some (index, generation) →
    a.value t c = if (s.tcb t).generations index = generation then (s.tcb t).values index else none

variable {s : Storage ι ν δ} {a : Store ι ν}

omit [DecidableEq ι] in
theorem keyIsActive_iff {index : Index} {generation : Nat} : s.keyIsActive index generation = true ↔
    (s.keys index).active = true ∧ (s.keys index).generation = generation := by
  simp [Storage.keyIsActive]

omit [DecidableEq ι] in
theorem represents_init : Represents (Storage.init : Storage ι ν δ) Store.init where
  nodup := List.nodup_nil
  active_issued h := by cases h
  active_iff key := by
    constructor
    · intro h
      exact absurd rfl h
    · rintro ⟨index, generation, -, h⟩
      cases (keyIsActive_iff.1 h).1
  issued_old h := by cases h
  active_pos h := by cases h
  tags t index := Nat.le_refl 0
  value t h := by cases h

omit [DecidableEq ι] in
theorem Represents.active_of_decode (h : Represents s a) {key : Key} {index : Index} {generation : Nat}
    (hd : decodeKey key = some (index, generation)) :
    a.active key ≠ none ↔ s.keyIsActive index generation = true := by
  rw [h.active_iff]
  constructor
  · rintro ⟨index', generation', hd', hk⟩
    rw [hd] at hd'
    cases hd'
    exact hk
  · intro hk
    exact ⟨index, generation, hd, hk⟩

omit [DecidableEq ι] in
theorem Represents.inactive_of_none (h : Represents s a) {key : Key} (hd : decodeKey key = none) :
    a.active key = none := by
  by_contra hne
  obtain ⟨index, generation, hd', -⟩ := (h.active_iff key).1 hne
  rw [hd] at hd'
  cases hd'

omit [DecidableEq ι] in
/-- Two active keys of one slot are one key. -/
theorem Represents.active_slot (h : Represents s a) {key key' : Key} {index : Index} {generation generation' : Nat}
    (hd : decodeKey key = some (index, generation)) (hd' : decodeKey key' = some (index, generation'))
    (hk : s.keyIsActive index generation = true) (hk' : a.active key' ≠ none) : key' = key := by
  have hg := (keyIsActive_iff.1 hk).2
  have hg' := (keyIsActive_iff.1 ((h.active_of_decode hd').1 hk')).2
  rw [← hg', hg] at hd'
  exact decodeKey_inj hd' hd

/-! ## One call -/

theorem tssGet_step (h : Represents s a) (t : ι) (key : Key) :
    Store.Step a t (.get key : Op ν δ) (s.tssGet t key).1 a ∧ (s.tssGet t key).2 = s := by
  have hstep : Store.Step a t (.get key : Op ν δ) (.value ((a.active key).bind (a.value t))) a := .get
  unfold Storage.tssGet
  cases hd : decodeKey key with
  | none =>
    rw [h.inactive_of_none hd] at hstep
    exact ⟨hstep, rfl⟩
  | some x =>
    obtain ⟨index, generation⟩ := x
    dsimp only
    cases ha : a.active key with
    | none =>
      have hk : ¬s.keyIsActive index generation = true := fun hk => (h.active_of_decode hd).2 hk ha
      rw [ha] at hstep
      rw [if_neg (by simp [hk])]
      exact ⟨hstep, rfl⟩
    | some c =>
      have hk : s.keyIsActive index generation = true := (h.active_of_decode hd).1 (by simp [ha])
      rw [ha] at hstep
      have hvalue : (some c).bind (a.value t) = a.value t c := rfl
      rw [hvalue, h.value t ha hd] at hstep
      by_cases htag : (s.tcb t).generations index = generation
      · rw [if_pos htag] at hstep
        rw [if_pos (by simp [hk, htag])]
        exact ⟨hstep, rfl⟩
      · rw [if_neg htag] at hstep
        rw [if_neg (by simp [htag])]
        exact ⟨hstep, rfl⟩

theorem tssSet_step (h : Represents s a) (t : ι) (key : Key) (value : Option ν) :
    ∃ a', Store.Step a t (.set key value : Op ν δ) (s.tssSet t key value).1 a' ∧
      Represents (s.tssSet t key value).2 a' := by
  unfold Storage.tssSet
  cases hd : decodeKey key with
  | none => exact ⟨a, .setInactive (h.inactive_of_none hd), h⟩
  | some x =>
    obtain ⟨index, generation⟩ := x
    dsimp only
    split
    · rename_i hk
      obtain ⟨c, ha⟩ := Option.ne_none_iff_exists'.1 ((h.active_of_decode hd).2 hk)
      refine ⟨_, .set ha, h.nodup, h.active_issued, h.active_iff, h.issued_old, h.active_pos, ?_, ?_⟩
      · intro u i
        by_cases hu : u = t
        · subst hu
          by_cases hi : i = index
          · subst hi
            simpa using (keyIsActive_iff.1 hk).2.ge
          · simpa [hi] using h.tags u i
        · simpa [hu] using h.tags u i
      · intro key' c' i g u ha' hd'
        dsimp only at ha' ⊢
        by_cases hu : u = t
        · subst hu
          by_cases hkey : key' = key
          · subst hkey
            rw [hd] at hd'
            rw [ha] at ha'
            cases hd'
            cases ha'
            simp
          · -- another active key has another slot and another creation
            have hc : c' ≠ c := by
              rintro rfl
              have := (h.active_issued ha).symm.trans (h.active_issued ha')
              exact hkey (Option.some.inj this).symm
            have hi : i ≠ index := by
              rintro rfl
              exact hkey (h.active_slot hd hd' hk (by simp [ha']))
            simpa [hc, hi] using h.value u ha' hd'
        · simpa [hu] using h.value u ha' hd'
    · rename_i hk
      refine ⟨a, .setInactive ?_, h⟩
      by_contra hne
      exact hk ((h.active_of_decode hd).1 hne)

theorem tssDelete_keys (t : ι) {key : Key} {index : Index} {generation : Nat}
    (hd : decodeKey key = some (index, generation)) (i : Index) :
    (((s.tssDelete t key).2).keys i).generation = (s.keys i).generation ∧
      ((((s.tssDelete t key).2).keys i).active = true ↔
        (s.keys i).active = true ∧ ¬(i = index ∧ (s.keys i).generation = generation)) := by
  unfold Storage.tssDelete
  rw [hd]
  dsimp only
  by_cases hi : i = index
  · subst hi
    split
    · rename_i hk
      simp [keyIsActive_iff.1 hk]
    · rename_i hk
      rw [keyIsActive_iff] at hk
      refine ⟨rfl, ?_⟩
      constructor
      · intro ha
        exact ⟨ha, fun hg => hk ⟨ha, hg.2⟩⟩
      · exact And.left
  · split <;> simp [hi]

theorem tssDelete_tcb (t : ι) {key : Key} {index : Index} {generation : Nat}
    (hd : decodeKey key = some (index, generation)) (u : ι) (i : Index) :
    (((s.tssDelete t key).2).tcb u).generations i =
        (if u = t ∧ i = index ∧ (s.tcb t).generations index = generation then 0 else (s.tcb u).generations i) ∧
      (¬(u = t ∧ i = index ∧ (s.tcb t).generations index = generation) →
        (((s.tssDelete t key).2).tcb u).values i = (s.tcb u).values i) := by
  unfold Storage.tssDelete
  rw [hd]
  dsimp only
  by_cases hu : u = t
  · subst hu
    by_cases hi : i = index
    · subst hi
      split <;> simp_all
    · split <;> simp_all
  · simp [hu]

theorem tssDelete_step (h : Represents s a) (t : ι) (key : Key) :
    ∃ a', Store.Step a t (.delete key : Op ν δ) (s.tssDelete t key).1 a' ∧ Represents (s.tssDelete t key).2 a' := by
  cases hd : decodeKey key with
  | none =>
    have hsame : Function.update a.active key none = a.active := by
      rw [← h.inactive_of_none hd]
      exact Function.update_eq_self key a.active
    have hstep : Store.Step a t (.delete key : Op ν δ) .done _ := .delete
    rw [hsame] at hstep
    unfold Storage.tssDelete
    rw [hd]
    exact ⟨a, hstep, h⟩
  | some x =>
    obtain ⟨index, generation⟩ := x
    have hkeys := fun i => tssDelete_keys (s := s) t hd i
    have htcb := fun u i => tssDelete_tcb (s := s) t hd u i
    have hreply : (s.tssDelete t key).1 = .done := by
      unfold Storage.tssDelete
      rw [hd]
    rw [hreply]
    have hactive : ∀ key', Function.update a.active key none key' ≠ none ↔ key' ≠ key ∧ a.active key' ≠ none := by
      intro key'
      by_cases hk : key' = key <;> simp [hk]
    refine ⟨_, .delete, h.nodup, ?_, ?_, ?_, ?_, ?_, ?_⟩
    · intro key' c ha
      dsimp only at ha
      have hne := (hactive key').1 (by simp [ha])
      rw [Function.update_of_ne hne.1] at ha
      exact h.active_issued ha
    · intro key'
      dsimp only
      rw [hactive, h.active_iff]
      constructor
      · rintro ⟨hne, i, g, hd', hk⟩
        rw [keyIsActive_iff] at hk
        refine ⟨i, g, hd', keyIsActive_iff.2 ⟨(hkeys i).2.2 ⟨hk.1, ?_⟩, by rw [(hkeys i).1, hk.2]⟩⟩
        rintro ⟨rfl, hg⟩
        rw [← hk.2, hg] at hd'
        exact hne (decodeKey_inj hd' hd)
      · rintro ⟨i, g, hd', hk⟩
        rw [keyIsActive_iff, (hkeys i).2, (hkeys i).1] at hk
        refine ⟨?_, i, g, hd', keyIsActive_iff.2 ⟨hk.1.1, hk.2⟩⟩
        rintro rfl
        rw [hd] at hd'
        cases hd'
        exact hk.1.2 ⟨rfl, hk.2⟩
    · intro key' hk
      obtain ⟨i, g, hd', hg⟩ := h.issued_old hk
      exact ⟨i, g, hd', by rwa [(hkeys i).1]⟩
    · intro i hi
      rw [(hkeys i).1]
      exact h.active_pos ((hkeys i).2.1 hi).1
    · intro u i
      rw [(hkeys i).1, (htcb u i).1]
      split
      · exact Nat.zero_le _
      · exact h.tags u i
    · intro key' c i g u ha hd'
      dsimp only at ha ⊢
      have hne := (hactive key').1 (by simp [ha])
      rw [Function.update_of_ne hne.1] at ha
      have hvalue := h.value u ha hd'
      by_cases hcleared : u = t ∧ i = index ∧ (s.tcb t).generations index = generation
      · -- the entry cleared was tagged with another generation
        obtain ⟨rfl, rfl, htag⟩ := hcleared
        have hg : generation ≠ g := by
          rintro rfl
          exact hne.1 (decodeKey_inj hd' hd)
        have h0 : 0 ≠ g := (decodeKey_eq_some.1 hd').1.symm
        have htag' := (htcb u i).1
        rw [if_pos ⟨rfl, rfl, htag⟩] at htag'
        rw [hvalue, if_neg (by rwa [htag]), htag', if_neg h0]
      · rw [hvalue, (htcb u i).1, if_neg hcleared, (htcb u i).2 hcleared]

omit [DecidableEq ι] in
theorem find_inactive {index : Index}
    (h : (List.finRange maxKeys).find? (fun i => !(s.keys i).active) = some index) :
    (s.keys index).active = false := by
  simpa using List.find?_some h

omit [DecidableEq ι] in
theorem all_active (h : (List.finRange maxKeys).find? (fun i => !(s.keys i).active) = none) (index : Index) :
    (s.keys index).active = true := by
  simpa using List.find?_eq_none.1 h index (List.mem_finRange index)

/-- A creation in an inactive slot hands out a new key. -/
theorem Represents.create (h : Represents s a) (t : ι)
    {index : Index} (hinactive : (s.keys index).active = false) (dtor : Option δ) {key : Key}
    (hd : decodeKey key = some (index, (s.keys index).generation + 1)) :
    ∃ a', Store.Step a t (.create true dtor : Op ν δ) (.created key) a' ∧
      Represents
        { s with keys := Function.update s.keys index ⟨(s.keys index).generation + 1, true, dtor⟩ } a' := by
  have hfresh : key ∉ a.issued := by
    intro hk
    obtain ⟨i, g, hd', hg⟩ := h.issued_old hk
    rw [hd] at hd'
    cases hd'
    exact Nat.not_succ_le_self _ hg
  have hold : ∀ {key' : Key} {c : Nat}, a.active key' = some c → c ≠ a.issued.length := by
    rintro key' c ha rfl
    have hc := h.active_issued ha
    simp at hc
  have hactive : ∀ (key' : Key) (c : Nat), Function.update a.active key (some a.issued.length) key' = some c →
      key' = key ∧ c = a.issued.length ∨ a.active key' = some c := by
    intro key' c ha
    by_cases hk : key' = key
    · subst hk
      rw [Function.update_self] at ha
      exact .inl ⟨rfl, (Option.some.inj ha).symm⟩
    · rw [Function.update_of_ne hk] at ha
      exact .inr ha
  have hle : ∀ i, (s.keys i).generation ≤
      (Function.update s.keys index ⟨(s.keys index).generation + 1, true, dtor⟩ i).generation := by
    intro i
    by_cases hi : i = index
    · subst hi
      simp
    · simp [hi]
  refine ⟨_, .create hfresh, ?_, ?_, ?_, ?_, ?_, ?_, ?_⟩
  · rw [List.nodup_append]
    refine ⟨h.nodup, List.nodup_singleton key, ?_⟩
    rintro x hx y hy rfl
    rw [List.mem_singleton] at hy
    exact hfresh (hy ▸ hx)
  · intro key' c ha
    dsimp only at ha ⊢
    rcases hactive key' c ha with ⟨rfl, rfl⟩ | ha
    · simp
    · have hc := h.active_issued ha
      rw [List.getElem?_append_left (List.getElem?_eq_some_iff.1 hc).1, hc]
  · intro key'
    dsimp only
    by_cases hk : key' = key
    · subst hk
      rw [Function.update_self]
      refine iff_of_true (by simp) ⟨index, _, hd, ?_⟩
      rw [keyIsActive_iff]
      simp
    · rw [Function.update_of_ne hk, h.active_iff]
      refine exists_congr fun i => exists_congr fun g => and_congr_right fun hd' => ?_
      rw [keyIsActive_iff, keyIsActive_iff]
      by_cases hi : i = index
      · subst hi
        have hg : (s.keys i).generation + 1 ≠ g := by
          rintro rfl
          exact hk (decodeKey_inj hd' hd)
        simp [hinactive, hg]
      · simp [hi]
  · intro key' hk
    rcases List.mem_append.1 hk with hk | hk
    · obtain ⟨i, g, hd', hg⟩ := h.issued_old hk
      exact ⟨i, g, hd', hg.trans (hle i)⟩
    · rw [List.mem_singleton] at hk
      subst hk
      exact ⟨index, _, hd, by simp⟩
  · intro i hi
    dsimp only at hi ⊢
    by_cases he : i = index
    · subst he
      simp
    · rw [Function.update_of_ne he] at hi ⊢
      exact h.active_pos hi
  · intro u i
    exact (h.tags u i).trans (hle i)
  · intro key' c i g u ha hd'
    dsimp only at ha ⊢
    rcases hactive key' c ha with ⟨rfl, rfl⟩ | ha
    · -- no thread has a tag of the new generation
      rw [hd] at hd'
      cases hd'
      have htag := h.tags u index
      rw [if_pos rfl, if_neg (by omega)]
    · rw [if_neg (hold ha)]
      exact h.value u ha hd'

/-- When every slot is active, there is an active key for each. -/
theorem Represents.full (h : Represents s a) (hbound : ∀ i, (s.keys i).generation < 2 ^ 27 - 1) (t : ι)
    (hall : ∀ i, (s.keys i).active = true) (dtor : Option δ) :
    Store.Step a t (.create true dtor : Op ν δ) .nomem a := by
  have hd : ∀ i, decodeKey (makeKey i (s.keys i).generation) = some (i, (s.keys i).generation) := by
    intro i
    have hi := hbound i
    exact decodeKey_makeKey (h.active_pos (hall i)) (by omega)
  apply @Store.Step.full _ _ _ _ _ _ _ fun i => makeKey i (s.keys i).generation
  · intro i j hij
    dsimp only at hij
    have hi := hd i
    rw [hij, hd j] at hi
    exact (Prod.mk.inj (Option.some.inj hi)).1.symm
  · intro i
    rw [h.active_of_decode (hd i), keyIsActive_iff]
    exact ⟨hall i, rfl⟩

theorem tssCreate_step (h : Represents s a) (hbound : ∀ i, (s.keys i).generation < 2 ^ 27 - 1) (t : ι)
    (hasKey : Bool) (dtor : Option δ) :
    ∃ a', Store.Step a t (.create hasKey dtor : Op ν δ) (s.tssCreate hasKey dtor).1 a' ∧
      Represents (s.tssCreate hasKey dtor).2 a' := by
  unfold Storage.tssCreate
  cases hasKey with
  | false => exact ⟨a, .nullKey, h⟩
  | true =>
    rw [if_pos rfl]
    split
    · rename_i index hfind
      have hindex := hbound index
      dsimp only
      rw [nextGeneration_eq (by omega)]
      exact h.create t (find_inactive hfind) dtor (decodeKey_makeKey (Nat.succ_ne_zero _) (by omega))
    · rename_i hfind
      exact ⟨a, h.full hbound t (all_active hfind) dtor, h⟩

/-- Every call is a step of the store. -/
theorem call_step (h : Represents s a) (hbound : ∀ i, (s.keys i).generation < 2 ^ 27 - 1) (t : ι) (op : Op ν δ) :
    ∃ a', Store.Step a t op (s.call t op).1 a' ∧ Represents (s.call t op).2 a' := by
  cases op with
  | create hasKey dtor => exact tssCreate_step h hbound t hasKey dtor
  | delete key => exact tssDelete_step h t key
  | get key =>
    obtain ⟨hstep, hsame⟩ := tssGet_step h t key
    refine ⟨a, hstep, ?_⟩
    show Represents (s.tssGet t key).2 a
    rwa [hsame]
  | set key value => exact tssSet_step h t key value

/-! ## All the calls -/

/-- How often the replies say that a slot was created. -/
def creationsOf (index : Index) (replies : List (Reply ν)) : Nat :=
  replies.countP fun
    | .created key => (decodeKey key).map Prod.fst = some index
    | _ => false

/-- A slot has the generation of its last creation. -/
theorem call_generation (hbound : ∀ i, (s.keys i).generation < 2 ^ 27 - 1) (t : ι) (op : Op ν δ) (i : Index) :
    ((s.call t op).2.keys i).generation = (s.keys i).generation + creationsOf i [(s.call t op).1] := by
  cases op with
  | create hasKey dtor =>
    show (((s.tssCreate hasKey dtor).2).keys i).generation = _ + creationsOf i [(s.tssCreate hasKey dtor).1]
    unfold Storage.tssCreate
    cases hasKey with
    | false => rfl
    | true =>
      rw [if_pos rfl]
      split
      · rename_i index hfind
        have hindex := hbound index
        have hd : decodeKey (makeKey index ((s.keys index).generation + 1)) = some (index, _) :=
          decodeKey_makeKey (Nat.succ_ne_zero _) (by omega)
        dsimp only
        rw [nextGeneration_eq (by omega)]
        by_cases hi : i = index
        · subst hi
          simp [creationsOf, hd]
        · simp [creationsOf, hd, hi, Ne.symm hi]
      · rfl
  | delete key =>
    have hreply : creationsOf i [(s.tssDelete t key).1] = 0 := by
      unfold Storage.tssDelete
      split <;> rfl
    show (((s.tssDelete t key).2).keys i).generation = _ + creationsOf i [(s.tssDelete t key).1]
    rw [hreply]
    cases hd : decodeKey key with
    | none =>
      unfold Storage.tssDelete
      rw [hd]
      rfl
    | some x => exact (tssDelete_keys t hd i).1
  | get key =>
    show (((s.tssGet t key).2).keys i).generation = _ + creationsOf i [(s.tssGet t key).1]
    unfold Storage.tssGet
    split
    · rfl
    · split <;> rfl
  | set key value =>
    show (((s.tssSet t key value).2).keys i).generation = _ + creationsOf i [(s.tssSet t key value).1]
    unfold Storage.tssSet
    split
    · rfl
    · split <;> rfl

theorem run_refines (h : Represents s a) (ops : List (ι × Op ν δ))
    (hcount : ∀ i, (s.keys i).generation + creationsOf i (s.run ops).1 < 2 ^ 27 - 1) :
    ∃ b, Store.Run a ops (s.run ops).1 b ∧ Represents (s.run ops).2 b := by
  induction ops generalizing s a with
  | nil => exact ⟨a, .nil a, h⟩
  | cons first ops ih =>
    obtain ⟨t, op⟩ := first
    have hbound : ∀ i, (s.keys i).generation < 2 ^ 27 - 1 := by
      intro i
      exact (Nat.le_add_right _ _).trans_lt (hcount i)
    obtain ⟨a', hstep, h'⟩ := call_step h hbound t op
    obtain ⟨b, hrun, hb⟩ := ih h' (by
      intro i
      have hi := hcount i
      have hsplit : creationsOf i (s.run ((t, op) :: ops)).1 =
          creationsOf i [(s.call t op).1] + creationsOf i ((s.call t op).2.run ops).1 := by
        rw [creationsOf, creationsOf, creationsOf, ← List.countP_append]
        rfl
      rw [call_generation hbound]
      omega)
    exact ⟨b, .cons hstep hrun, hb⟩

/-- However the threads create, delete, read and set keys, as long as no slot
is created `2 ^ 27 - 1` times, every reply is one of the store: a key is read
as what the thread last set under the same creation, and no key is handed out
twice. To set a key that is not active changes nothing. -/
theorem tss_refines_store (ops : List (ι × Op ν δ))
    (hcount : ∀ i, creationsOf i ((Storage.init : Storage ι ν δ).run ops).1 < 2 ^ 27 - 1) :
    ∃ a, Store.Run Store.init ops ((Storage.init : Storage ι ν δ).run ops).1 a ∧
      a.issued.Nodup ∧ (∀ key c, a.active key = some c → a.issued[c]? = some key) ∧
      ∀ t key value, a.active key = none →
        ((Storage.init : Storage ι ν δ).run ops).2.tssSet t key value =
          (.error, ((Storage.init : Storage ι ν δ).run ops).2) := by
  obtain ⟨a, hrun, h⟩ := run_refines represents_init ops (by simpa [Storage.init] using hcount)
  refine ⟨a, hrun, h.nodup, fun key c => h.active_issued, ?_⟩
  intro t key value ha
  unfold Storage.tssSet
  cases hd : decodeKey key with
  | none => rfl
  | some x =>
    obtain ⟨index, generation⟩ := x
    exact if_neg fun hk => (h.active_of_decode hd).2 hk ha

/-- Two threads use a key. -/
def twoThreads : List (Bool × Op Nat Unit) :=
  [(true, .create true none), (true, .set 32 (some 5)), (false, .get 32), (true, .get 32)]

theorem tss_refines_store_two :
    ∃ a, Store.Run Store.init twoThreads [.created 32, .done, .value none, .value (some 5)] a := by
  obtain ⟨a, hrun, -⟩ := tss_refines_store twoThreads (by decide)
  exact ⟨a, hrun⟩

end Refinement

end Tss

end MiniLibc.Thread
