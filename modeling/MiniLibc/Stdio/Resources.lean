import MiniLibc.Stdio.Open
import MiniLibc.Lib.Runs
/-!
# What the streams hold

Each allocated object, each allocated buffer and each descriptor is held by one
stream or has been given back once, and the registry lists the streams that are
open. The invariant is stated stream by stream and ledger by ledger; a call
changes one stream, so it owes the facts about that stream and the new balance.
-/
open MiniLibc.Memory MiniLibc.Intrusive MiniLibc.Ledger MiniLibc.Runs

namespace MiniLibc.Stdio

variable {ν κ : Type}

/-! ## What other operations change -/

/-- What an operation on an open stream does to its mode and its pointers: null
ones may come to lead into the object. -/
structure Uses (f f' : File) : Prop where
  mode : f'.mode = f.mode
  write : f'.writeBuffer = f.writeBuffer ∨ (f.writeBuffer = .null ∧ f'.writeBuffer = .inlineWrite)
  read : f'.readBuffer = f.readBuffer ∨ (f.readBuffer = .null ∧ f'.readBuffer = .inlineRead)

namespace Uses

variable {f f' f'' : File}

theorem of_eq (hm : f'.mode = f.mode) (hw : f'.writeBuffer = f.writeBuffer) (hr : f'.readBuffer = f.readBuffer) :
    Uses f f' := ⟨hm, .inl hw, .inl hr⟩

theorem refl (f : File) : Uses f f := of_eq rfl rfl rfl

theorem trans (h : Uses f f') (h' : Uses f' f'') : Uses f f'' where
  mode := h'.mode.trans h.mode
  write := by
    rcases h'.write with hw | ⟨hn, hw⟩
    · rw [hw]
      exact h.write
    · rcases h.write with hw' | ⟨-, hw'⟩
      · exact .inr ⟨hw' ▸ hn, hw⟩
      · rw [hw'] at hn
        cases hn
  read := by
    rcases h'.read with hr | ⟨hn, hr⟩
    · rw [hr]
      exact h.read
    · rcases h.read with hr' | ⟨-, hr'⟩
      · exact .inr ⟨hr' ▸ hn, hr⟩
      · rw [hr'] at hn
        cases hn

theorem ensureStorage (f : File) : Uses f (ensureStorage f) where
  mode := rfl
  write := by
    unfold Stdio.ensureStorage
    dsimp only
    split
    · rename_i hn
      exact .inr ⟨hn, rfl⟩
    · exact .inl rfl
  read := by
    unfold Stdio.ensureStorage
    dsimp only
    split
    · rename_i hn
      exact .inr ⟨hn, rfl⟩
    · exact .inl rfl

end Uses

section
variable [Kernel κ]

theorem flushLoop_uses (fuel : Nat) (w : World κ) (length completed : Nat) :
    Uses w.file (flushLoop fuel w length completed).2.file := by
  induction fuel generalizing w completed with
  | zero => exact .of_eq rfl rfl rfl
  | succ n ih =>
    have hkeep : ∀ (k : κ) (left e : Nat), Uses w.file (keepUnwritten { w with kernel := k } completed left e).file :=
      fun k left e => .of_eq (setStorage_mode ..) (setStorage_writeBuffer ..) (setStorage_readBuffer ..)
    unfold flushLoop
    dsimp only
    generalize Kernel.write w.kernel _ = answer
    obtain ⟨result, k⟩ := answer
    split
    · split
      · exact hkeep _ _ _
      · split
        · exact hkeep _ _ _
        · exact ih { w with kernel := k } _
    · exact .of_eq rfl rfl rfl

theorem stdioFlushBuffer_uses (w : World κ) : Uses w.file (stdioFlushBuffer w).2.file := by
  unfold stdioFlushBuffer
  split
  · exact .of_eq rfl rfl rfl
  · split
    · exact .refl _
    · exact (Uses.ensureStorage w.file).trans (flushLoop_uses _ { w with file := Stdio.ensureStorage w.file } _ _)

theorem fflush_uses (w : World κ) : Uses w.file (fflush w).2.file := by
  have h := stdioFlushBuffer_uses w
  unfold fflush
  split
  · exact .of_eq rfl rfl rfl
  · split
    · generalize stdioFlushBuffer w = r at h
      obtain ⟨_ | _, w1⟩ := r
      · exact h
      · exact h.trans (.of_eq rfl rfl rfl)
    · exact .refl _

theorem fseek_uses (offset whence : Int) (w : World κ) : Uses w.file (fseek offset whence w).2.file := by
  have h : Uses w.file (if w.file.mode.writable then stdioFlushBuffer w else (true, w)).2.file := by
    split
    · exact stdioFlushBuffer_uses w
    · exact .refl _
  unfold fseek
  split
  · exact .refl _
  · generalize (if w.file.mode.writable then stdioFlushBuffer w else (true, w)) = r at h
    obtain ⟨_ | _, w1⟩ := r
    · exact h
    · dsimp only at h ⊢
      split
      · exact h
      · split
        · exact h
        · exact h.trans (.of_eq rfl rfl rfl)

end

/-! ## Holding -/

/-- The buffer from `malloc` a stream has. -/
def Stream.ownBuffer (x : Stream κ) : Option Nat :=
  if x.file.mode.bufferOwned then
    match x.custom with
    | some (.buffer b) => some b
    | _ => none
  else none

/-- The mode and the pointers of the object `s` fit together. -/
structure Shaped (s : Nat) (x : Stream κ) : Prop where
  owned : validStream x.file = true → (x.file.mode.owned = true ↔ 3 ≤ s)
  bufferOwned : x.file.mode.bufferOwned = true →
    validStream x.file = true ∧ x.file.writeBuffer = .custom ∧ ∃ b, x.custom = some (.buffer b)
  borrowed : x.file.mode.bufferOwned = false → x.file.writeBuffer = .custom ∨ x.file.readBuffer = .custom →
    ∃ c, x.custom = some (.caller c)

theorem Uses.valid {f f' : File} (h : Uses f f') : validStream f' = validStream f := by
  unfold validStream
  rw [h.mode]

theorem Uses.custom {f f' : File} (h : Uses f f') :
    (f.writeBuffer = .custom → f'.writeBuffer = .custom) ∧ (f'.writeBuffer = .custom → f.writeBuffer = .custom) ∧
      (f'.readBuffer = .custom → f.readBuffer = .custom) := by
  rcases h.write with hw | ⟨hn, hw⟩ <;> rcases h.read with hr | ⟨hn', hr⟩ <;> simp [*]

theorem Shaped.use {s : Nat} {x x' : Stream κ} (h : Shaped s x) (hu : Uses x.file x'.file)
    (hc : x'.custom = x.custom) : Shaped s x' where
  owned hv := by
    rw [hu.mode]
    exact h.owned (hu.valid ▸ hv)
  bufferOwned hb := by
    obtain ⟨hv, hw, hcustom⟩ := h.bufferOwned (hu.mode ▸ hb)
    rw [hu.valid, hc]
    exact ⟨hv, hu.custom.1 hw, hcustom⟩
  borrowed hb hp := by
    rw [hc]
    exact h.borrowed (hu.mode ▸ hb) (hp.imp hu.custom.2.1 hu.custom.2.2)

namespace Streams

/-- The object has been allocated and not freed. -/
def Allocated (r : Streams ν κ) (s : Nat) : Prop := s < r.files ∧ r.frees (.file s) = 0

/-- A stream that is open. -/
def Live (r : Streams ν κ) (s : Nat) : Prop := r.Allocated s ∧ validStream (r.stream s).file = true

instance (r : Streams ν κ) (s : Nat) : Decidable (r.Live s) := inferInstanceAs (Decidable ((_ ∧ _) ∧ _))

/-- A buffer pointer of an object that has not been freed leads to the block. -/
def References (r : Streams ν κ) (s : Nat) (block : Block) : Prop :=
  r.Allocated s ∧ (r.pointee s (r.stream s).file.writeBuffer = some block ∨
    r.pointee s (r.stream s).file.readBuffer = some block)

def heldFd (r : Streams ν κ) (s : Nat) : Option Nat := if r.Live s then (r.stream s).fd else none

def heldBuffer (r : Streams ν κ) (s : Nat) : Option Nat := if r.Live s then (r.stream s).ownBuffer else none

/-- The registry lists what is open, once, and nothing that has been freed. -/
def Registered (r : Streams ν κ) : Prop :=
  ∃ l, r.links.Spells l ∧ l.Nodup ∧ (∀ s ∈ l, r.Allocated s) ∧ ∀ s, r.Live s → s ∈ l

/-- What holds of one object. -/
structure Object (r : Streams ν κ) (s : Nat) : Prop where
  shaped : r.Allocated s → Shaped s (r.stream s)
  live : 3 ≤ s → r.Allocated s → r.Live s
  freed_le : r.frees (.file s) ≤ 1
  kept : s < 3 ∨ r.files ≤ s → r.frees (.file s) = 0

structure Inv (r : Streams ν κ) : Prop where
  standard : 3 ≤ r.files
  registered : r.Registered
  object : ∀ s, r.Object s
  buffers : Balanced r.buffers r.heldBuffer (fun b => r.frees (.buffer b))
  descriptors : Balanced r.openings r.heldFd r.closes
  inlined : ∀ s, r.frees (.inlineWrite s) = 0 ∧ r.frees (.inlineRead s) = 0
  callers : ∀ c, r.frees (.caller c) = 0

/-! ## A change of one stream -/

/-- The counts after an object and a buffer are freed. -/
def freeing (frees : Block → Nat) (file buffer : Option Nat) : Block → Nat :=
  bump (bump frees (buffer.map .buffer)) (file.map .file)

section
variable (frees : Block → Nat) (file buffer : Option Nat)

theorem freeing_file (s : Nat) : freeing frees file buffer (.file s) = bump (fun s => frees (.file s)) file s := by
  cases file <;> cases buffer <;> simp [freeing, bump, Function.update_apply]

theorem freeing_buffer (b : Nat) :
    freeing frees file buffer (.buffer b) = bump (fun b => frees (.buffer b)) buffer b := by
  cases file <;> cases buffer <;> simp [freeing, bump, Function.update_apply]

theorem freeing_other {block : Block} (hf : ∀ s, block ≠ .file s) (hb : ∀ b, block ≠ .buffer b) :
    freeing frees file buffer block = frees block := by
  cases file <;> cases buffer <;> simp [freeing, bump, hf, hb]
end

/-- From one state to another only the object `s` changes, and what is freed is
at most that object and a buffer. -/
structure Change (r r' : Streams ν κ) (s : Nat) (file buffer : Option Nat) : Prop where
  stream : ∀ t, t ≠ s → r'.stream t = r.stream t
  files : ∀ t, t ≠ s → (t < r'.files ↔ t < r.files)
  frees : r'.frees = freeing r.frees file buffer
  file : file = none ∨ file = some s

namespace Change

variable {r r' : Streams ν κ} {s : Nat} {file buffer : Option Nat}

theorem frees_file (h : Change r r' s file buffer) {t : Nat} (ht : t ≠ s) : r'.frees (.file t) = r.frees (.file t) := by
  rw [h.frees, freeing_file]
  rcases h.file with rfl | rfl
  · rfl
  · rw [bump, Function.update_of_ne ht]

theorem allocated (h : Change r r' s file buffer) {t : Nat} (ht : t ≠ s) : r'.Allocated t ↔ r.Allocated t := by
  unfold Allocated
  rw [h.frees_file ht, h.files t ht]

theorem live (h : Change r r' s file buffer) {t : Nat} (ht : t ≠ s) : r'.Live t ↔ r.Live t := by
  unfold Live
  rw [h.allocated ht, h.stream t ht]

theorem heldFd_eq (h : Change r r' s file buffer) : r'.heldFd = Function.update r.heldFd s (r'.heldFd s) := by
  funext t
  by_cases ht : t = s
  · subst ht
    rw [Function.update_self]
  · rw [Function.update_of_ne ht]
    simp only [heldFd, h.live ht, h.stream t ht]

theorem heldBuffer_eq (h : Change r r' s file buffer) :
    r'.heldBuffer = Function.update r.heldBuffer s (r'.heldBuffer s) := by
  funext t
  by_cases ht : t = s
  · subst ht
    rw [Function.update_self]
  · rw [Function.update_of_ne ht]
    simp only [heldBuffer, h.live ht, h.stream t ht]

theorem object (h : Change r r' s file buffer) {t : Nat} (ht : t ≠ s) (ho : r.Object t) : r'.Object t where
  shaped ha := by
    rw [h.stream t ht]
    exact ho.shaped ((h.allocated ht).1 ha)
  live h3 ha := (h.live ht).2 (ho.live h3 ((h.allocated ht).1 ha))
  freed_le := by
    rw [h.frees_file ht]
    exact ho.freed_le
  kept hk := by
    have := h.files t ht
    rw [h.frees_file ht]
    exact ho.kept (hk.imp_right (by omega))

/-- What is left to show when one object changes. -/
theorem inv (h : Change r r' s file buffer) (hi : Inv r) (standard : 3 ≤ r'.files) (registered : r'.Registered)
    (object : r'.Object s)
    (buffers : Balanced r'.buffers (Function.update r.heldBuffer s (r'.heldBuffer s))
      (bump (fun b => r.frees (.buffer b)) buffer))
    (descriptors : Balanced r'.openings (Function.update r.heldFd s (r'.heldFd s)) r'.closes) : Inv r' where
  standard := standard
  registered := registered
  object t := by
    by_cases ht : t = s
    · exact ht ▸ object
    · exact h.object ht (hi.object t)
  buffers := by
    rw [h.heldBuffer_eq, h.frees]
    have heq : (fun b => freeing r.frees file buffer (.buffer b)) = bump (fun b => r.frees (.buffer b)) buffer :=
      funext (freeing_buffer r.frees file buffer)
    rw [heq]
    exact buffers
  descriptors := by
    rw [h.heldFd_eq]
    exact descriptors
  inlined t := by
    rw [h.frees, freeing_other _ _ _ (by simp) (by simp), freeing_other _ _ _ (by simp) (by simp)]
    exact hi.inlined t
  callers c := by
    rw [h.frees, freeing_other _ _ _ (by simp) (by simp)]
    exact hi.callers c

end Change

/-! ## What a call may come to -/

variable {r r' : Streams ν κ} {s : Nat}

theorem held_unused (r : Streams ν κ) : r.heldFd r.files = none ∧ r.heldBuffer r.files = none := by
  have hn : ¬r.Live r.files := fun hl => Nat.lt_irrefl _ hl.1.1
  exact ⟨if_neg hn, if_neg hn⟩

theorem Registered.same (h : r.Registered) (hlinks : r'.links = r.links) 
    (ha : ∀ t, r.Allocated t → r'.Allocated t) (hm : ∀ t, r'.Live t → r.Live t) : r'.Registered := by
  obtain ⟨l, hl, hnodup, hal, hml⟩ := h
  exact ⟨l, hlinks ▸ hl, hnodup, fun t ht => ha t (hal t ht), fun t ht => hml t (hm t ht)⟩

/-- Nothing is freed, and the stream keeps what it has. -/
theorem Inv.used (h : Inv r) (hc : Change r r' s none none) (hlinks : r'.links = r.links)
    (hfiles : r'.files = r.files) (hbuffers : r'.buffers = r.buffers) (hopenings : r'.openings = r.openings)
    (hcloses : r'.closes = r.closes) (hu : Uses (r.stream s).file (r'.stream s).file)
    (hfd : (r'.stream s).fd = (r.stream s).fd) (hcustom : (r'.stream s).custom = (r.stream s).custom) : Inv r' := by
  have hfrees : r'.frees = r.frees := hc.frees
  have halloc : ∀ t, r'.Allocated t ↔ r.Allocated t := by
    intro t
    unfold Allocated
    rw [hfrees, hfiles]
  have hlive : ∀ t, r'.Live t ↔ r.Live t := by
    intro t
    by_cases ht : t = s
    · subst ht
      unfold Live
      rw [halloc, hu.valid]
    · exact hc.live ht
  apply hc.inv h
  · rw [hfiles]
    exact h.standard
  · exact h.registered.same hlinks (fun t => (halloc t).2) (fun t => (hlive t).1)
  · have ho := h.object s
    constructor
    · intro ha
      exact (ho.shaped ((halloc s).1 ha)).use hu hcustom
    · intro h3 ha
      exact (hlive s).2 (ho.live h3 ((halloc s).1 ha))
    · rw [hfrees]
      exact ho.freed_le
    · rw [hfrees, hfiles]
      exact ho.kept
  · have heq : r'.heldBuffer s = r.heldBuffer s := by
      simp only [heldBuffer, hlive, Stream.ownBuffer, hu.mode, hcustom]
    rw [heq, Function.update_eq_self, hbuffers]
    exact h.buffers
  · have heq : r'.heldFd s = r.heldFd s := by
      simp only [heldFd, hlive, hfd]
    rw [heq, Function.update_eq_self, hopenings, hcloses]
    exact h.descriptors

/-- An object is allocated and freed again. -/
theorem Inv.burnFile (h : Inv r) (hc : Change r r' r.files (some r.files) none) (hlinks : r'.links = r.links)
    (hfiles : r'.files = r.files + 1) (hbuffers : r'.buffers = r.buffers) (hopenings : r'.openings = r.openings)
    (hcloses : r'.closes = r.closes) : Inv r' ∧ ∀ t, r'.Live t → r.Live t := by
  have hzero : r.frees (.file r.files) = 0 := (h.object r.files).kept (.inr (Nat.le_refl _))
  have hone : r'.frees (.file r.files) = 1 := by
    rw [hc.frees, freeing_file, bump, Function.update_self, hzero]
  have halloc : ¬r'.Allocated r.files := fun ha => by
    have := ha.2
    omega
  have hdead : ¬r'.Live r.files := fun hl => halloc hl.1
  have hother : ∀ t, r.Allocated t → t ≠ r.files := fun t ha => Nat.ne_of_lt ha.1
  have hlive : ∀ t, r'.Live t → r.Live t := by
    intro t ht
    have htn : t ≠ r.files := by
      rintro rfl
      exact hdead ht
    exact (hc.live htn).1 ht
  refine ⟨?_, hlive⟩
  apply hc.inv h
  · have := h.standard
    omega
  · exact h.registered.same hlinks (fun t ha => (hc.allocated (hother t ha)).2 ha) hlive
  · have := h.standard
    constructor
    · intro ha
      exact absurd ha halloc
    · intro _ ha
      exact absurd ha halloc
    · omega
    · intro hk
      omega
  · have heq : r'.heldBuffer r.files = r.heldBuffer r.files := by
      rw [r.held_unused.2]
      exact if_neg hdead
    rw [heq, Function.update_eq_self, hbuffers]
    exact h.buffers
  · have heq : r'.heldFd r.files = r.heldFd r.files := by
      rw [r.held_unused.1]
      exact if_neg hdead
    rw [heq, Function.update_eq_self, hopenings, hcloses]
    exact h.descriptors

/-- A new object stands for a new opening. -/
theorem Inv.opened (h : Inv r) (hc : Change r r' r.files none none) (hlinks : r'.links = r.links.push r.files)
    (hfiles : r'.files = r.files + 1) (hbuffers : r'.buffers = r.buffers)
    (hopenings : r'.openings = r.openings + 1) (hcloses : r'.closes = r.closes)
    (hfd : (r'.stream r.files).fd = some r.openings) (hshaped : Shaped r.files (r'.stream r.files))
    (hvalid : validStream (r'.stream r.files).file = true)
    (hplain : (r'.stream r.files).file.mode.bufferOwned = false) : Inv r' ∧ r'.Live r.files := by
  have hzero : r.frees (.file r.files) = 0 := (h.object r.files).kept (.inr (Nat.le_refl _))
  have hfrees : r'.frees = r.frees := hc.frees
  have hlive : r'.Live r.files := ⟨⟨by omega, hfrees ▸ hzero⟩, hvalid⟩
  have hother : ∀ t, r.Allocated t → t ≠ r.files := fun t ha => Nat.ne_of_lt ha.1
  have hstandard := h.standard
  refine ⟨?_, hlive⟩
  apply hc.inv h
  · omega
  · obtain ⟨l, hl, hnodup, ha, hm⟩ := h.registered
    have hnew : r.files ∉ l := fun hn => hother _ (ha _ hn) rfl
    refine ⟨r.files :: l, ?_, List.nodup_cons.2 ⟨hnew, hnodup⟩, ?_, ?_⟩
    · rw [hlinks]
      exact hl.push hnew
    · intro t ht
      rcases List.mem_cons.1 ht with rfl | ht
      · exact hlive.1
      · exact (hc.allocated (hother t (ha t ht))).2 (ha t ht)
    · intro t ht
      by_cases htn : t = r.files
      · exact htn ▸ List.mem_cons_self
      · exact List.mem_cons_of_mem _ (hm t ((hc.live htn).1 ht))
  · constructor
    · intro _
      exact hshaped
    · intro _ _
      exact hlive
    · rw [hfrees, hzero]
      exact Nat.zero_le 1
    · intro _
      rw [hfrees, hzero]
  · have heq : r'.heldBuffer r.files = r.heldBuffer r.files := by
      rw [r.held_unused.2, heldBuffer, if_pos hlive, Stream.ownBuffer, hplain]
      rfl
    rw [heq, Function.update_eq_self, hbuffers]
    exact h.buffers
  · have heq : r'.heldFd r.files = some r.openings := by
      rw [heldFd, if_pos hlive, hfd]
    rw [heq, hopenings, hcloses]
    exact h.descriptors.issue r.held_unused.1

/-- The registry is no longer than there are objects. -/
theorem length_registered {l : List Nat} (hnodup : l.Nodup) (ha : ∀ s ∈ l, r.Allocated s) : l.length ≤ r.files := by
  have hsub : l ⊆ List.range r.files := by
    intro t ht
    exact List.mem_range.2 (ha t ht).1
  simpa using (hnodup.subperm hsub).length_le

/-- A stream is closed: it is unlinked, unless a failed rebinding leaves a
standard object in the registry, and all it has is given back. -/
theorem Inv.retired (h : Inv r) (hl : r.Live s)
    (hc : Change r r' s (if (r.stream s).file.mode.owned then some s else none) (r.stream s).ownBuffer)
    (hlinks : (∀ l, r.links.Spells l → l.Nodup → l.length ≤ r.files → r'.links.Spells (l.erase s)) ∨
      ((r.stream s).file.mode.owned = false ∧ r'.links = r.links))
    (hfiles : r'.files = r.files) (hbuffers : r'.buffers = r.buffers) (hopenings : r'.openings = r.openings)
    (hcloses : r'.closes = bump r.closes (r.stream s).fd)
    (hgone : (r.stream s).file.mode.owned = false → (r'.stream s).file.mode = {} ∧
      (r'.stream s).file.writeBuffer = .null ∧ (r'.stream s).file.readBuffer = .null) : Inv r' ∧ ¬r'.Live s := by
  have hshape := (h.object s).shaped hl.1
  have howned := hshape.owned hl.2
  have hdead : ¬r'.Live s := by
    intro hl'
    cases ho : (r.stream s).file.mode.owned with
    | true =>
      have hone : r'.frees (.file s) = 1 := by
        rw [hc.frees, freeing_file, if_pos ho, bump, Function.update_self, hl.1.2]
      have := hl'.1.2
      omega
    | false =>
      have := hl'.2
      rw [validStream, (hgone ho).1] at this
      cases this
  have hfreed : r'.frees (.file s) = if (r.stream s).file.mode.owned then 1 else 0 := by
    rw [hc.frees, freeing_file]
    cases (r.stream s).file.mode.owned with
    | true => rw [if_pos rfl, if_pos rfl, bump, Function.update_self, hl.1.2]
    | false => exact hl.1.2
  refine ⟨hc.inv h (hfiles ▸ h.standard) ?_ ?_ ?_ ?_, hdead⟩
  · have hlive : ∀ t, r'.Live t → t ≠ s ∧ r.Live t := by
      intro t ht
      have hts : t ≠ s := by
        rintro rfl
        exact hdead ht
      exact ⟨hts, (hc.live hts).1 ht⟩
    rcases hlinks with hlinks | ⟨ho, hlinks⟩
    · obtain ⟨l, hspell, hnodup, ha, hm⟩ := h.registered
      refine ⟨l.erase s, hlinks l hspell hnodup (length_registered hnodup ha), hnodup.erase s, ?_, ?_⟩
      · intro t ht
        obtain ⟨hts, ht⟩ := (hnodup.mem_erase_iff).1 ht
        exact (hc.allocated hts).2 (ha t ht)
      · intro t ht
        exact (hnodup.mem_erase_iff).2 ⟨(hlive t ht).1, hm t (hlive t ht).2⟩
    · refine h.registered.same hlinks (fun t ha => ?_) (fun t ht => (hlive t ht).2)
      by_cases hts : t = s
      · subst hts
        refine ⟨hfiles ▸ hl.1.1, ?_⟩
        rw [hfreed, ho]
        rfl
      · exact (hc.allocated hts).2 ha
  · constructor
    · intro ha
      have ho : (r.stream s).file.mode.owned = false := by
        by_contra ho
        have := ha.2
        rw [hfreed, if_pos (by simpa using ho)] at this
        cases this
      obtain ⟨hm, hw, hr⟩ := hgone ho
      constructor
      · simp [validStream, hm]
      · simp [hm]
      · simp [hw, hr]
    · intro h3 ha
      have := ha.2
      rw [hfreed, if_pos (howned.2 h3)] at this
      cases this
    · rw [hfreed]
      split <;> omega
    · intro hk
      have hlt := hl.1.1
      rw [hfreed, if_neg]
      intro ho
      have := howned.1 ho
      omega
  · have heq : r'.heldBuffer s = none := if_neg hdead
    have hheld : (r.stream s).ownBuffer = r.heldBuffer s := (if_pos hl).symm
    rw [heq, hbuffers, hheld]
    exact h.buffers.giveBack s
  · have heq : r'.heldFd s = none := if_neg hdead
    have hheld : (r.stream s).fd = r.heldFd s := (if_pos hl).symm
    rw [heq, hopenings, hcloses, hheld]
    exact h.descriptors.giveBack s

/-- A stream moves to a new opening. -/
theorem Inv.rebound (h : Inv r) (hl : r.Live s) (hc : Change r r' s none none) (hlinks : r'.links = r.links)
    (hfiles : r'.files = r.files) (hbuffers : r'.buffers = r.buffers) (hopenings : r'.openings = r.openings + 1)
    (hcloses : r'.closes = bump r.closes (r.stream s).fd) (hfd : (r'.stream s).fd = some r.openings)
    (hvalid : validStream (r'.stream s).file = true)
    (howned : (r'.stream s).file.mode.owned = (r.stream s).file.mode.owned)
    (hbufferOwned : (r'.stream s).file.mode.bufferOwned = (r.stream s).file.mode.bufferOwned)
    (hcustom : (r'.stream s).custom = (r.stream s).custom)
    (hwrite : (r'.stream s).file.writeBuffer = (r.stream s).file.writeBuffer)
    (hread : (r'.stream s).file.readBuffer = (r.stream s).file.readBuffer) : Inv r' := by
  have hshape := (h.object s).shaped hl.1
  have hfrees : r'.frees = r.frees := hc.frees
  have hlive : r'.Live s := ⟨⟨hfiles ▸ hl.1.1, hfrees ▸ hl.1.2⟩, hvalid⟩
  apply hc.inv h
  · rw [hfiles]
    exact h.standard
  · apply h.registered.same hlinks
    · intro t ha
      unfold Allocated
      rw [hfiles, hfrees]
      exact ha
    · intro t ht
      by_cases hts : t = s
      · exact hts ▸ hl
      · exact (hc.live hts).1 ht
  · constructor
    · intro _
      constructor
      · intro _
        rw [howned]
        exact hshape.owned hl.2
      · intro hb
        obtain ⟨-, hw, hcu⟩ := hshape.bufferOwned (hbufferOwned ▸ hb)
        rw [hwrite, hcustom]
        exact ⟨hvalid, hw, hcu⟩
      · rw [hbufferOwned, hwrite, hread, hcustom]
        exact hshape.borrowed
    · intro _ _
      exact hlive
    · rw [hfrees]
      exact (h.object s).freed_le
    · rw [hfrees, hfiles]
      exact (h.object s).kept
  · have heq : r'.heldBuffer s = r.heldBuffer s := by
      rw [heldBuffer, heldBuffer, if_pos hlive, if_pos hl, Stream.ownBuffer, Stream.ownBuffer, hbufferOwned, hcustom]
    rw [heq, Function.update_eq_self, hbuffers]
    exact h.buffers
  · have heq : r'.heldFd s = some r.openings := by
      rw [heldFd, if_pos hlive, hfd]
    have hheld : (r.stream s).fd = r.heldFd s := (if_pos hl).symm
    have hidem : Function.update (Function.update r.heldFd s none) s (some r.openings) =
        Function.update r.heldFd s (some r.openings) := Function.update_idem ..
    rw [heq, hopenings, hcloses, hheld, ← hidem]
    exact (h.descriptors.giveBack s).issue (Function.update_self ..)

/-- A buffer is allocated and freed again. -/
theorem Inv.burnBuffer (h : Inv r) (hc : Change r r' s none (some r.buffers)) (hlinks : r'.links = r.links)
    (hstream : r'.stream = r.stream) (hfiles : r'.files = r.files) (hbuffers : r'.buffers = r.buffers + 1)
    (hopenings : r'.openings = r.openings) (hcloses : r'.closes = r.closes) : Inv r' := by
  have hfrees : ∀ t, r'.frees (.file t) = r.frees (.file t) := fun t => by rw [hc.frees, freeing_file]; rfl
  have halloc : ∀ t, r'.Allocated t ↔ r.Allocated t := by
    intro t
    unfold Allocated
    rw [hfrees, hfiles]
  have hlive : ∀ t, r'.Live t ↔ r.Live t := by
    intro t
    unfold Live
    rw [halloc, hstream]
  apply hc.inv h
  · rw [hfiles]
    exact h.standard
  · exact h.registered.same hlinks (fun t => (halloc t).2) (fun t => (hlive t).1)
  · have ho := h.object s
    constructor
    · intro ha
      rw [hstream]
      exact ho.shaped ((halloc s).1 ha)
    · intro h3 ha
      exact (hlive s).2 (ho.live h3 ((halloc s).1 ha))
    · rw [hfrees]
      exact ho.freed_le
    · rw [hfrees, hfiles]
      exact ho.kept
  · have heq : r'.heldBuffer s = r.heldBuffer s := by
      simp only [heldBuffer, hlive, hstream]
    rw [heq, Function.update_eq_self, hbuffers]
    exact h.buffers.burn
  · have heq : r'.heldFd s = r.heldFd s := by
      simp only [heldFd, hlive, hstream]
    rw [heq, Function.update_eq_self, hopenings, hcloses]
    exact h.descriptors

/-- A stream gets another buffer, its own or not, in place of what it has. -/
theorem Inv.rebuffered (h : Inv r) (hl : r.Live s) (hc : Change r r' s none (r.stream s).ownBuffer)
    (hlinks : r'.links = r.links) (hfiles : r'.files = r.files) (hopenings : r'.openings = r.openings)
    (hcloses : r'.closes = r.closes) (hfd : (r'.stream s).fd = (r.stream s).fd)
    (hvalid : validStream (r'.stream s).file = true)
    (howned : (r'.stream s).file.mode.owned = (r.stream s).file.mode.owned)
    (hbuffers : (r'.buffers = r.buffers + 1 ∧ (r'.stream s).file.mode.bufferOwned = true ∧
        (r'.stream s).file.writeBuffer = .custom ∧ (r'.stream s).custom = some (.buffer r.buffers)) ∨
      (r'.buffers = r.buffers ∧ (r'.stream s).file.mode.bufferOwned = false ∧
        ((r'.stream s).file.writeBuffer = .custom ∨ (r'.stream s).file.readBuffer = .custom →
          ∃ c, (r'.stream s).custom = some (.caller c)))) : Inv r' := by
  have hshape := (h.object s).shaped hl.1
  have hfrees : ∀ t, r'.frees (.file t) = r.frees (.file t) := fun t => by rw [hc.frees, freeing_file]; rfl
  have halloc : ∀ t, r'.Allocated t ↔ r.Allocated t := by
    intro t
    unfold Allocated
    rw [hfrees, hfiles]
  have hlive : r'.Live s := ⟨(halloc s).2 hl.1, hvalid⟩
  have hheld : (r.stream s).ownBuffer = r.heldBuffer s := (if_pos hl).symm
  apply hc.inv h
  · rw [hfiles]
    exact h.standard
  · refine h.registered.same hlinks (fun t => (halloc t).2) (fun t ht => ?_)
    by_cases hts : t = s
    · exact hts ▸ hl
    · exact (hc.live hts).1 ht
  · constructor
    · intro _
      constructor
      · intro _
        rw [howned]
        exact hshape.owned hl.2
      · intro hb
        rcases hbuffers with ⟨-, -, hw, hcustom⟩ | ⟨-, hno, -⟩
        · exact ⟨hvalid, hw, r.buffers, hcustom⟩
        · rw [hno] at hb
          cases hb
      · intro hb hp
        rcases hbuffers with ⟨-, hyes, -⟩ | ⟨-, -, hcaller⟩
        · rw [hyes] at hb
          cases hb
        · exact hcaller hp
    · intro _ _
      exact hlive
    · rw [hfrees]
      exact (h.object s).freed_le
    · rw [hfrees, hfiles]
      exact (h.object s).kept
  · rw [hheld]
    rcases hbuffers with ⟨hn, hb, -, hcustom⟩ | ⟨hn, hb, -⟩
    · have heq : r'.heldBuffer s = some r.buffers := by
        rw [heldBuffer, if_pos hlive, Stream.ownBuffer, if_pos hb, hcustom]
      have hidem : Function.update (Function.update r.heldBuffer s none) s (some r.buffers) =
          Function.update r.heldBuffer s (some r.buffers) := Function.update_idem ..
      rw [heq, hn, ← hidem]
      exact (h.buffers.giveBack s).issue (Function.update_self ..)
    · have heq : r'.heldBuffer s = none := by
        rw [heldBuffer, if_pos hlive, Stream.ownBuffer, hb]
        rfl
      rw [heq, hn]
      exact h.buffers.giveBack s
  · have heq : r'.heldFd s = r.heldFd s := by
      rw [heldFd, heldFd, if_pos hlive, if_pos hl, hfd]
    rw [heq, Function.update_eq_self, hopenings, hcloses]
    exact h.descriptors

end Streams

end MiniLibc.Stdio
