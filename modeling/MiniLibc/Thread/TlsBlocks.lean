import Mathlib
import MiniLibc.Lib.Memory
import MiniLibc.Lib.Runs
import MiniLibc.Thread.TlsTemplate
/-!
# Thread-local storage

`__mini_thread_tls_prepare` lays the template out below the control block of a thread, in
the room that every control block has in front of it. Threads come, write their own
variables and go; each of them has its own copy.
-/

namespace MiniLibc.Thread

open Memory Runs

/-! ## The source -/

/-- `block[index] = 0U` from `index` on, `left` times. -/
def clearLoop (block : Nat) : (left index : Nat) → Mem → Mem
  | 0, _, m => m
  | left + 1, index, m => clearLoop block left (index + 1) (poke m (block + index) 0)

/-- `block[index] = image[index]` -/
def copyLoop (block image : Nat) : (left index : Nat) → Mem → Mem
  | 0, _, m => m
  | left + 1, index, m => copyLoop block image left (index + 1) (poke m (block + index) (m (image + index)))

/-- Whether it is done, and the memory. -/
def tlsPrepare (template : TlsTemplate) (tcb : Nat) (m : Mem) : Bool × Mem :=
  if tcb = 0 then (false, m)
  else if template.blockSize = 0 then (true, m)
  else if tcb &&& (template.alignment - 1) ≠ 0 ∨ tcb < template.blockSize then (false, m)
  else
    let block := tcb - template.blockSize
    (true, copyLoop block template.image template.fileSize 0 (clearLoop block template.blockSize 0 m))

/-! ## A block -/

theorem clearLoop_spec (block left index : Nat) (m : Mem) (a : Nat) :
    clearLoop block left index m a = if block + index ≤ a ∧ a < block + index + left then 0 else m a := by
  induction left generalizing index m with
  | zero =>
    rw [clearLoop, if_neg (by omega)]
  | succ left ih =>
    rw [clearLoop, ih]
    by_cases hfirst : a = block + index
    · rw [hfirst, poke_same, if_neg (by omega), if_pos (by omega)]
    · rw [poke_other _ hfirst]
      by_cases hrest : block + (index + 1) ≤ a ∧ a < block + (index + 1) + left
      · rw [if_pos hrest, if_pos (by omega)]
      · rw [if_neg hrest, if_neg (by omega)]

/-- An image apart from the block is read as it was. -/
theorem copyLoop_spec {block image size : Nat} (hapart : image + size ≤ block ∨ block + size ≤ image) :
    ∀ (left index : Nat) (m : Mem) (a : Nat), index + left = size →
      copyLoop block image left index m a =
        if block + index ≤ a ∧ a < block + size then m (image + (a - block)) else m a := by
  intro left
  induction left with
  | zero =>
    intro index m a hsize
    rw [copyLoop, if_neg (by omega)]
  | succ left ih =>
    intro index m a hsize
    rw [copyLoop, ih (index + 1) _ a (by omega)]
    by_cases hfirst : a = block + index
    · rw [if_neg (by omega), if_pos (by omega), hfirst, poke_same]
      congr 1
      omega
    · by_cases hrest : block + (index + 1) ≤ a ∧ a < block + size
      · rw [if_pos hrest, if_pos (by omega), poke_other _ (by omega)]
      · rw [if_neg hrest, if_neg (by omega), poke_other _ hfirst]

/-- What a thread starts with at an offset of its block. -/
def initialByte (template : TlsTemplate) (m : Mem) (offset : Nat) : UInt8 :=
  if offset < template.fileSize then m (template.image + offset) else 0

/-- The layout of a block: inside the room before the control block, and apart from the
image. -/
structure Placed (template : TlsTemplate) (tcb : Nat) : Prop where
  room : tlsCapacity ≤ tcb
  aligned : tlsAlignment ∣ tcb
  apart : template.image + template.fileSize ≤ tcb - tlsCapacity ∨ tcb ≤ template.image

theorem Placed.apart_block {template : TlsTemplate} (hv : template.Valid) {tcb : Nat} (h : Placed template tcb) :
    template.image + template.fileSize ≤ tcb - template.blockSize ∨
      tcb - template.blockSize + template.fileSize ≤ template.image := by
  have hroom : 4096 ≤ tcb := h.room
  have hcapacity : template.blockSize ≤ 4096 := hv.capacity
  have hfile := hv.file
  have hmemory := hv.memory
  have hapart : template.image + template.fileSize ≤ tcb - 4096 ∨ tcb ≤ template.image := h.apart
  omega

/-- A placed thread gets its block, and nothing else changes. -/
theorem tlsPrepare_spec {template : TlsTemplate} (hv : template.Valid) {tcb : Nat} (h : Placed template tcb) (m : Mem) :
    ∃ m', tlsPrepare template tcb m = (true, m') ∧ ∀ a, m' a =
      if tcb - template.blockSize ≤ a ∧ a < tcb then initialByte template m (a - (tcb - template.blockSize)) else m a := by
  obtain ⟨k, hk, hpow⟩ := hv.alignment
  have hroom : 4096 ≤ tcb := h.room
  have hcapacity : template.blockSize ≤ 4096 := hv.capacity
  have hfile := hv.file
  have hmemory := hv.memory
  have hpositive : tcb ≠ 0 := by omega
  unfold tlsPrepare
  rw [if_neg hpositive]
  by_cases hempty : template.blockSize = 0
  · rw [if_pos hempty]
    exact ⟨m, rfl, fun a => by rw [if_neg (by omega)]⟩
  have haligned : tcb &&& (template.alignment - 1) = 0 := by
    rw [hpow, Nat.and_two_pow_sub_one_eq_mod]
    exact Nat.mod_eq_zero_of_dvd ((pow_dvd_pow 2 hk).trans h.aligned)
  rw [if_neg hempty, haligned, if_neg (by omega)]
  refine ⟨_, rfl, fun a => ?_⟩
  have hapart := h.apart_block hv
  have hreserve : template.image + template.fileSize ≤ tcb - 4096 ∨ tcb ≤ template.image := h.apart
  generalize hblock : tcb - template.blockSize = block at hapart
  rw [copyLoop_spec hapart template.fileSize 0 _ a (Nat.zero_add _), clearLoop_spec, clearLoop_spec]
  unfold initialByte
  by_cases hin : block ≤ a ∧ a < tcb
  · rw [if_pos hin]
    by_cases hcopied : a - block < template.fileSize
    · rw [if_pos (by omega), if_neg (by omega), if_pos hcopied]
    · rw [if_neg (by omega), if_pos (by omega), if_neg hcopied]
  · rw [if_neg hin, if_neg (by omega), if_neg (by omega)]

/-! ## Threads -/

/-- The memory, and the control blocks of the threads that run. -/
structure TlsWorld where
  memory : Mem
  live : List Nat

/-- A thread starts, writes to a variable of its own or ends, or something is written that
is nobody's thread-local storage. -/
inductive TlsEvent where
  | start (tcb : Nat)
  | write (tcb offset : Nat) (value : UInt8)
  | exit (tcb : Nat)
  | other (a : Nat) (value : UInt8)

namespace TlsWorld

variable (template : TlsTemplate)

/-- A thread whose storage cannot be prepared ends before it runs. Its variables are at
negative offsets from its control block. -/
def after (w : TlsWorld) : TlsEvent → TlsWorld
  | .start tcb =>
    let (ready, m) := tlsPrepare template tcb w.memory
    ⟨m, if ready then tcb :: w.live else w.live⟩
  | .write tcb offset value => { w with memory := poke w.memory (tcb - template.blockSize + offset) value }
  | .exit tcb => { w with live := w.live.erase tcb }
  | .other a value => { w with memory := poke w.memory a value }

/-- Control blocks come with their reserve, and a program writes to its own variables. -/
def Admits (w : TlsWorld) : TlsEvent → Prop
  | .start tcb => Placed template tcb ∧ ∀ t ∈ w.live, tcb + tlsCapacity ≤ t ∨ t + tlsCapacity ≤ tcb
  | .write tcb offset _ => tcb ∈ w.live ∧ offset < template.blockSize
  | .exit tcb => tcb ∈ w.live
  | .other a _ => (∀ t ∈ w.live, a < t - tlsCapacity ∨ t ≤ a) ∧
      (a < template.image ∨ template.image + template.fileSize ≤ a)

def AdmitsAll (w : TlsWorld) : List TlsEvent → Prop
  | [] => True
  | e :: es => w.Admits template e ∧ (w.after template e).AdmitsAll es

end TlsWorld

/-- The abstract account: every thread has variables of its own. -/
structure Locals where
  live : List Nat
  value : Nat → Nat → UInt8

def Locals.after (initial : Nat → UInt8) (l : Locals) : TlsEvent → Locals
  | .start tcb => ⟨tcb :: l.live, Function.update l.value tcb initial⟩
  | .write tcb offset v => { l with value := Function.update l.value tcb (Function.update (l.value tcb) offset v) }
  | .exit tcb => { l with live := l.live.erase tcb }
  | .other _ _ => l

/-- The memory holds the variables of the threads, and the image that they start with. -/
structure TlsHolds (template : TlsTemplate) (initial : Nat → UInt8) (w : TlsWorld) (l : Locals) : Prop where
  live : w.live = l.live
  nodup : w.live.Nodup
  placed : ∀ t ∈ w.live, Placed template t
  apart : ∀ t ∈ w.live, ∀ u ∈ w.live, t ≠ u → t + tlsCapacity ≤ u ∨ u + tlsCapacity ≤ t
  value : ∀ t ∈ w.live, ∀ offset < template.blockSize,
    w.memory (t - template.blockSize + offset) = l.value t offset
  image : ∀ offset, initialByte template w.memory offset = initial offset

namespace TlsHolds

variable {template : TlsTemplate} {initial : Nat → UInt8} {w : TlsWorld} {l : Locals}

/-- A byte that is neither in a block nor in the image. -/
theorem poke_other (h : TlsHolds template initial w l) (hv : template.Valid) {a : Nat}
    (hlive : ∀ t ∈ w.live, a < t - template.blockSize ∨ t ≤ a)
    (himage : a < template.image ∨ template.image + template.fileSize ≤ a) (value : UInt8) :
    TlsHolds template initial { w with memory := poke w.memory a value } l := by
  refine ⟨h.live, h.nodup, h.placed, h.apart, fun t ht offset hoffset => ?_, fun offset => ?_⟩
  · have hroom : 4096 ≤ t := (h.placed t ht).room
    have hcapacity : template.blockSize ≤ 4096 := hv.capacity
    have hout := hlive t ht
    rw [← h.value t ht offset hoffset]
    exact Memory.poke_other value (by omega)
  · rw [← h.image offset]
    unfold initialByte
    split
    · exact Memory.poke_other value (by omega)
    · rfl

theorem start (h : TlsHolds template initial w l) (hv : template.Valid) {tcb : Nat} (hplaced : Placed template tcb)
    (hapart : ∀ t ∈ w.live, tcb + tlsCapacity ≤ t ∨ t + tlsCapacity ≤ tcb) :
    TlsHolds template initial (w.after template (.start tcb)) (l.after initial (.start tcb)) := by
  obtain ⟨m, hprepare, hm⟩ := tlsPrepare_spec hv hplaced w.memory
  have hafter : w.after template (.start tcb) = ⟨m, tcb :: w.live⟩ := by
    simp [TlsWorld.after, hprepare]
  have hcapacity : template.blockSize ≤ 4096 := hv.capacity
  have hfile := hv.file
  have hmemory := hv.memory
  have hroom : 4096 ≤ tcb := hplaced.room
  have hpositive : 0 < tlsCapacity := by decide
  rw [hafter]
  refine ⟨?_, ?_, ?_, ?_, ?_, ?_⟩
  · simp [Locals.after, h.live]
  · refine List.nodup_cons.2 ⟨fun hmem => ?_, h.nodup⟩
    have := hapart tcb hmem
    omega
  · intro t ht
    rcases List.mem_cons.1 ht with rfl | ht
    · exact hplaced
    · exact h.placed t ht
  · intro t ht u hu hne
    rcases List.mem_cons.1 ht with rfl | htl <;> rcases List.mem_cons.1 hu with rfl | hul
    · exact absurd rfl hne
    · exact hapart u hul
    · exact (hapart t htl).symm
    · exact h.apart t htl u hul hne
  · intro t ht offset hoffset
    dsimp only [Locals.after]
    rw [hm]
    rcases List.mem_cons.1 ht with rfl | ht
    · rw [if_pos (by omega), Function.update_self, Nat.add_sub_cancel_left, h.image]
    · have hsides : tcb + 4096 ≤ t ∨ t + 4096 ≤ tcb := hapart t ht
      have hroom' : 4096 ≤ t := (h.placed t ht).room
      rw [if_neg (by omega), Function.update_of_ne (by omega), h.value t ht offset hoffset]
  · intro offset
    rw [← h.image offset]
    have himage : template.image + template.fileSize ≤ tcb - 4096 ∨ tcb ≤ template.image := hplaced.apart
    unfold initialByte
    split
    · dsimp only
      rw [hm, if_neg (by omega)]
    · rfl

theorem write (h : TlsHolds template initial w l) (hv : template.Valid) {tcb offset : Nat} (hlive : tcb ∈ w.live)
    (hoffset : offset < template.blockSize) (value : UInt8) :
    TlsHolds template initial (w.after template (.write tcb offset value))
      (l.after initial (.write tcb offset value)) := by
  have hcapacity : template.blockSize ≤ 4096 := hv.capacity
  have hroom : 4096 ≤ tcb := (h.placed tcb hlive).room
  have himage : template.image + template.fileSize ≤ tcb - 4096 ∨ tcb ≤ template.image := (h.placed tcb hlive).apart
  refine ⟨h.live, h.nodup, h.placed, h.apart, fun t ht i hi => ?_, fun i => ?_⟩
  · dsimp only [TlsWorld.after, Locals.after]
    by_cases hthread : t = tcb
    · subst hthread
      rw [Function.update_self]
      by_cases hsame : i = offset
      · rw [hsame, poke_same, Function.update_self]
      · rw [Memory.poke_other _ (by omega), Function.update_of_ne hsame, h.value t ht i hi]
    · have hsides : t + 4096 ≤ tcb ∨ tcb + 4096 ≤ t := h.apart t ht tcb hlive hthread
      have hroom' : 4096 ≤ t := (h.placed t ht).room
      rw [Memory.poke_other _ (by omega), Function.update_of_ne hthread, h.value t ht i hi]
  · rw [← h.image i]
    dsimp only [TlsWorld.after]
    unfold initialByte
    split
    · exact Memory.poke_other _ (by omega)
    · rfl

theorem after (h : TlsHolds template initial w l) (hv : template.Valid) {e : TlsEvent} (he : w.Admits template e) :
    TlsHolds template initial (w.after template e) (l.after initial e) := by
  cases e with
  | start tcb => exact h.start hv he.1 he.2
  | write tcb offset value => exact h.write hv he.1 he.2 value
  | exit tcb =>
    have hsub {t : Nat} (ht : t ∈ w.live.erase tcb) : t ∈ w.live := List.mem_of_mem_erase ht
    refine ⟨?_, h.nodup.erase tcb, fun t ht => h.placed t (hsub ht),
      fun t ht u hu => h.apart t (hsub ht) u (hsub hu), fun t ht => h.value t (hsub ht), h.image⟩
    dsimp only [TlsWorld.after, Locals.after]
    rw [h.live]
  | other a value =>
    have hcapacity : template.blockSize ≤ 4096 := hv.capacity
    refine h.poke_other hv (fun t ht => ?_) he.2 value
    have hout : a < t - 4096 ∨ t ≤ a := he.1 t ht
    omega

theorem run (h : TlsHolds template initial w l) (hv : template.Valid) {es : List TlsEvent}
    (hes : w.AdmitsAll template es) :
    TlsHolds template initial (es.foldl (TlsWorld.after template) w) (es.foldl (Locals.after initial) l) := by
  induction es generalizing w l with
  | nil => exact h
  | cons e es ih => exact ih (h.after hv hes.1) hes.2

end TlsHolds

/-- Threads that start, write and end in any order, among other writes to the memory: every
thread that is started runs, a variable of a thread that runs holds what that thread wrote
to it last and otherwise its initial value, and every block is aligned and in the reserve
of its thread. -/
theorem tls_private {template : TlsTemplate} (hv : template.Valid) (m : Mem) {es : List TlsEvent}
    (hes : TlsWorld.AdmitsAll template ⟨m, []⟩ es) :
    let w := es.foldl (TlsWorld.after template) ⟨m, []⟩
    let l := es.foldl (Locals.after (initialByte template m)) ⟨[], fun _ _ => 0⟩
    w.live = l.live ∧ ∀ t ∈ w.live,
      (∀ offset < template.blockSize, w.memory (t - template.blockSize + offset) = l.value t offset) ∧
      template.alignment ∣ t - template.blockSize ∧ t - tlsCapacity ≤ t - template.blockSize := by
  have hstart : TlsHolds template (initialByte template m) ⟨m, []⟩ ⟨[], fun _ _ => 0⟩ :=
    ⟨rfl, List.nodup_nil, by simp, by simp, by simp, fun _ => rfl⟩
  have h := hstart.run hv hes
  refine ⟨h.live, fun t ht => ⟨h.value t ht, ?_, ?_⟩⟩
  · obtain ⟨k, hk, hpow⟩ := hv.alignment
    refine Nat.dvd_sub ?_ hv.aligned
    rw [hpow]
    exact (pow_dvd_pow 2 hk).trans (h.placed t ht).aligned
  · have := hv.capacity
    omega

/-- Two threads with the same variable. -/
theorem tls_private_two :
    let es : List TlsEvent := [.start 8192, .write 8192 4 7, .start 16384, .exit 8192]
    let w := es.foldl (TlsWorld.after ⟨64, 4, 20, 24, 8⟩) ⟨fun _ => 1, []⟩
    let l := es.foldl (Locals.after (initialByte ⟨64, 4, 20, 24, 8⟩ fun _ => 1)) ⟨[], fun _ _ => 0⟩
    w.live = l.live ∧ ∀ t ∈ w.live,
      (∀ offset < 24, w.memory (t - 24 + offset) = l.value t offset) ∧ 8 ∣ t - 24 ∧ t - tlsCapacity ≤ t - 24 := by
  have hv : TlsTemplate.Valid ⟨64, 4, 20, 24, 8⟩ :=
    ⟨⟨3, by decide, rfl⟩, by decide, by decide, by decide, by decide, by decide, by decide, by decide⟩
  have hplaced {tcb : Nat} (h : tcb = 8192 ∨ tcb = 16384) : Placed ⟨64, 4, 20, 24, 8⟩ tcb := by
    rcases h with rfl | rfl
    · exact ⟨by decide, by decide, .inl (by decide)⟩
    · exact ⟨by decide, by decide, .inl (by decide)⟩
  have hready (tcb : Nat) (h : tcb = 8192 ∨ tcb = 16384) (m : Mem) : (tlsPrepare ⟨64, 4, 20, 24, 8⟩ tcb m).1 = true := by
    obtain ⟨m', hprepare, -⟩ := tlsPrepare_spec hv (hplaced h) m
    rw [hprepare]
  refine tls_private hv (fun _ => 1) ⟨⟨hplaced (.inl rfl), by simp⟩, ?_, ?_, ?_, trivial⟩
  · simp [TlsWorld.Admits, TlsWorld.after, hready]
  · refine ⟨hplaced (.inr rfl), ?_⟩
    simp [TlsWorld.after, hready, tlsCapacity]
  · simp [TlsWorld.Admits, TlsWorld.after, hready]

end MiniLibc.Thread
