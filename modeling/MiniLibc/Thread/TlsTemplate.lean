import Mathlib
/-!
# The template of thread-local storage

`__mini_thread_tls_discover` walks the stack that the kernel hands to a process: the
arguments, the environment and the auxiliary vector, which says where the program headers
are. It takes the one template that it can lay out, and refuses every other program.
-/

namespace MiniLibc.Thread

/-! ## The source -/

/-- `~0UL` -/
def ulongMax : Nat := 18446744073709551615

def atNull : UInt64 := 0

def atPhdr : UInt64 := 3

def atPhent : UInt64 := 4

def atPhnum : UInt64 := 5

def ptTls : UInt32 := 7

def auxvLimit : Nat := 64

def phdrLimit : Nat := 128

/-- `MINI_COMPILER_TLS_CAPACITY` -/
def tlsCapacity : Nat := 4096

/-- `MINI_COMPILER_TLS_ALIGNMENT` -/
def tlsAlignment : Nat := 16

/-- `sizeof(struct mini_elf64_phdr)` -/
def phdrSize : Nat := 56

/-- The fields of a program header that are read. -/
structure Elf64Phdr where
  type : UInt32
  vaddr : UInt64
  filesz : UInt64
  memsz : UInt64
  align : UInt64

structure TlsTemplate where
  image : Nat
  fileSize : Nat
  memorySize : Nat
  blockSize : Nat
  alignment : Nat
deriving DecidableEq

/-- The candidate before a header is found. -/
def noTls : TlsTemplate := ⟨0, 0, 0, 0, 1⟩

def powerOfTwo (value : Nat) : Bool := value ≠ 0 ∧ value &&& (value - 1) = 0

def alignUp (value alignment : Nat) : Option Nat :=
  let mask := alignment - 1
  if value > ulongMax - mask then none
  else some ((value + mask) &&& (ulongMax - mask))

structure AuxValues where
  phdrAddress : UInt64
  phent : UInt64
  phnum : UInt64

def AuxValues.note (values : AuxValues) (type value : UInt64) : AuxValues :=
  if type = atPhdr then { values with phdrAddress := value }
  else if type = atPhent then { values with phent := value }
  else if type = atPhnum then { values with phnum := value }
  else values

/-- `none` if it reads behind the stack, `some none` if the vector does not end in time. -/
def auxvLoop : (left : Nat) → (cursor : List UInt64) → AuxValues → Option (Option AuxValues)
  | 0, _, _ => some none
  | left + 1, type :: value :: cursor, values =>
    if type = atNull then some (some values) else auxvLoop left cursor (values.note type value)
  | _ + 1, _, _ => none

/-- Behind the null pointer that ends an array. -/
def behindNull : List UInt64 → Option (List UInt64)
  | [] => none
  | word :: cursor => if word = 0 then some cursor else behindNull cursor

/-- What the loop makes of a header of the type. -/
def tlsCandidate (phdr : Elf64Phdr) : Option TlsTemplate :=
  if phdr.filesz > phdr.memsz then none
  else
    let alignment := if phdr.align = 0 then 1 else phdr.align.toNat
    if !powerOfTwo alignment ∨ alignment > tlsAlignment then none
    else
      match alignUp phdr.memsz.toNat alignment with
      | none => none
      | some blockSize =>
        if blockSize > tlsCapacity ∨ (phdr.filesz ≠ 0 ∧ phdr.vaddr = 0) ∨
            phdr.vaddr.toNat > ulongMax - phdr.filesz.toNat then none
        else some ⟨phdr.vaddr.toNat, phdr.filesz.toNat, phdr.memsz.toNat, blockSize, alignment⟩

/-- The loop over `count` headers; `none` if one cannot be read. -/
def phdrLoop (phdrAt : Nat → Option Elf64Phdr) :
    (count : Nat) → (phdrValue : Nat) → (candidate : TlsTemplate) → (foundTls : Bool) → Option (Option TlsTemplate)
  | 0, _, candidate, _ => some (some candidate)
  | count + 1, phdrValue, candidate, foundTls =>
    match phdrAt phdrValue with
    | none => none
    | some phdr =>
      if phdr.type ≠ ptTls then phdrLoop phdrAt count (phdrValue + phdrSize) candidate foundTls
      else if foundTls then some none
      else
        match tlsCandidate phdr with
        | none => some none
        | some candidate => phdrLoop phdrAt count (phdrValue + phdrSize) candidate true

/-- Whether there is a template, and `mini_tls_template` afterwards. -/
def tlsDiscover (initialStack : Option (List UInt64)) (phdrAt : Nat → Option Elf64Phdr) (template : TlsTemplate) :
    Option (Bool × TlsTemplate) :=
  match initialStack with
  | none => some (false, template)
  | some [] => none
  | some (rawArgc :: stack) => do
    if rawArgc.toNat ≥ 2 ^ 63 then return (false, template)
    if rawArgc.toNat > 65536 then return (false, template)
    let cursor := stack.drop rawArgc.toNat
    let (word, cursor) ← cursor.head?.map fun word => (word, cursor.tail)
    if word ≠ 0 then return (false, template)
    let cursor ← behindNull cursor
    match ← auxvLoop auxvLimit cursor ⟨0, 0, 0⟩ with
    | none => return (false, template)
    | some values =>
      if values.phdrAddress = 0 ∨ values.phent.toNat ≠ phdrSize ∨ values.phnum.toNat > phdrLimit ∨
          (values.phnum ≠ 0 ∧
            values.phdrAddress.toNat > ulongMax - values.phnum.toNat * values.phent.toNat) then
        return (false, template)
      match ← phdrLoop phdrAt values.phnum.toNat values.phdrAddress.toNat noTls false with
      | none => return (false, template)
      | some candidate => return (true, candidate)

/-! ## A header -/

theorem and_complement {x k : Nat} (hx : x < 2 ^ 64) (hk : k ≤ 64) :
    x &&& (ulongMax - (2 ^ k - 1)) = x / 2 ^ k * 2 ^ k := by
  have hmax : ulongMax = 2 ^ 64 - 1 := rfl
  have hpow := Nat.pow_le_pow_right (show 0 < 2 by decide) hk
  have hpos := Nat.two_pow_pos k
  have hmask : ulongMax - (2 ^ k - 1) = 2 ^ 64 - (2 ^ k - 1 + 1) := by omega
  have hlow : 2 ^ k - 1 < 2 ^ 64 := by omega
  apply Nat.eq_of_testBit_eq
  intro i
  rw [hmask, Nat.testBit_and, Nat.testBit_two_pow_sub_succ hlow, Nat.testBit_two_pow_sub_one, Nat.testBit_mul_two_pow,
    Nat.testBit_div_two_pow]
  by_cases hi : i < 64
  · by_cases hki : k ≤ i
    · simp [hi, hki, Nat.sub_add_cancel hki]
    · simp [hki, Nat.lt_of_not_le hki]
  · have hhigh : x.testBit i = false := Nat.testBit_lt_two_pow (hx.trans_le (Nat.pow_le_pow_right (by decide) (by omega)))
    simp only [hi, hhigh, decide_false, Bool.false_and, Bool.and_false]
    rw [Nat.sub_add_cancel (by omega), hhigh, Bool.and_false]

theorem powerOfTwo_iff {value : Nat} (h : value ≤ tlsAlignment) : powerOfTwo value = true ↔ ∃ k ≤ 4, value = 2 ^ k := by
  have hle : value ≤ 16 := h
  constructor
  · intro hp
    interval_cases value <;> try cases hp
    · exact ⟨0, by decide, rfl⟩
    · exact ⟨1, by decide, rfl⟩
    · exact ⟨2, by decide, rfl⟩
    · exact ⟨3, by decide, rfl⟩
    · exact ⟨4, by decide, rfl⟩
  · rintro ⟨k, hk, rfl⟩
    interval_cases k <;> rfl

/-- The least multiple of the alignment that holds the value. -/
theorem alignUp_spec {value k : Nat} (hk : k ≤ 4) :
    alignUp value (2 ^ k) = if value + (2 ^ k - 1) ≤ ulongMax then some ((value + (2 ^ k - 1)) / 2 ^ k * 2 ^ k)
      else none := by
  have hmax : ulongMax = 2 ^ 64 - 1 := rfl
  have hpow := Nat.pow_le_pow_right (show 0 < 2 by decide) hk
  unfold alignUp
  dsimp only
  by_cases hle : value + (2 ^ k - 1) ≤ ulongMax
  · rw [if_neg (by omega), if_pos hle, and_complement (by omega) (by omega)]
  · rw [if_pos (by omega), if_neg hle]

/-- What a template promises to the threads. -/
structure TlsTemplate.Valid (t : TlsTemplate) : Prop where
  alignment : ∃ k ≤ 4, t.alignment = 2 ^ k
  file : t.fileSize ≤ t.memorySize
  memory : t.memorySize ≤ t.blockSize
  tight : t.blockSize < t.memorySize + t.alignment
  aligned : t.alignment ∣ t.blockSize
  capacity : t.blockSize ≤ tlsCapacity
  image : t.fileSize ≠ 0 → t.image ≠ 0
  range : t.image + t.fileSize < 2 ^ 64

/-- The alignment a header asks for. -/
def Elf64Phdr.alignment (phdr : Elf64Phdr) : Nat := if phdr.align = 0 then 1 else phdr.align.toNat

/-- A template is the header's, with the block that it needs. -/
def TlsTemplate.IsOf (t : TlsTemplate) (phdr : Elf64Phdr) : Prop :=
  t.image = phdr.vaddr.toNat ∧ t.fileSize = phdr.filesz.toNat ∧ t.memorySize = phdr.memsz.toNat ∧
    t.alignment = phdr.alignment

/-- The multiple of a power of two that is next to a value. -/
theorem next_multiple {value block k : Nat} (hle : value ≤ block) (hlt : block < value + 2 ^ k) (hdvd : 2 ^ k ∣ block) :
    (value + (2 ^ k - 1)) / 2 ^ k * 2 ^ k = block := by
  obtain ⟨q, rfl⟩ := hdvd
  have hpos := Nat.two_pow_pos k
  have hq : (value + (2 ^ k - 1)) / 2 ^ k = q := by
    rw [Nat.div_eq_iff hpos, Nat.mul_comm q]
    omega
  rw [hq, Nat.mul_comm]

/-- A header has a template exactly if there is one that is valid, and then that one. -/
theorem tlsCandidate_iff (phdr : Elf64Phdr) (t : TlsTemplate) :
    tlsCandidate phdr = some t ↔ t.IsOf phdr ∧ t.Valid := by
  have hmax : ulongMax = 2 ^ 64 - 1 := rfl
  have hsize : phdr.filesz > phdr.memsz ↔ phdr.memsz.toNat < phdr.filesz.toNat := UInt64.lt_iff_toNat_lt
  have hzero (x : UInt64) : x = 0 ↔ x.toNat = 0 := UInt64.toNat_inj.symm
  have hunfolded : (if phdr.align = 0 then 1 else phdr.align.toNat) = phdr.alignment := rfl
  unfold tlsCandidate
  rw [hunfolded]
  constructor
  · intro h
    split at h
    · cases h
    rename_i hfile
    rw [hsize] at hfile
    dsimp only at h
    split at h
    · cases h
    rename_i halign
    obtain ⟨hpower, hle⟩ := not_or.1 halign
    obtain ⟨k, hk, hpow⟩ := (powerOfTwo_iff (Nat.le_of_not_lt hle)).1 (by simpa using hpower)
    rw [hpow, alignUp_spec hk] at h
    split at h
    · cases h
    rename_i blockSize hblock
    split at hblock
    · cases hblock
      split at h
      · cases h
      rename_i hrest
      cases h
      obtain ⟨hcapacity, himage, hrange⟩ : ¬_ ∧ ¬_ ∧ ¬_ := by
        simpa only [not_or] using hrest
      have hpos := Nat.two_pow_pos k
      have hmod := Nat.div_add_mod' (phdr.memsz.toNat + (2 ^ k - 1)) (2 ^ k)
      have hmodlt := Nat.mod_lt (phdr.memsz.toNat + (2 ^ k - 1)) hpos
      have := phdr.vaddr.toNat_lt
      refine ⟨⟨rfl, rfl, rfl, hpow.symm⟩, ?_⟩
      refine ⟨⟨k, hk, rfl⟩, Nat.le_of_not_lt hfile, ?_, ?_, Dvd.intro_left _ rfl, Nat.le_of_not_lt hcapacity, ?_, ?_⟩
      · dsimp only
        omega
      · dsimp only
        omega
      · rw [not_and, ne_eq, hzero, hzero] at himage
        exact himage
      · dsimp only
        omega
    · cases hblock
  · rintro ⟨⟨himage, hfile, hmemory, halignment⟩, hv⟩
    obtain ⟨k, hk, hpow⟩ := hv.alignment
    have hle : phdr.alignment ≤ tlsAlignment := by
      rw [← halignment, hpow]
      exact Nat.pow_le_pow_right (by decide) hk
    have hpower : powerOfTwo phdr.alignment = true := (powerOfTwo_iff hle).2 ⟨k, hk, by rw [← halignment, hpow]⟩
    have hblock : alignUp phdr.memsz.toNat phdr.alignment = some t.blockSize := by
      have hmemory' := hv.memory
      have htight := hv.tight
      have haligned := hv.aligned
      have hcapacity : t.blockSize ≤ 4096 := hv.capacity
      rw [hpow] at htight haligned
      rw [hmemory] at hmemory' htight
      have hk16 : 2 ^ k ≤ 2 ^ 4 := Nat.pow_le_pow_right (by decide) hk
      rw [← halignment, hpow, alignUp_spec hk, if_pos (by omega), next_multiple hmemory' htight haligned]
    have hfiles : ¬phdr.filesz > phdr.memsz := by
      have := hv.file
      rw [hsize]
      omega
    have hrest : ¬(t.blockSize > tlsCapacity ∨ (phdr.filesz ≠ 0 ∧ phdr.vaddr = 0) ∨
        phdr.vaddr.toNat > ulongMax - phdr.filesz.toNat) := by
      have hcapacity := hv.capacity
      have himage' := hv.image
      have hrange := hv.range
      rw [hfile, himage] at himage'
      rw [hfile, himage] at hrange
      rw [ne_eq, hzero, hzero]
      omega
    have hbad : ¬((!powerOfTwo phdr.alignment) = true ∨ phdr.alignment > tlsAlignment) := by
      rw [hpower]
      simpa using hle
    rw [if_neg hfiles]
    dsimp only
    rw [if_neg hbad, hblock]
    dsimp only
    rw [if_neg hrest, ← himage, ← hfile, ← hmemory, ← halignment]

/-! ## The walk -/

/-- The value of the last entry of a type, and zero without one. -/
def auxValue (auxv : List (UInt64 × UInt64)) (type : UInt64) (first : UInt64) : UInt64 :=
  ((auxv.filter (·.1 = type)).getLast?.map Prod.snd).getD first

theorem auxValue_cons (e : UInt64 × UInt64) (auxv : List (UInt64 × UInt64)) (type first : UInt64) :
    auxValue (e :: auxv) type first = auxValue auxv type (if e.1 = type then e.2 else first) := by
  unfold auxValue
  by_cases he : e.1 = type
  · rw [List.filter_cons_of_pos (by simpa using he), List.getLast?_cons, if_pos he]
    cases (auxv.filter (·.1 = type)).getLast? <;> rfl
  · rw [List.filter_cons_of_neg (by simpa using he), if_neg he]

/-- The words of an auxiliary vector, without its end. -/
def auxWords (auxv : List (UInt64 × UInt64)) : List UInt64 := auxv.flatMap fun e => [e.1, e.2]

theorem auxvLoop_spec {auxv : List (UInt64 × UInt64)} (hentries : ∀ e ∈ auxv, e.1 ≠ atNull) (value : UInt64)
    (above : List UInt64) (left : Nat) (values : AuxValues) :
    auxvLoop left (auxWords auxv ++ atNull :: value :: above) values =
      some (if auxv.length < left then
        some ⟨auxValue auxv atPhdr values.phdrAddress, auxValue auxv atPhent values.phent,
          auxValue auxv atPhnum values.phnum⟩ else none) := by
  induction auxv generalizing left values with
  | nil =>
    cases left with
    | zero => rfl
    | succ left => simp [auxWords, auxvLoop, auxValue]
  | cons e auxv ih =>
    cases left with
    | zero => simp [auxvLoop]
    | succ left =>
      have he := hentries e List.mem_cons_self
      have hrest := ih (fun e' h => hentries e' (List.mem_cons_of_mem _ h)) left (values.note e.1 e.2)
      have hwords : auxWords (e :: auxv) ++ atNull :: value :: above =
          e.1 :: e.2 :: (auxWords auxv ++ atNull :: value :: above) := by
        simp [auxWords]
      have hnote : values.note e.1 e.2 = ⟨if e.1 = atPhdr then e.2 else values.phdrAddress,
          if e.1 = atPhent then e.2 else values.phent, if e.1 = atPhnum then e.2 else values.phnum⟩ := by
        unfold AuxValues.note
        split_ifs <;> simp_all [atPhdr, atPhent, atPhnum]
      rw [hwords, auxvLoop, if_neg he, hrest, hnote]
      simp only [auxValue_cons, List.length_cons, Nat.succ_lt_succ_iff]

theorem behindNull_spec {words : List UInt64} (h : ∀ w ∈ words, w ≠ 0) (rest : List UInt64) :
    behindNull (words ++ 0 :: rest) = some rest := by
  induction words with
  | nil => simp [behindNull]
  | cons w words ih =>
    rw [List.cons_append, behindNull, if_neg (h w List.mem_cons_self),
      ih fun w' hw => h w' (List.mem_cons_of_mem _ hw)]

/-- The headers that the loop can read from an address on. -/
def HeaderTable (phdrAt : Nat → Option Elf64Phdr) : (address : Nat) → List Elf64Phdr → Prop
  | _, [] => True
  | address, phdr :: rest => phdrAt address = some phdr ∧ HeaderTable phdrAt (address + phdrSize) rest

/-- The template of a list of headers: that of its only TLS header. -/
def chosenTemplate (headers : List Elf64Phdr) : Option TlsTemplate :=
  match headers.filter (·.type = ptTls) with
  | [] => some noTls
  | [phdr] => tlsCandidate phdr
  | _ => none

theorem phdrLoop_found {phdrAt : Nat → Option Elf64Phdr} {headers : List Elf64Phdr} {address : Nat}
    (h : HeaderTable phdrAt address headers) (candidate : TlsTemplate) :
    phdrLoop phdrAt headers.length address candidate true =
      some (if headers.filter (·.type = ptTls) = [] then some candidate else none) := by
  induction headers generalizing address with
  | nil => rfl
  | cons phdr headers ih =>
    obtain ⟨hphdr, hrest⟩ := h
    rw [List.length_cons, phdrLoop, hphdr]
    dsimp only
    by_cases htype : phdr.type = ptTls
    · simp [htype]
    · rw [if_pos htype, ih hrest, List.filter_cons_of_neg (by simpa using htype)]

theorem phdrLoop_spec {phdrAt : Nat → Option Elf64Phdr} {headers : List Elf64Phdr} {address : Nat}
    (h : HeaderTable phdrAt address headers) :
    phdrLoop phdrAt headers.length address noTls false = some (chosenTemplate headers) := by
  induction headers generalizing address with
  | nil => rfl
  | cons phdr headers ih =>
    obtain ⟨hphdr, hrest⟩ := h
    rw [List.length_cons, phdrLoop, hphdr]
    dsimp only
    by_cases htype : phdr.type = ptTls
    · rw [if_neg (not_not.2 htype), if_neg (by decide)]
      unfold chosenTemplate
      rw [List.filter_cons_of_pos (by simpa using htype)]
      have hfound := phdrLoop_found hrest
      generalize headers.filter (·.type = ptTls) = others at hfound
      cases hc : tlsCandidate phdr with
      | none => cases others <;> simp [hc]
      | some t =>
        dsimp only
        rw [hfound]
        cases others <;> simp [hc]
    · unfold chosenTemplate
      rw [if_pos htype, ih hrest, List.filter_cons_of_neg (by simpa using htype)]
      rfl

/-- The stack of a new process. -/
structure InitialStack (stack : List UInt64) (args envs : List UInt64) (auxv : List (UInt64 × UInt64)) : Prop where
  words : ∃ argc value above, argc.toNat = args.length ∧
    stack = argc :: (args ++ 0 :: (envs ++ 0 :: (auxWords auxv ++ atNull :: value :: above)))
  envs : ∀ w ∈ envs, w ≠ 0
  auxv : ∀ e ∈ auxv, e.1 ≠ atNull

/-- What the runtime can take. -/
structure Supported (args : List UInt64) (auxv : List (UInt64 × UInt64)) : Prop where
  argCount : args.length ≤ 65536
  auxCount : auxv.length < auxvLimit
  address : auxValue auxv atPhdr 0 ≠ 0
  phent : (auxValue auxv atPhent 0).toNat = phdrSize
  phnum : (auxValue auxv atPhnum 0).toNat ≤ phdrLimit
  range : auxValue auxv atPhnum 0 ≠ 0 →
    (auxValue auxv atPhdr 0).toNat + (auxValue auxv atPhnum 0).toNat * phdrSize < 2 ^ 64

/-- The template that a program may get: none if it has no TLS header, and otherwise that
of its only one. -/
inductive Chosen (headers : List Elf64Phdr) : TlsTemplate → Prop where
  | none : (∀ phdr ∈ headers, phdr.type ≠ ptTls) → Chosen headers noTls
  | one {phdr : Elf64Phdr} {t : TlsTemplate} : headers.filter (·.type = ptTls) = [phdr] → t.IsOf phdr → t.Valid →
      Chosen headers t

theorem chosenTemplate_iff (headers : List Elf64Phdr) (t : TlsTemplate) :
    chosenTemplate headers = some t ↔ Chosen headers t := by
  have hnil : headers.filter (·.type = ptTls) = [] ↔ ∀ phdr ∈ headers, phdr.type ≠ ptTls := by
    simp [List.filter_eq_nil_iff]
  unfold chosenTemplate
  constructor
  · intro h
    split at h
    · rename_i hempty
      cases h
      exact .none (hnil.1 hempty)
    · rename_i phdr hone
      obtain ⟨hof, hv⟩ := (tlsCandidate_iff phdr t).1 h
      exact .one hone hof hv
    · cases h
  · intro h
    cases h with
    | none hempty => rw [hnil.2 hempty]
    | one hone hof hv =>
      rw [hone]
      exact (tlsCandidate_iff _ t).2 ⟨hof, hv⟩

/-- On the stack of a new process the walk stays inside, and what it does depends only on
the number of arguments, the auxiliary vector and the program headers. It takes a template
exactly if there is a valid one, leaves that one, and otherwise the one from before. -/
theorem tlsDiscover_exact {stack args envs : List UInt64} {auxv : List (UInt64 × UInt64)}
    {phdrAt : Nat → Option Elf64Phdr} {headers : List Elf64Phdr} (h : InitialStack stack args envs auxv)
    (hlength : headers.length = (auxValue auxv atPhnum 0).toNat)
    (htable : HeaderTable phdrAt (auxValue auxv atPhdr 0).toNat headers) (template : TlsTemplate) :
    ∃ found t, tlsDiscover (some stack) phdrAt template = some (found, t) ∧
      (found = true → Supported args auxv ∧ Chosen headers t) ∧
      (found = false → t = template ∧ ¬∃ t, Supported args auxv ∧ Chosen headers t) := by
  obtain ⟨argc, value, above, hargc, rfl⟩ := h.words
  have hrefuse (hno : ¬Supported args auxv) : ∃ found t, some (false, template) = some (found, t) ∧
      (found = true → Supported args auxv ∧ Chosen headers t) ∧
      (found = false → t = template ∧ ¬∃ t, Supported args auxv ∧ Chosen headers t) :=
    ⟨false, template, rfl, by simp, fun _ => ⟨rfl, fun ⟨_, hs, _⟩ => hno hs⟩⟩
  have hdrop : (args ++ 0 :: (envs ++ 0 :: (auxWords auxv ++ atNull :: value :: above))).drop argc.toNat =
      0 :: (envs ++ 0 :: (auxWords auxv ++ atNull :: value :: above)) := by
    rw [hargc, List.drop_left]
  have hauxv := auxvLoop_spec h.auxv value above auxvLimit ⟨0, 0, 0⟩
  unfold tlsDiscover
  by_cases hmany : argc.toNat > 65536
  · have hno : ¬Supported args auxv := fun hs => by
      have := hs.argCount
      omega
    simp only [hmany, if_true]
    split
    · exact hrefuse hno
    · exact hrefuse hno
  have hsigned : ¬argc.toNat ≥ 2 ^ 63 := by omega
  simp only [hsigned, hmany, if_false, hdrop, List.head?_cons, List.tail_cons, Option.map_some,
    Option.bind_eq_bind, Option.bind_some, behindNull_spec h.envs, hauxv, ne_eq, not_true_eq_false]
  by_cases haux : auxv.length < auxvLimit
  swap
  · rw [if_neg haux]
    exact hrefuse fun hs => haux hs.auxCount
  rw [if_pos haux]
  dsimp only
  have hmax : ulongMax = 2 ^ 64 - 1 := rfl
  have hlimit : phdrLimit = 128 ∧ phdrSize = 56 := ⟨rfl, rfl⟩
  split
  · rename_i hbad
    refine hrefuse fun hs => ?_
    obtain ⟨-, -, haddress, hphent, hphnum, hrange⟩ := hs
    rw [hphent] at hbad
    rcases hbad with h0 | hsize | hcount | ⟨hsome, hfar⟩
    · exact haddress h0
    · exact hsize rfl
    · omega
    · have := hrange hsome
      omega
  · rename_i hgood
    simp only [not_or, not_and, not_not, not_lt] at hgood
    obtain ⟨haddress, hphent, hphnum, hrange⟩ := hgood
    have hsupported : Supported args auxv := by
      refine ⟨by omega, haux, haddress, hphent, hphnum, fun hsome => ?_⟩
      have := hrange hsome
      rw [hphent, hlimit.2] at this
      rw [hlimit.2]
      omega
    rw [← hlength, phdrLoop_spec htable, Option.bind_some]
    cases hc : chosenTemplate headers with
    | none =>
      refine ⟨false, template, rfl, by simp, fun _ => ⟨rfl, fun ⟨t, _, ht⟩ => ?_⟩⟩
      rw [(chosenTemplate_iff headers t).2 ht] at hc
      cases hc
    | some t => exact ⟨true, t, rfl, fun _ => ⟨hsupported, (chosenTemplate_iff headers t).1 hc⟩, by simp⟩

/-- A program with twenty bytes of thread-local storage, of which four have values. -/
def demoHeader : Elf64Phdr := ⟨ptTls, 0x402000, 4, 20, 8⟩

def demoAuxv : List (UInt64 × UInt64) := [(atPhdr, 0x400040), (atPhent, 56), (atPhnum, 1)]

theorem tlsDiscover_exact_demo : ∃ found t,
    tlsDiscover (some (1 :: ([0x7fff0000] ++ 0 :: ([] ++ 0 :: (auxWords demoAuxv ++ atNull :: 0 :: [])))))
      (fun a => if a = 0x400040 then some demoHeader else none) noTls = some (found, t) ∧
    (found = true → Supported [0x7fff0000] demoAuxv ∧ Chosen [demoHeader] t) ∧
    (found = false → t = noTls ∧ ¬∃ t, Supported [0x7fff0000] demoAuxv ∧ Chosen [demoHeader] t) := by
  have hstack : InitialStack (1 :: ([0x7fff0000] ++ 0 :: ([] ++ 0 :: (auxWords demoAuxv ++ atNull :: 0 :: []))))
      [0x7fff0000] [] demoAuxv := by
    refine ⟨⟨1, 0, [], rfl, rfl⟩, by simp, fun e he => ?_⟩
    simp only [demoAuxv, List.mem_cons, List.not_mem_nil, or_false] at he
    rcases he with rfl | rfl | rfl <;> decide
  have htable : HeaderTable (fun a => if a = 0x400040 then some demoHeader else none)
      (auxValue demoAuxv atPhdr 0).toNat [demoHeader] := by
    have haddress : (auxValue demoAuxv atPhdr 0).toNat = 0x400040 := by decide
    rw [haddress]
    exact ⟨if_pos rfl, trivial⟩
  exact tlsDiscover_exact hstack (by decide) htable noTls

end MiniLibc.Thread
