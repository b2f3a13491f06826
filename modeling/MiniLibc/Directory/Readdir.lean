import Mathlib
/-!
# Reading a directory

`src/dirent/dirent.c`: `copy_name` and `readdir`. `getdents64` fills the buffer with
records, and each call takes one from the cursor. The buffer is its filled bytes,
and a pointer into it is the list of them from there on: `none` is a read behind
them, or a write outside `d_name`.

The kernel's answers are a sequence. `Record` is what a well-formed record holds,
`Malformed` what `readdir` refuses.
-/

namespace MiniLibc.Directory

def EIO : Nat := 5
def EINVAL : Nat := 22

/-- `MINI_DIRENT_BUFFER_SIZE`. -/
def bufferSize : Nat := 4096

/-- `MINI_LINUX_DIRENT_NAME_OFFSET`. -/
def nameOffset : Nat := 19

structure Dirent where
  dIno : UInt64
  dOff : Int64
  dReclen : UInt16
  dType : UInt8
  dName : Vector UInt8 256

/-- `DIR`: `filled` is the first `length` bytes of its buffer. -/
structure Dir where
  position : Nat
  filled : List UInt8
  current : Dirent

/-- A result of `getdents64`: `-errno`, or the bytes written. -/
inductive Answer where
  | error (errno : Nat)
  | bytes (data : List UInt8)

/-- The stream `dirp` points to, `errno`, and how many answers were taken. -/
structure World where
  dirp : Option Dir
  errno : Nat
  calls : Nat

/-! ## The calls -/

/-- `n` bytes from a pointer as a little-endian number. -/
def readWord : List UInt8 → Nat → Option Nat
  | _, 0 => some 0
  | [], _ + 1 => none
  | b :: l, n + 1 => do
    let high ← readWord l n
    some (b.toNat + 256 * high)

def setByte {n : Nat} (destination : Vector UInt8 n) (index : Nat) (byte : UInt8) : Option (Vector UInt8 n) :=
  if h : index < n then some (destination.set index byte h) else none

/-- The loop of `copy_name`, with so many bytes still available. -/
def copyNameLoop {n : Nat} (destination : Vector UInt8 n) (capacity index : Nat) :
    List UInt8 → Nat → Option (Vector UInt8 n × Bool)
  | _, 0 => some (destination, false)
  | [], _ + 1 => none
  | byte :: source, available + 1 =>
    if byte = 0 then
      if capacity ≤ index then some (destination, false)
      else (setByte destination index 0).map (·, true)
    else if capacity ≤ index + 1 then some (destination, false)
    else do
      let destination ← setByte destination index byte
      copyNameLoop destination capacity (index + 1) source available

def copyName {n : Nat} (destination : Vector UInt8 n) (capacity : Nat) (source : List UInt8) (available : Nat) :
    Option (Vector UInt8 n × Bool) :=
  if capacity = 0 then some (destination, false) else copyNameLoop destination capacity 0 source available

/-- `readdir` once there are unread bytes. -/
def takeRecord (dir : Dir) (w : World) : Option (Option Dirent × World) :=
  let remaining := dir.filled.length - dir.position
  if remaining < nameOffset + 1 then some (none, { w with dirp := some dir, errno := EIO })
  else do
    let raw := dir.filled.drop dir.position
    let dReclen ← readWord (raw.drop 16) 2
    if dReclen < nameOffset + 1 ∨ remaining < dReclen then
      return (none, { w with dirp := some dir, errno := EIO })
    let nameAvailable := dReclen - nameOffset
    let (dName, copied) ← copyName dir.current.dName 256 (raw.drop nameOffset) nameAvailable
    let dir := { dir with current.dName := dName }
    if copied = false then return (none, { w with dirp := some dir, errno := EIO })
    let dIno ← readWord raw 8
    let dOff ← readWord (raw.drop 8) 8
    let dType ← raw[18]?
    let current := ⟨.ofNat dIno, .ofNat dOff, .ofNat dReclen, dType, dName⟩
    return (some current, { w with dirp := some { dir with position := dir.position + dReclen, current } })

def readdir (kernel : Nat → Answer) (w : World) : Option (Option Dirent × World) :=
  match w.dirp with
  | none => some (none, { w with errno := EINVAL })
  | some dir =>
    if dir.filled.length ≤ dir.position then
      let called := { w with calls := w.calls + 1 }
      match kernel w.calls with
      | .error errno => some (none, { called with errno })
      | .bytes data =>
        if data = [] then some (none, called)
        else if bufferSize < data.length then none
        else takeRecord { dir with position := 0, filled := data } called
    else takeRecord dir w

/-- So many successive calls, and what they returned. -/
def readdirCalls (kernel : Nat → Answer) : Nat → World → Option (List (Option Dirent) × World)
  | 0, w => some ([], w)
  | n + 1, w => do
    let (entry, w) ← readdir kernel w
    let (entries, w) ← readdirCalls kernel n w
    some (entry :: entries, w)

/-! ## Records -/

/-- What a record says, and the padding behind its name. -/
structure Record where
  ino : UInt64
  off : Int64
  type : UInt8
  name : List UInt8
  padding : List UInt8
  name_nul : 0 ∉ name
  name_fits : name.length ≤ 255
  length_fits : nameOffset + 1 + name.length + padding.length < 2 ^ 16

def Record.reclen (r : Record) : Nat := nameOffset + 1 + r.name.length + r.padding.length

/-- The `n` low bytes of a number, least significant first. -/
def wordBytes : Nat → Nat → List UInt8
  | 0, _ => []
  | n + 1, v => .ofNat v :: wordBytes n (v / 256)

def Record.encode (r : Record) : List UInt8 :=
  wordBytes 8 r.ino.toNat ++ (wordBytes 8 r.off.toBitVec.toNat ++ (wordBytes 2 r.reclen ++ (r.type ::
    (r.name ++ 0 :: r.padding))))

def encodeAll (rs : List Record) : List UInt8 := (rs.map Record.encode).flatten

/-- The entry a call returned shows the record, its name as a C string. -/
structure Shows (d : Dirent) (r : Record) : Prop where
  ino : d.dIno = r.ino
  off : d.dOff = r.off
  reclen : d.dReclen.toNat = r.reclen
  type : d.dType = r.type
  name : d.dName.toList.takeWhile (· ≠ 0) = r.name

/-- The record length the bytes claim. -/
def claimed (rest : List UInt8) : Nat := (rest.getD 16 0).toNat + 256 * (rest.getD 17 0).toNat

/-- No record starts here: too few bytes for a header and one of a name, a length
below that or beyond the bytes, or no terminator among the first 256 of the name. -/
def Malformed (rest : List UInt8) : Prop :=
  rest.length < nameOffset + 1 ∨ claimed rest < nameOffset + 1 ∨ rest.length < claimed rest ∨
    0 ∉ ((rest.take (claimed rest)).drop nameOffset).take 256

/-! ## Words -/

@[simp] theorem wordBytes_length (n v : Nat) : (wordBytes n v).length = n := by
  induction n generalizing v with
  | zero => rfl
  | succ n ih => rw [wordBytes, List.length_cons, ih]

theorem readWord_bytes {n v : Nat} (l : List UInt8) (h : v < 256 ^ n) : readWord (wordBytes n v ++ l) n = some v := by
  induction n generalizing v with
  | zero => simp at h; simp [readWord, h]
  | succ n ih =>
    have hv : v / 256 < 256 ^ n := by rw [Nat.pow_succ] at h; omega
    rw [wordBytes, List.cons_append, readWord, ih hv]
    simp only [Option.bind_eq_bind, Option.bind_some, UInt8.toNat_ofNat']
    congr 1
    omega

theorem readWord_two {l : List UInt8} (h : 18 ≤ l.length) : readWord (l.drop 16) 2 = some (claimed l) := by
  rw [List.drop_eq_getElem_cons (by omega), List.drop_eq_getElem_cons (by omega)]
  simp [readWord, claimed, List.getD_eq_getElem?_getD, List.getElem?_eq_getElem (show 16 < l.length by omega),
    List.getElem?_eq_getElem (show 17 < l.length by omega)]

/-! ## Copying the name -/

theorem setByte_eq {n : Nat} (destination : Vector UInt8 n) {index : Nat} (byte : UInt8) (h : index < n) :
    setByte destination index byte = some (destination.set index byte h) := dif_pos h

/-- With enough bytes to look at, the loop stops without a fault. It has copied a
name exactly when there is a terminator among those it may look at and may store. -/
theorem copyNameLoop_found {n : Nat} (destination : Vector UInt8 n) (index available : Nat) (source : List UInt8)
    (hi : index < n) (ha : available ≤ source.length) :
    ∃ d, copyNameLoop destination n index source available =
      some (d, decide (0 ∈ (source.take available).take (n - index))) := by
  induction available generalizing destination index source with
  | zero => exact ⟨destination, by cases source <;> simp [copyNameLoop]⟩
  | succ available ih =>
    obtain ⟨byte, source, rfl⟩ := List.exists_cons_of_length_pos (Nat.lt_of_lt_of_le (Nat.succ_pos _) ha)
    rw [copyNameLoop, List.take_succ_cons]
    obtain ⟨k, hk⟩ : ∃ k, n - index = k + 1 := ⟨n - index - 1, by omega⟩
    rw [hk, List.take_succ_cons]
    by_cases hb : byte = 0
    · rw [if_pos hb, if_neg (by omega), setByte_eq _ _ hi]
      exact ⟨destination.set index 0 hi, by rw [Option.map_some]; simp [hb]⟩
    · have hmem : ∀ l : List UInt8, decide (0 ∈ byte :: l) = decide (0 ∈ l) := fun l => by simp [Ne.symm hb]
      rw [if_neg hb, hmem]
      by_cases hc : n ≤ index + 1
      · rw [if_pos hc]
        exact ⟨destination, by rw [show k = 0 by omega]; simp⟩
      · rw [if_neg hc, setByte_eq _ _ hi, Option.bind_eq_bind, Option.bind_some]
        obtain ⟨d, hd⟩ := ih (destination.set index byte) (index + 1) source (by omega) (by simpa using ha)
        exact ⟨d, by rw [hd, show n - (index + 1) = k by omega]⟩

theorem take_set {l : List UInt8} {i : Nat} (b : UInt8) (h : i < l.length) :
    (l.set i b).take (i + 1) = l.take i ++ [b] := by
  rw [List.take_succ_eq_append_getElem (by simpa using h), List.getElem_set_self, List.take_set_of_le (Nat.le_refl i)]

/-- A name that fits is copied behind what was there, with its terminator. -/
theorem copyNameLoop_copies {n : Nat} (destination : Vector UInt8 n) (index available : Nat) {name : List UInt8}
    (rest : List UInt8) (h0 : 0 ∉ name) (hi : index + name.length < n) (ha : name.length < available) :
    ∃ d, copyNameLoop destination n index (name ++ 0 :: rest) available = some (d, true) ∧
      d.toList.take (index + name.length + 1) = destination.toList.take index ++ (name ++ [0]) := by
  induction name generalizing destination index available with
  | nil =>
    obtain ⟨available, rfl⟩ := Nat.exists_eq_succ_of_ne_zero (Nat.ne_of_gt ha)
    rw [List.length_nil, Nat.add_zero] at hi
    refine ⟨destination.set index 0, ?_, ?_⟩
    · rw [List.nil_append, copyNameLoop, if_pos rfl, if_neg (by omega), setByte_eq _ _ hi, Option.map_some]
    · rw [Vector.toList_set]
      exact take_set 0 (by simpa using hi)
  | cons byte name ih =>
    obtain ⟨available, rfl⟩ := Nat.exists_eq_succ_of_ne_zero (Nat.ne_of_gt (Nat.zero_lt_of_lt ha))
    rw [List.length_cons] at hi ha
    have hb : byte ≠ 0 := fun h => h0 (by rw [h]; exact List.mem_cons_self)
    have hlt : index < n := by omega
    obtain ⟨d, hd, ht⟩ := ih (destination.set index byte) (index + 1) available
      (fun h => h0 (List.mem_cons_of_mem _ h)) (by omega) (by omega)
    refine ⟨d, ?_, ?_⟩
    · rw [List.cons_append, copyNameLoop, if_neg hb, if_neg (by omega), setByte_eq _ _ hlt, Option.bind_eq_bind,
        Option.bind_some, hd]
    · rw [List.length_cons, show index + (name.length + 1) + 1 = index + 1 + name.length + 1 by omega, ht,
        Vector.toList_set, take_set byte (by simpa using hlt)]
      simp

/-! ## One record -/

theorem Record.encode_length (r : Record) : r.encode.length = r.reclen := by
  simp [Record.encode, Record.reclen, nameOffset]
  omega

/-- The layout of a record that starts the bytes. -/
theorem Record.fields (r : Record) (more : List UInt8) :
    r.encode ++ more = wordBytes 8 r.ino.toNat ++ (wordBytes 8 r.off.toBitVec.toNat ++ (wordBytes 2 r.reclen ++
      (r.type :: (r.name ++ 0 :: (r.padding ++ more))))) := by
  simp [Record.encode]

theorem Record.drop_eight (r : Record) (more : List UInt8) :
    (r.encode ++ more).drop 8 = wordBytes 8 r.off.toBitVec.toNat ++ (wordBytes 2 r.reclen ++
      (r.type :: (r.name ++ 0 :: (r.padding ++ more)))) := by
  rw [r.fields, List.drop_left' (wordBytes_length 8 _)]

theorem Record.drop_sixteen (r : Record) (more : List UInt8) :
    (r.encode ++ more).drop 16 = wordBytes 2 r.reclen ++ (r.type :: (r.name ++ 0 :: (r.padding ++ more))) := by
  rw [show 16 = 8 + 8 from rfl, ← List.drop_drop, r.drop_eight, List.drop_left' (wordBytes_length 8 _)]

theorem Record.drop_eighteen (r : Record) (more : List UInt8) :
    (r.encode ++ more).drop 18 = r.type :: (r.name ++ 0 :: (r.padding ++ more)) := by
  rw [show 18 = 16 + 2 from rfl, ← List.drop_drop, r.drop_sixteen, List.drop_left' (wordBytes_length 2 _)]

theorem Record.drop_name (r : Record) (more : List UInt8) :
    (r.encode ++ more).drop nameOffset = r.name ++ 0 :: (r.padding ++ more) := by
  rw [show nameOffset = 18 + 1 from rfl, ← List.drop_drop, r.drop_eighteen, List.drop_one, List.tail_cons]

theorem Record.type_at (r : Record) (more : List UInt8) : (r.encode ++ more)[18]? = some r.type := by
  have := congrArg List.head? (r.drop_eighteen more)
  rwa [List.head?_drop] at this

/-- What `readdir` hands out is the record at the cursor. -/
theorem takeRecord_record {dir : Dir} (w : World) {r : Record} {more : List UInt8}
    (h : dir.filled.drop dir.position = r.encode ++ more) :
    ∃ d, Shows d r ∧ takeRecord dir w =
      some (some d, { w with dirp := some { dir with position := dir.position + r.reclen, current := d } }) := by
  have hlen : dir.filled.length - dir.position = r.reclen + more.length := by
    rw [← List.length_drop, h, List.length_append, r.encode_length]
  have hmin : nameOffset + 1 ≤ r.reclen := by simp only [Record.reclen]; omega
  have hlt : r.reclen < 2 ^ 16 := r.length_fits
  obtain ⟨dName, hcopy, hname⟩ := copyNameLoop_copies dir.current.dName 0 (r.reclen - nameOffset)
    (r.padding ++ more) r.name_nul (by have := r.name_fits; omega)
    (by simp only [Record.reclen]; omega)
  rw [Nat.zero_add, List.take_zero, List.nil_append] at hname
  refine ⟨⟨r.ino, r.off, .ofNat r.reclen, r.type, dName⟩, ⟨rfl, rfl, ?_, rfl, ?_⟩, ?_⟩
  · exact Nat.mod_eq_of_lt hlt
  · have hall : ∀ b ∈ r.name, decide (b ≠ 0) = true := fun b hb => decide_eq_true fun h0 => r.name_nul (h0 ▸ hb)
    rw [← List.take_append_drop (r.name.length + 1) dName.toList, hname, List.append_assoc,
      List.takeWhile_append_of_pos hall]
    simp
  · have hino : readWord (r.encode ++ more) 8 = some r.ino.toNat := by
      rw [r.fields]
      exact readWord_bytes _ r.ino.toNat_lt
    have hoff : readWord ((r.encode ++ more).drop 8) 8 = some r.off.toBitVec.toNat := by
      rw [r.drop_eight]
      exact readWord_bytes _ r.off.toBitVec.isLt
    have hreclen : readWord ((r.encode ++ more).drop 16) 2 = some r.reclen := by
      rw [r.drop_sixteen]
      exact readWord_bytes _ hlt
    have hcall : copyName dir.current.dName 256 ((r.encode ++ more).drop nameOffset) (r.reclen - nameOffset) =
        some (dName, true) := by
      rw [copyName, if_neg (by decide), r.drop_name, hcopy]
    simp only [takeRecord, hlen, h]
    rw [if_neg (by omega), hreclen, hino, hoff, r.type_at]
    simp only [Option.bind_eq_bind, Option.bind_some]
    rw [if_neg (by omega), hcall]
    simp only [Option.bind_some, Bool.true_eq_false, if_false]
    rw [UInt64.ofNat_toNat, show Int64.ofNat r.off.toBitVec.toNat = r.off from Int64.toBitVec.inj (by simp)]
    rfl

/-- A malformed record is refused: the cursor stays, and only the name array may
hold part of what was looked at. -/
theorem takeRecord_malformed (dir : Dir) (w : World) (h : Malformed (dir.filled.drop dir.position)) :
    ∃ dName, takeRecord dir w =
      some (none, { w with dirp := some { dir with current.dName := dName }, errno := EIO }) := by
  obtain ⟨raw, hraw⟩ : ∃ raw, dir.filled.drop dir.position = raw := ⟨_, rfl⟩
  have hlen : dir.filled.length - dir.position = raw.length := by rw [← hraw, List.length_drop]
  rw [hraw] at h
  simp only [takeRecord, hlen, hraw]
  by_cases hshort : raw.length < nameOffset + 1
  · exact ⟨dir.current.dName, if_pos hshort⟩
  · have hmin : nameOffset + 1 = 20 := rfl
    rw [if_neg hshort, readWord_two (by omega)]
    simp only [Option.bind_eq_bind, Option.bind_some]
    by_cases hbad : claimed raw < nameOffset + 1 ∨ raw.length < claimed raw
    · exact ⟨dir.current.dName, if_pos hbad⟩
    · rw [if_neg hbad]
      have hno : 0 ∉ ((raw.take (claimed raw)).drop nameOffset).take 256 := by
        rcases h with h | h | h | h
        · exact absurd h hshort
        · exact absurd (.inl h) hbad
        · exact absurd (.inr h) hbad
        · exact h
      obtain ⟨d, hd⟩ := copyNameLoop_found dir.current.dName 0 (claimed raw - nameOffset)
        (raw.drop nameOffset) (by decide) (by rw [List.length_drop]; omega)
      rw [Nat.sub_zero, ← List.drop_take, decide_eq_false hno] at hd
      refine ⟨d, ?_⟩
      rw [copyName, if_neg (by decide), hd]
      rfl

/-! ## A run -/

/-- The unread bytes of the buffer are these records. -/
def Unread (dir : Dir) (rs : List Record) : Prop := dir.filled.drop dir.position = encodeAll rs

theorem encodeAll_cons (r : Record) (rs : List Record) : encodeAll (r :: rs) = r.encode ++ encodeAll rs := rfl

theorem encodeAll_ne_nil {rs : List Record} (h : rs ≠ []) : encodeAll rs ≠ [] := by
  obtain ⟨r, rs, rfl⟩ := List.exists_cons_of_ne_nil h
  intro h0
  have hlen := congrArg List.length h0
  rw [encodeAll_cons, List.length_append, r.encode_length, List.length_nil] at hlen
  simp only [Record.reclen, nameOffset] at hlen
  omega

theorem takeRecord_unread {dir : Dir} (w : World) {r : Record} {rs : List Record} (h : Unread dir (r :: rs)) :
    ∃ d dir', Shows d r ∧ Unread dir' rs ∧ takeRecord dir w = some (some d, { w with dirp := some dir' }) := by
  obtain ⟨d, hd, hrun⟩ := takeRecord_record w (h.trans (encodeAll_cons r rs))
  refine ⟨d, _, hd, ?_, hrun⟩
  rw [Unread, ← List.drop_drop, h, encodeAll_cons, List.drop_left' r.encode_length]

variable {kernel : Nat → Answer}

/-- With unread records in the buffer no answer is taken. -/
theorem readdir_unread {dir : Dir} {w : World} (hw : w.dirp = some dir) (h : dir.position < dir.filled.length) :
    readdir kernel w = takeRecord dir w := by
  simp only [readdir, hw]
  rw [if_neg (by omega)]

/-- With none left the next answer fills the buffer. -/
theorem readdir_refill {dir : Dir} {w : World} {data : List UInt8} (hw : w.dirp = some dir)
    (h : dir.filled.length ≤ dir.position) (hk : kernel w.calls = .bytes data) (hne : data ≠ [])
    (hlen : data.length ≤ bufferSize) :
    readdir kernel w =
      takeRecord { dir with position := 0, filled := data } { w with calls := w.calls + 1 } := by
  simp only [readdir, hw, hk]
  rw [if_pos h, if_neg hne, if_neg (by omega)]

/-- The answers from here on: one for each of these lists of records, then none. -/
structure Delivers (kernel : Nat → Answer) (calls : Nat) (chunks : List (List Record)) : Prop where
  filled : ∀ i c, chunks[i]? = some c → kernel (calls + i) = .bytes (encodeAll c)
  fits : ∀ c ∈ chunks, c ≠ [] ∧ (encodeAll c).length ≤ bufferSize
  ends : kernel (calls + chunks.length) = .bytes []

theorem Delivers.tail {calls : Nat} {c : List Record} {chunks : List (List Record)}
    (h : Delivers kernel calls (c :: chunks)) : Delivers kernel (calls + 1) chunks := by
  refine ⟨fun i d hd => ?_, fun d hd => h.fits d (List.mem_cons_of_mem c hd), ?_⟩
  · rw [Nat.add_assoc, Nat.add_comm 1]
    exact h.filled (i + 1) d (by rwa [List.getElem?_cons_succ])
  · rw [Nat.add_assoc, Nat.add_comm 1]
    exact h.ends

theorem readdirCalls_cons {w w' w'' : World} {n : Nat} {entry : Option Dirent} {entries : List (Option Dirent)}
    (h : readdir kernel w = some (entry, w')) (h' : readdirCalls kernel n w' = some (entries, w'')) :
    readdirCalls kernel (n + 1) w = some (entry :: entries, w'') := by
  simp [readdirCalls, h, h']

/-- The calls of a run that delivers the records `rs` and then null. -/
def Run (kernel : Nat → Answer) (w : World) (rs : List Record) (answers : Nat) : Prop :=
  ∃ ds w', readdirCalls kernel (rs.length + 1) w = some (ds.map some ++ [none], w') ∧ List.Forall₂ Shows ds rs ∧
    w'.errno = w.errno ∧ w'.calls = w.calls + answers

theorem Run.cons {w : World} {d : Dirent} {dir : Dir} {r : Record} {rs : List Record} (calls : Nat)
    {answers : Nat} (h : readdir kernel w = some (some d, { w with dirp := some dir, calls := w.calls + calls })) (hd : Shows d r)
    (hr : Run kernel { w with dirp := some dir, calls := w.calls + calls } rs answers) :
    Run kernel w (r :: rs) (calls + answers) := by
  obtain ⟨ds, w', hrun, hds, herr, hcalls⟩ := hr
  exact ⟨d :: ds, w', readdirCalls_cons h hrun, .cons hd hds, herr, by rw [hcalls, Nat.add_assoc]⟩

/-- What is left of a buffer is delivered first, then whatever a run from an empty
one delivers. -/
theorem run_unread {rest : List Record} {answers : Nat} {dir : Dir} {w : World} (rs : List Record)
    (hw : w.dirp = some dir) (hu : Unread dir rs)
    (hrest : ∀ dir', Unread dir' [] → Run kernel { w with dirp := some dir' } rest answers) :
    Run kernel w (rs ++ rest) answers := by
  induction rs generalizing dir w with
  | nil =>
    have := hrest dir hu
    rwa [← hw] at this
  | cons r rs ih =>
    have hlt : dir.position < dir.filled.length := by
      by_contra hle
      rw [Unread, List.drop_of_length_le (by omega)] at hu
      exact encodeAll_ne_nil (by simp) hu.symm
    obtain ⟨d, dir', hd, hu', hrun⟩ := takeRecord_unread w hu
    rw [← readdir_unread hw hlt] at hrun
    have := Run.cons 0 hrun hd (ih (w := { w with dirp := some dir' }) rfl hu' hrest)
    rwa [Nat.zero_add] at this

theorem unread_nil {dir : Dir} (h : Unread dir []) : dir.filled.length ≤ dir.position := by
  have := congrArg List.length h
  rw [List.length_drop, encodeAll, List.map_nil, List.flatten_nil, List.length_nil] at this
  omega

theorem run_delivers {chunks : List (List Record)} {dir : Dir} {w : World} (hw : w.dirp = some dir)
    (hu : Unread dir []) (hk : Delivers kernel w.calls chunks) :
    Run kernel w chunks.flatten (chunks.length + 1) := by
  induction chunks generalizing dir w with
  | nil =>
    refine ⟨[], { w with calls := w.calls + 1 }, ?_, .nil, rfl, rfl⟩
    have hend := hk.ends
    rw [List.length_nil, Nat.add_zero] at hend
    have hnull : readdir kernel w = some (none, { w with calls := w.calls + 1 }) := by
      simp only [readdir, hw, hend, if_true]
      rw [if_pos (unread_nil hu)]
    exact readdirCalls_cons hnull rfl
  | cons c chunks ih =>
    obtain ⟨hne, hfits⟩ := hk.fits c List.mem_cons_self
    have hdata := hk.filled 0 c rfl
    rw [Nat.add_zero] at hdata
    have hcall := readdir_refill hw (unread_nil hu) hdata (encodeAll_ne_nil hne) hfits
    obtain ⟨r, rs, rfl⟩ := List.exists_cons_of_ne_nil hne
    have hfull : Unread { dir with position := 0, filled := encodeAll (r :: rs) } (r :: rs) := rfl
    obtain ⟨d, dir', hd, hu', hrun⟩ := takeRecord_unread { w with calls := w.calls + 1 } hfull
    have htail := run_unread rs (w := { w with dirp := some dir', calls := w.calls + 1 }) rfl hu'
      fun dir'' hu'' => ih rfl hu'' hk.tail
    have := Run.cons 1 (hcall.trans hrun) hd htail
    rwa [Nat.add_comm 1] at this

/-- Successive calls return the unread records and those of every later answer, in
order, then null with `errno` as it was. A malformed record at the cursor, or at the
start of the next answer, is refused with `EIO` where it stands. -/
theorem readdir_delivers (kernel : Nat → Answer) :
    (∀ (chunks : List (List Record)) (dir : Dir) (w : World) (rs : List Record), w.dirp = some dir → Unread dir rs →
      Delivers kernel w.calls chunks →
      ∃ ds w', readdirCalls kernel ((rs ++ chunks.flatten).length + 1) w = some (ds.map some ++ [none], w') ∧
        List.Forall₂ Shows ds (rs ++ chunks.flatten) ∧ w'.errno = w.errno ∧ w'.calls = w.calls + (chunks.length + 1)) ∧
    (∀ (dir : Dir) (w : World), w.dirp = some dir → dir.position < dir.filled.length →
      Malformed (dir.filled.drop dir.position) →
      ∃ dName, readdir kernel w =
        some (none, { w with dirp := some { dir with current.dName := dName }, errno := EIO })) ∧
    ∀ (dir : Dir) (w : World) (data : List UInt8), w.dirp = some dir → dir.filled.length ≤ dir.position →
      kernel w.calls = .bytes data → data ≠ [] → data.length ≤ bufferSize → Malformed data →
      ∃ dName, readdir kernel w =
        some (none, ⟨some ⟨0, data, { dir.current with dName := dName }⟩, EIO, w.calls + 1⟩) := by
  refine ⟨fun chunks dir w rs hw hu hk => ?_, fun dir w hw hlt hbad => ?_, fun dir w data hw hle hk hne hfits hbad => ?_⟩
  · exact run_unread rs hw hu fun dir' hu' => run_delivers rfl hu' hk
  · rw [readdir_unread hw hlt]
    exact takeRecord_malformed dir w hbad
  · rw [readdir_refill hw hle hk hne hfits]
    exact takeRecord_malformed { dir with position := 0, filled := data } { w with calls := w.calls + 1 } hbad

/-- Two entries of a directory, without padding. -/
def dotEntry : Record := ⟨2, 1, 4, [46], [], by decide, by decide, by decide⟩
def fileEntry : Record := ⟨7, 2, 8, [97, 98], [], by decide, by decide, by decide⟩

/-- A stream nothing was read from. -/
def opened : World := ⟨some ⟨0, [], ⟨0, 0, 0, 0, .replicate 256 0⟩⟩, 0, 0⟩

/-- An answer with two entries and an empty one; and an answer of a single byte. -/
theorem readdir_delivers_entries :
    (∃ ds w', readdirCalls (fun n => if n = 0 then .bytes (encodeAll [dotEntry, fileEntry]) else .bytes []) 3 opened =
        some (ds.map some ++ [none], w') ∧
      List.Forall₂ Shows ds [dotEntry, fileEntry] ∧ w'.errno = 0 ∧ w'.calls = 2) ∧
    ∃ dName, readdir (fun _ => .bytes [1]) opened =
      some (none, ⟨some ⟨0, [1], ⟨0, 0, 0, 0, dName⟩⟩, EIO, 1⟩) := by
  constructor
  · apply (readdir_delivers _).1 [[dotEntry, fileEntry]] ⟨0, [], ⟨0, 0, 0, 0, .replicate 256 0⟩⟩ opened [] rfl rfl
    constructor
    · intro i c hc
      cases i with
      | zero =>
        cases hc
        rfl
      | succ i => cases hc
    · intro c hc
      cases List.mem_singleton.1 hc
      constructor
      · exact List.cons_ne_nil _ _
      · decide
    · rfl
  · exact (readdir_delivers fun _ => .bytes [1]).2.2 _ opened [1] rfl (Nat.le_refl 0) rfl (List.cons_ne_nil _ _)
      (by decide) (.inl (by decide))

end MiniLibc.Directory
