import MiniLibc.Stdio.Seek
/-!
# A buffered stream is a file with a cursor

`Plain.exec` and `Plain.Interrupted` do not mention the buffer. So over every run
nothing a caller sees depends on its capacity or on how the kernel cuts its
transfers.
-/
open MiniLibc.Memory MiniLibc.Runs

namespace MiniLibc.Stdio

/-- Every operation refines the abstract one. -/
theorem Rep.refines {w : World Regular} (h : Rep w) {op : FileOp} (hop : op.Valid) :
    Refines w op (op.run w).1 (op.run w).2 := by
  cases op with
  | fgetc => exact h.byteOp (fun byte : Option UInt8 => ⟨byte.toList, byteValue byte⟩) fun _ h => h.fgetc
  | fread size nmemb =>
    exact h.byteOp (fun r : List UInt8 × Nat => ⟨r.1, some (r.2 : Nat)⟩) fun _ h => h.fread size nmemb
  | fgets n => exact h.byteOp lineReply fun _ h => h.fgets n
  | ungetc c => exact h.byteOp (fun byte => ⟨[], byteValue byte⟩) fun _ h => h.ungetc c
  | fputc c => exact h.byteOp (fun byte => ⟨[], byteValue byte⟩) fun _ h => h.fputc c
  | fwrite data size nmemb =>
    exact h.byteOp (fun n : Nat => ⟨[], some n⟩) fun _ h => h.fwrite data size nmemb
  | fflush => exact h.fflush
  | fseek offset whence => exact h.fseek hop.1 hop.2 whence
  | ftell => exact h.ftell

/-! ## Runs -/

/-- A stream just opened over a regular file, for reading, writing or both, with
a buffer of any size an object can have. -/
structure Fresh (w : World Regular) : Prop where
  opened : Opened w.file
  valid : validStream w.file = true
  notAppend : w.file.mode.append = false
  capacity : w.file.bufferSize + 4 ≤ maxLong
  kernel : w.kernel.Bounded

theorem Fresh.rep {w : World Regular} (h : Fresh w) : Rep w := by
  have hahead : w.file.ahead = 0 := by
    unfold File.ahead
    rw [h.opened.readOffset, h.opened.readLength]
  have hpushback : w.file.pushback.length = 0 := by
    rw [pushback_length, h.opened.pushbackOffset, h.opened.pushbackLength]
  exact {
    directed := h.opened.directed
    valid := h.valid
    notAppend := h.notAppend
    notWide := by rw [h.opened.state]
    capacity := h.capacity
    kernel := h.kernel
    ahead_le := by rw [hahead]; exact Nat.zero_le _
    ahead_size := fun h0 => absurd hahead h0.ne'
    cached := by
      unfold File.cached
      rw [hahead, h.opened.readOffset, h.opened.readLength]
      rfl
    pushback_le := by rw [hpushback]; exact Nat.zero_le _
    eof := fun he => by rw [h.opened.state] at he; exact absurd he Bool.false_ne_true }

/-- One operation. -/
def FileStep (w w' : World Regular) : Prop := ∃ op : FileOp, op.Valid ∧ w' = (op.run w).2

theorem reachable_rep {w : World Regular} (h : Reachable Fresh FileStep w) : Rep w :=
  h.invariant (I := Rep) (fun _ h => h.rep) fun _ _ h ⟨_, hop, hw⟩ => hw ▸ (h.refines hop).rep

/-- The replies to a list of operations, and the world after them. -/
def FileOp.runs (w : World Regular) : List FileOp → List Reply × World Regular
  | [] => ([], w)
  | op :: ops =>
    let (r, w) := op.run w
    let (rs, w) := FileOp.runs w ops
    (r :: rs, w)

/-- The same operations on the abstract file. -/
def Plain.execs (m : Mode) (p : Plain) : List FileOp → List Reply × Plain
  | [] => ([], p)
  | op :: ops =>
    let (r, p) := p.exec m op
    let (rs, p) := Plain.execs m p ops
    (r :: rs, p)

/-- A run of the abstract file where any operation may be cut short. -/
inductive Plain.Follows (m : Mode) : Plain → List FileOp → List Reply → Plain → Prop where
  | nil {p : Plain} : Plain.Follows m p [] [] p
  | done {p p' : Plain} {op : FileOp} {ops : List FileOp} {rs : List Reply} :
    Plain.Follows m (p.exec m op).2 ops rs p' → Plain.Follows m p (op :: ops) ((p.exec m op).1 :: rs) p'
  | interrupted {p q p' : Plain} {op : FileOp} {ops : List FileOp} {r : Reply} {rs : List Reply} :
    p.Interrupted m op r q → Plain.Follows m q ops rs p' → Plain.Follows m p (op :: ops) (r :: rs) p'

/-- A run on the stream is one on the abstract file, and the one where nothing is
cut short unless a raw call failed. -/
theorem Rep.runs {w : World Regular} (h : Rep w) {ops : List FileOp} (hops : ∀ op ∈ ops, op.Valid) :
    w.kernel.failures ≤ (FileOp.runs w ops).2.kernel.failures ∧
      w.plain.Follows w.file.mode ops (FileOp.runs w ops).1 (FileOp.runs w ops).2.plain ∧
      ((FileOp.runs w ops).2.kernel.failures = w.kernel.failures →
        ((FileOp.runs w ops).1, (FileOp.runs w ops).2.plain) = w.plain.execs w.file.mode ops) := by
  induction ops generalizing w with
  | nil => exact ⟨Nat.le_refl _, .nil, fun _ => rfl⟩
  | cons op ops ih =>
    have hr := h.refines (hops op List.mem_cons_self)
    obtain ⟨h1, h2, h3⟩ := ih hr.rep fun op hmem => hops op (List.mem_cons_of_mem _ hmem)
    rw [hr.mode] at h2 h3
    have hf := hr.failures
    dsimp only [FileOp.runs, Plain.execs]
    refine ⟨hf.trans h1, ?_, fun hs => ?_⟩
    · rcases Nat.lt_or_eq_of_le hf with hlt | heq
      · exact .interrupted (hr.interrupted hlt) h2
      · have hd := hr.done heq.symm
        obtain ⟨hreply, hplain⟩ := Prod.ext_iff.1 hd
        dsimp only at hreply hplain
        rw [hreply]
        rw [hplain] at h2
        exact .done h2
    · have heq : (op.run w).2.kernel.failures = w.kernel.failures := Nat.le_antisymm (h1.trans hs.le) hf
      have hd := hr.done heq
      rw [← hd, ← h3 (hs.trans heq.symm)]

/-! ## Refused operations -/

/-- What the direction guards refuse changes neither the data nor the position. -/
theorem Plain.exec_refused {m : Mode} {p : Plain} :
    (¬ p.CanRead m → ∀ size nmemb n, (p.exec m .fgetc).2 = p ∧ (p.exec m (.fread size nmemb)).2 = p ∧
      (p.exec m (.fgets n)).2 = p) ∧
    (¬ p.CanUnget m → ∀ c, (p.exec m (.ungetc c)).2 = p) ∧
    (¬ p.CanWrite m → ∀ c data size nmemb, (p.exec m (.fputc c)).2 = p ∧
      (p.exec m (.fwrite data size nmemb)).2 = p) := by
  refine ⟨fun hr size nmemb n => ?_, fun hu c => ?_, fun hw c data size nmemb => ?_⟩
  · refine ⟨?_, ?_, ?_⟩
    · rw [Plain.exec, Plain.read, if_pos (.inr hr)]
    · rw [Plain.exec]
      split
      · rfl
      · rw [Plain.read, if_pos (.inr hr)]
    · rw [Plain.exec, if_pos (.inr hr)]
  · rw [Plain.exec, if_pos (.inr hu)]
  · refine ⟨?_, ?_⟩
    · rw [Plain.exec, Plain.append, if_pos (.inr hw)]
    · rw [Plain.exec]
      split
      · rfl
      · rw [Plain.append, if_pos (.inr hw)]

/-- A flush that succeeds changes no flag. -/
theorem flushLoop_state {fuel : Nat} {w w' : World Regular} {length completed : Nat}
    (h : flushLoop fuel w length completed = (true, w')) : w'.file.state = w.file.state := by
  induction fuel generalizing w completed with
  | zero =>
    obtain rfl := (Prod.mk.inj h).2
    rfl
  | succ fuel ih =>
    unfold flushLoop at h
    split at h
    · dsimp only at h
      generalize Kernel.write w.kernel
        (bytesAt (w.file.storage w.file.writeBuffer) completed (length - completed)) = r at h
      obtain ⟨answer, k⟩ := r
      cases answer with
      | error e => exact absurd (Prod.mk.inj h).1 Bool.false_ne_true
      | ok count =>
        dsimp only at h
        split at h
        · exact absurd (Prod.mk.inj h).1 Bool.false_ne_true
        · exact @ih { w with kernel := k } _ h
    · obtain rfl := (Prod.mk.inj h).2
      rfl

/-- A seek that is refused after its flush, or whose `lseek` fails, leaves the
unread input and the flags. -/
theorem Rep.fseek_kept {w w' : World Regular} (h : Rep w) {offset whence : Int} (hflush : (flushAllStream w).1 = true)
    (hfail : Stdio.fseek offset whence w = (false, w')) :
    w'.file.cached = w.file.cached ∧ w'.file.pushback = w.file.pushback ∧ w'.file.state = w.file.state := by
  have hkept : ∀ w1, flushAllStream w = (true, w1) →
      w1.file.cached = w.file.cached ∧ w1.file.pushback = w.file.pushback ∧ w1.file.state = w.file.state := by
    intro w1 hf
    unfold flushAllStream at hf
    split at hf
    · rename_i hm
      have h1 := stdioFlushBuffer_cached h.directed
      have h2 := (stdioFlushBuffer_frame hm h.directed.toSound).1.pushback
      rw [hf] at h1 h2
      refine ⟨h1, h2, ?_⟩
      unfold stdioFlushBuffer at hf
      rw [if_neg (by simp [hm])] at hf
      split at hf
      · obtain rfl := (Prod.mk.inj hf).2
        rfl
      · exact (flushLoop_state hf).trans (ensureStorage_state _)
    · obtain rfl := (Prod.mk.inj hf).2
      exact ⟨rfl, rfl, rfl⟩
  rcases fseek_cases offset whence w with ⟨-, hr⟩ | ⟨-, -, ⟨w1, hf, -⟩ | ⟨w1, hf, hrest⟩⟩
  · obtain rfl := (Prod.mk.inj (hr.symm.trans hfail)).2
    exact ⟨rfl, rfl, rfl⟩
  · rw [hf] at hflush
    contradiction
  rcases hrest with ⟨-, hr⟩ | ⟨adjusted, -, ⟨e, k, -, hr⟩ | ⟨p, k, -, hr⟩⟩
  · obtain rfl := (Prod.mk.inj (hr.symm.trans hfail)).2
    exact hkept w1 hf
  · obtain rfl := (Prod.mk.inj (hr.symm.trans hfail)).2
    exact hkept w1 hf
  · exact absurd (Prod.mk.inj (hr.symm.trans hfail)).1 (by decide)

/-- The refinement. Over every run from a stream just opened, for every buffer
size and every script of short and failed raw calls:
- an operation does what the abstract file does, cut short only by a raw call
  that failed, and so does every list of operations;
- what the direction guards refuse changes neither data nor position;
- the correction of a relative seek is exact;
- a seek refused for its range or by the kernel leaves the unread input and the
  flags. -/
theorem stream_refines {w : World Regular} (h : Reachable Fresh FileStep w) :
    (∀ op : FileOp, op.Valid → Refines w op (op.run w).1 (op.run w).2) ∧
    (∀ ops : List FileOp, (∀ op ∈ ops, op.Valid) →
      w.plain.Follows w.file.mode ops (FileOp.runs w ops).1 (FileOp.runs w ops).2.plain ∧
        ((FileOp.runs w ops).2.kernel.failures = w.kernel.failures →
          ((FileOp.runs w ops).1, (FileOp.runs w ops).2.plain) = w.plain.execs w.file.mode ops)) ∧
    (∀ m p, (¬ Plain.CanRead m p → ∀ size nmemb n, (p.exec m .fgetc).2 = p ∧ (p.exec m (.fread size nmemb)).2 = p ∧
        (p.exec m (.fgets n)).2 = p) ∧
      (¬ p.CanUnget m → ∀ c, (p.exec m (.ungetc c)).2 = p) ∧
      (¬ p.CanWrite m → ∀ c data size nmemb, (p.exec m (.fputc c)).2 = p ∧
        (p.exec m (.fwrite data size nmemb)).2 = p)) ∧
    (∀ offset : Int, -(maxLong : Int) - 1 ≤ offset → offset ≤ maxLong →
      seekOffset (flushAllStream w).2.file offset seekCur =
        if offset - unreadInput (flushAllStream w).2.file < -(maxLong : Int) - 1 then none
        else some (offset - unreadInput (flushAllStream w).2.file)) ∧
    (∀ offset whence w', (flushAllStream w).1 = true → fseek offset whence w = (false, w') →
      w'.file.cached = w.file.cached ∧ w'.file.pushback = w.file.pushback ∧ w'.file.state = w.file.state) := by
  have hrep := reachable_rep h
  refine ⟨fun op hop => hrep.refines hop, fun ops hops => (hrep.runs hops).2, fun m p => Plain.exec_refused,
    fun offset hlo hhi => ?_, fun offset whence w' hflush hfail => hrep.fseek_kept hflush hfail⟩
  rcases hrep.flushAll.1.seekOffset_cur hlo hhi with ⟨hnone, hlt⟩ | ⟨hsome, hle, -⟩
  · rw [hnone, if_pos hlt]
  · rw [hsome, if_neg (by omega)]

/-- A stream with a buffer of three bytes over a file of four: the second and
third byte of the file are cached when a byte is pushed back before them. -/
theorem stream_refines_three :
    ∃ w : World Regular, w.file.bufferSize = 3 ∧ w.file.cached = [66, 67] ∧
      (FileOp.run w (.ungetc 90)).2.plain = { w.plain with pushback := [90], reading := true } := by
  let c : Contents := Contents.empty.write 0 [65, 66, 67, 68]
  let f : File := {
    mode := { readable := true, writable := true }, bufferSize := 3, readBuffer := .custom, writeBuffer := .custom }
  let w : World Regular := { file := f, kernel := { contents := c, offset := 0, script := fun _ => .short 9 } }
  have hw : Reachable Fresh FileStep w := .start
    ⟨⟨rfl, rfl, rfl, rfl, rfl, rfl, rfl⟩, rfl, rfl, by decide, ⟨by decide, by decide⟩⟩
  have h := (stream_refines (.next hw ⟨.fgetc, trivial, rfl⟩)).1 (.ungetc 90) trivial
  have hdone := congrArg Prod.snd (h.done (by decide))
  dsimp only at hdone
  refine ⟨(FileOp.fgetc.run w).2, by decide, by decide, ?_⟩
  rw [hdone, Plain.exec, if_neg (by decide)]
  rfl

end MiniLibc.Stdio
