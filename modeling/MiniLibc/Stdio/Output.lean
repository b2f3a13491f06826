import MiniLibc.Lib.Runs
import MiniLibc.Stdio.Regular
import MiniLibc.Stdio.Writes
/-!
# What was accepted is delivered or pending

`Logged` records every byte a kernel took. Along any run of writes and flushes,
in any mode, the log followed by the pending output is the concatenation of what
the writes accepted.
-/
open MiniLibc.Memory MiniLibc.Runs

namespace MiniLibc.Stdio

/-- A kernel, and the bytes it has taken. -/
structure Logged (κ : Type) where
  kernel : κ
  written : List UInt8

variable {κ : Type} [Kernel κ]

/-- The bytes an answer to a raw write takes. A count beyond the request is no
answer of a kernel, and takes none. -/
def taken (data : List UInt8) : Answer Nat → List UInt8
  | .ok count => if count ≤ data.length then data.take count else []
  | .error _ => []

instance : Kernel (Logged κ) where
  read l n := ((Kernel.read l.kernel n).1, { l with kernel := (Kernel.read l.kernel n).2 })
  write l data :=
    ((Kernel.write l.kernel data).1,
      ⟨(Kernel.write l.kernel data).2, l.written ++ taken data (Kernel.write l.kernel data).1⟩)
  lseek l offset whence :=
    ((Kernel.lseek l.kernel offset whence).1, { l with kernel := (Kernel.lseek l.kernel offset whence).2 })

/-! ## Writes -/

/-- A run of raw writes logs the bytes it wrote. -/
theorem rawWrites_logged (fuel : Nat) (l : Logged κ) (data : List UInt8) :
    (rawWrites fuel l data).2.2.written = l.written ++ data.take (rawWrites fuel l data).1 := by
  induction fuel generalizing l data with
  | zero => simp [rawWrites]
  | succ fuel ih =>
    have hw : (Kernel.write l data).2.written = l.written ++ taken data (Kernel.write l data).1 := rfl
    unfold rawWrites
    split
    · simp
    split
    · rename_i e l' he
      rw [he] at hw
      simpa [taken] using hw
    · rename_i count l' hc
      rw [hc] at hw
      split
      · rename_i hbad
        rw [hw]
        rcases hbad with rfl | hgt
        · simp [taken]
        · simp [taken, Nat.not_le.2 hgt]
      · rename_i hgood
        dsimp only
        rw [ih, hw, List.append_assoc, taken, if_pos (by omega), List.take_add]

/-- Delivered output, and output still pending. -/
def World.output (w : World (Logged κ)) : List UInt8 := w.kernel.written ++ w.file.pending

/-- A flush delivers the front of the pending output and keeps the rest. -/
theorem stdioFlushBuffer_output {w : World (Logged κ)} (hm : w.file.mode.writable = true) (hs : Sound w.file) :
    ∃ n, n ≤ w.file.pending.length ∧
      (stdioFlushBuffer w).2.kernel.written = w.kernel.written ++ w.file.pending.take n ∧
      (stdioFlushBuffer w).2.file.pending = w.file.pending.drop n ∧
      ((stdioFlushBuffer w).1 = true ↔ n = w.file.pending.length) := by
  obtain ⟨n, error, k, hr, hn, herr, hf⟩ := stdioFlushBuffer_spec hm hs
  have hlog := rawWrites_logged w.file.writeLength w.kernel w.file.pending
  rw [hr] at hlog
  refine ⟨n, by rwa [pending_length], ?_, ?_, by rw [hf, pending_length, ← herr]; simp⟩
  · rw [hf]
    dsimp only
    rw [afterWrites_kernel]
    exact hlog
  · rw [hf]
    dsimp only
    rw [afterWrites_pending]
    dsimp only
    split
    · rename_i h0
      rw [List.drop_eq_nil_of_le (by rw [pending_length]; omega)]
      exact List.eq_nil_of_length_eq_zero (by rw [pending_length, h0])
    · exact hs.flush_pending hn

theorem flush_output {w : World (Logged κ)} (hm : w.file.mode.writable = true) (hs : Sound w.file) :
    (stdioFlushBuffer w).2.output = w.output := by
  obtain ⟨n, -, hlog, hpend, -⟩ := stdioFlushBuffer_output hm hs
  unfold World.output
  rw [hlog, hpend, List.append_assoc, List.take_append_drop]

/-- A stream on which nothing but output may be outstanding. -/
structure OutputReady (f : File) : Prop extends Sound f where
  unbuffered : f.mode.unbuffered = true → f.writeLength = 0

theorem OutputReady.of_frame {f f' : File} (h : OutputReady f) (hf : FlushFrame f f') : OutputReady f' where
  toSound := hf.sound
  unbuffered hu := by
    have := h.unbuffered (hf.mode ▸ hu)
    have := hf.length_le
    omega

theorem OutputReady.withState {f : File} (h : OutputReady f) (s : State) : OutputReady { f with state := s } where
  toSound := h.toSound.withState s
  unbuffered := h.unbuffered

omit [Kernel κ] in
theorem append_output {w : World (Logged κ)} (h : Ready w.file) (bytes : List UInt8) :
    World.output { w with file := appendPending w.file bytes } = w.output ++ bytes := by
  unfold World.output
  rw [h.append_pending, List.append_assoc]

/-- A write adds what it accepts to the output. -/
theorem stdioWrite_output {w : World (Logged κ)} (h : OutputReady w.file) (data : List UInt8) :
    OutputReady (stdioWrite w data).2.file ∧ (stdioWrite w data).1 ≤ data.length ∧
      (stdioWrite w data).2.output = w.output ++ data.take (stdioWrite w data).1 := by
  rcases stdioWrite_cases w data with ⟨-, hw⟩ | ⟨-, -, hw⟩ | ⟨hm, -, -, hw⟩
  · rw [hw]
    exact ⟨h, Nat.zero_le _, (List.append_nil _).symm⟩
  · rw [hw]
    exact ⟨h.withState _, Nat.zero_le _, (List.append_nil _).symm⟩
  rw [hw]
  have h1 : OutputReady (startWrite w).file := h.withState _
  have hm1 : (startWrite w).file.mode.writable = true := hm
  rw [show w.output = (startWrite w).output from rfl,
    show w.file.mode.unbuffered = (startWrite w).file.mode.unbuffered from rfl]
  generalize startWrite w = w1 at *
  cases hu : w1.file.mode.unbuffered with
  | true =>
    -- Nothing is pending, and the kernel takes the bytes directly.
    have hpend : w1.file.pending = [] := List.eq_nil_of_length_eq_zero (by rw [pending_length, h1.unbuffered hu])
    rw [if_pos rfl, writeRaw_eq]
    have hlog := rawWrites_logged data.length w1.kernel data
    refine ⟨?_, rawWrites_le _ _ _, ?_⟩
    · rcases afterWrites_file w1 (rawWrites data.length w1.kernel data).2.1
        (rawWrites data.length w1.kernel data).2.2 with hf | hf
      · rw [hf]; exact h1
      · rw [hf]; exact h1.withState _
    · unfold World.output
      rw [afterWrites_kernel, afterWrites_pending, hlog, hpend, List.append_nil, List.append_nil]
  | false =>
    rw [if_neg (by simp)]
    have hready : Ready (ensureStorage w1.file) := h1.toSound.ready hm1
    have hstart : World.output { w1 with file := ensureStorage w1.file } = w1.output := by
      unfold World.output
      rw [h1.toSound.ensure_pending]
    obtain ⟨hle, hr, ⟨ho, hmu⟩, -⟩ := writeLoop_rule
      (I := fun w' acc => w'.output = w1.output ++ acc ∧ w'.file.mode.unbuffered = false) (Q := fun _ => True)
      (fun w' acc hr hi => ⟨⟨(flush_output hr.writable hr.toSound).trans hi.1,
        (congrArg Mode.unbuffered (stdioFlushBuffer_frame hr.writable hr.toSound).1.mode).trans hi.2⟩, fun _ => trivial⟩)
      (fun w' acc bytes hr hi _ _ => ⟨by rw [append_output hr, hi.1, List.append_assoc], by simpa using hi.2⟩)
      (w := { w1 with file := ensureStorage w1.file }) hready ⟨hstart.trans (List.append_nil _).symm, hu⟩
      (Nat.le_refl data.length)
    refine ⟨{ toSound := hr.toSound, unbuffered := fun hb => by rw [hmu] at hb; contradiction }, hle, ?_⟩
    rw [ho, List.nil_append]

/-! ## Operations -/

/-- The writes and flushes of a byte stream. -/
inductive OutputOp where
  | write (data : List UInt8)
  | fputc (c : Int)
  | fputs (s : List UInt8)
  | fwrite (data : List UInt8) (size nmemb : Nat)
  | flushBuffer
  | fflush

/-- The world after an operation. -/
def OutputOp.after (w : World κ) : OutputOp → World κ
  | .write data => (stdioWrite w data).2
  | .fputc c => (Stdio.fputc c w).2
  | .fputs s => (Stdio.fputs s w).2
  | .fwrite data size nmemb => (Stdio.fwrite data size nmemb w).2
  | .flushBuffer => (stdioFlushBuffer w).2
  | .fflush => (Stdio.fflush w).2

/-- What `stdio_write_unlocked` reports to a caller as accepted of `data`. -/
def reported (w : World κ) (data : List UInt8) : List UInt8 := data.take (stdioWrite w data).1

/-- The bytes an operation reports as accepted: the byte `fputc` returns, and
for the others the count their one call of `stdio_write_unlocked` returns. -/
def OutputOp.accepted (w : World κ) : OutputOp → List UInt8
  | .write data => reported w data
  | .fputc c => (Stdio.fputc c w).1.toList
  | .fputs s => (byteOp [] (fun w => (if w.file.mode.writable then reported w s else [], w)) w).1
  | .fwrite data size nmemb =>
    (byteOp [] (fun w => (if w.file.mode.writable ∧ nmemb ≤ sizeMax / size then
      reported w (data.take (size * nmemb)) else [], w)) w).1
  | .flushBuffer => []
  | .fflush => []

theorem stdioFlushBuffer_ready {w : World (Logged κ)} (h : OutputReady w.file) :
    OutputReady (stdioFlushBuffer w).2.file ∧ (stdioFlushBuffer w).2.output = w.output := by
  cases hm : w.file.mode.writable with
  | true => exact ⟨h.of_frame (stdioFlushBuffer_frame hm h.toSound).1, flush_output hm h.toSound⟩
  | false =>
    unfold stdioFlushBuffer
    rw [if_pos (by simp [hm])]
    exact ⟨h.withState _, rfl⟩

omit [Kernel κ] in
/-- A wrapped operation accepts what its core accepts. -/
theorem byteOp_output {α : Type} {fail : α} {core : World (Logged κ) → α × World (Logged κ)}
    {acc : World (Logged κ) → List UInt8 × World (Logged κ)} {w : World (Logged κ)} (h : OutputReady w.file)
    (hcore : ∀ w, OutputReady w.file → OutputReady (core w).2.file ∧ (core w).2.output = w.output ++ (acc w).1) :
    OutputReady (byteOp fail core w).2.file ∧ (byteOp fail core w).2.output = w.output ++ (byteOp [] acc w).1 := by
  obtain ⟨s, e, hw⟩ := requireByte_world w
  have h1 : OutputReady (requireByte w).2.file ∧ (requireByte w).2.output = w.output := by
    rw [hw]
    exact ⟨h.withState s, rfl⟩
  unfold byteOp
  generalize requireByte w = r at h1
  obtain ⟨_ | _, w1⟩ := r
  · exact ⟨h1.1, h1.2.trans (List.append_nil _).symm⟩
  · rw [← h1.2]
    exact hcore w1 h1.1

theorem fputcCore_output {w : World (Logged κ)} (h : OutputReady w.file) (c : Int) :
    OutputReady (fputcCore c w).2.file ∧ (fputcCore c w).2.output = w.output ++ (fputcCore c w).1.toList := by
  obtain ⟨h1, hle, ho⟩ := stdioWrite_output h [unsignedChar c]
  unfold fputcCore
  dsimp only
  generalize stdioWrite w [unsignedChar c] = r at h1 hle ho
  obtain ⟨n, w1⟩ := r
  rcases Nat.le_one_iff_eq_zero_or_eq_one.1 hle with rfl | rfl
  · exact ⟨h1, ho⟩
  · exact ⟨h1, ho⟩

theorem stdioWrite_reported {w : World (Logged κ)} (h : OutputReady w.file) (data : List UInt8) :
    OutputReady (stdioWrite w data).2.file ∧ (stdioWrite w data).2.output = w.output ++ reported w data :=
  ⟨(stdioWrite_output h data).1, (stdioWrite_output h data).2.2⟩

theorem fwriteCore_output {w : World (Logged κ)} (h : OutputReady w.file) (data : List UInt8) (size nmemb : Nat) :
    OutputReady (fwriteCore data size nmemb w).2.file ∧
      (fwriteCore data size nmemb w).2.output = w.output ++
        if w.file.mode.writable ∧ nmemb ≤ sizeMax / size then reported w (data.take (size * nmemb)) else [] := by
  unfold fwriteCore
  by_cases h0 : size = 0 ∨ nmemb = 0
  · have hd : data.take (size * nmemb) = [] := by rcases h0 with rfl | rfl <;> simp
    rw [if_pos h0, hd]
    exact ⟨h, by simp [reported]⟩
  rw [if_neg h0]
  cases hm : w.file.mode.writable with
  | false =>
    rw [if_pos (by simp), if_neg (by simp), List.append_nil]
    exact ⟨h.withState _, rfl⟩
  | true =>
    by_cases hbig : nmemb > sizeMax / size
    · rw [if_neg (by simp), if_pos hbig, if_neg (by simpa using hbig)]
      exact ⟨h.withState _, (List.append_nil _).symm⟩
    · rw [if_neg (by simp), if_neg hbig, if_pos ⟨rfl, by omega⟩]
      exact stdioWrite_reported h _

theorem fflush_output {w : World (Logged κ)} (h : OutputReady w.file) :
    OutputReady (fflush w).2.file ∧ (fflush w).2.output = w.output := by
  unfold fflush
  split
  · exact ⟨h.withState _, rfl⟩
  split
  · have hf := stdioFlushBuffer_ready h
    generalize stdioFlushBuffer w = r at hf
    obtain ⟨_ | _, w1⟩ := r
    · exact hf
    · exact ⟨hf.1.withState _, hf.2⟩
  · exact ⟨h, rfl⟩

/-- Every operation adds what it reports as accepted to the output. -/
theorem OutputOp.after_output {w : World (Logged κ)} (h : OutputReady w.file) (op : OutputOp) :
    OutputReady (op.after w).file ∧ (op.after w).output = w.output ++ op.accepted w := by
  cases op with
  | write data => exact stdioWrite_reported h data
  | fputc c =>
    have hb := @byteOp_output κ _ none (fputcCore c) (fun w => ((fputcCore c w).1.toList, w)) w h
      fun w h => fputcCore_output h c
    have hacc : (byteOp [] (fun w => ((fputcCore c w).1.toList, w)) w).1 = (Stdio.fputc c w).1.toList := by
      unfold Stdio.fputc byteOp
      rcases requireByte w with ⟨_ | _, w1⟩ <;> rfl
    rw [hacc] at hb
    exact hb
  | fputs s =>
    refine byteOp_output h fun w h => ?_
    unfold fputsCore
    cases hm : w.file.mode.writable with
    | false => exact ⟨h.withState _, (List.append_nil _).symm⟩
    | true => exact stdioWrite_reported h s
  | fwrite data size nmemb => exact byteOp_output h fun w h => fwriteCore_output h data size nmemb
  | flushBuffer =>
    obtain ⟨h1, h2⟩ := stdioFlushBuffer_ready h
    exact ⟨h1, h2.trans (List.append_nil _).symm⟩
  | fflush =>
    obtain ⟨h1, h2⟩ := fflush_output h
    exact ⟨h1, h2.trans (List.append_nil _).symm⟩

/-! ## Runs -/

/-- A stream, and the bytes its writes have reported as accepted so far. -/
structure Transcript (κ : Type) where
  world : World (Logged κ)
  accepted : List UInt8

/-- Nothing written and nothing pending; any mode, buffer and capacity. -/
def Transcript.Start (t : Transcript κ) : Prop :=
  Sound t.world.file ∧ t.world.file.writeLength = 0 ∧ t.world.kernel.written = [] ∧ t.accepted = []

/-- One write or flush. -/
def Transcript.Step (t t' : Transcript κ) : Prop :=
  ∃ op : OutputOp, t' = ⟨op.after t.world, t.accepted ++ op.accepted t.world⟩

/-- Output is neither lost nor duplicated nor reordered. In every run, what the
kernel took followed by the pending output is what was accepted, and a flush
delivers the front of the pending output and keeps exactly the rest: all is
delivered when it succeeds, and something is left when it fails. -/
theorem output_conserved {t : Transcript κ} (h : Reachable Transcript.Start Transcript.Step t) :
    t.world.kernel.written ++ t.world.file.pending = t.accepted ∧
      (t.world.file.mode.writable = true → ∃ n, n ≤ t.world.file.pending.length ∧
        (stdioFlushBuffer t.world).2.kernel.written = t.world.kernel.written ++ t.world.file.pending.take n ∧
        (stdioFlushBuffer t.world).2.file.pending = t.world.file.pending.drop n ∧
        ((stdioFlushBuffer t.world).1 = true ↔ n = t.world.file.pending.length)) := by
  obtain ⟨hr, ho⟩ := Reachable.invariant (I := fun t => OutputReady t.world.file ∧ t.world.output = t.accepted)
    (by
      rintro t ⟨hs, h0, hlog, hacc⟩
      refine ⟨{ toSound := hs, unbuffered := fun _ => h0 }, ?_⟩
      unfold World.output
      rw [hlog, hacc, List.nil_append]
      exact List.eq_nil_of_length_eq_zero (by rw [pending_length, h0]))
    (by
      rintro t t' ⟨hr, ho⟩ ⟨op, rfl⟩
      obtain ⟨h1, h2⟩ := op.after_output hr
      exact ⟨h1, h2.trans (by rw [ho])⟩) h
  exact ⟨ho, fun hm => stdioFlushBuffer_output hm hr.toSound⟩

/-- Two bytes accepted by a line-buffered stream, the second one a newline. -/
theorem output_conserved_line :
    ∃ t : Transcript Regular, t.accepted = [104, 10] ∧
      t.world.kernel.written ++ t.world.file.pending = t.accepted := by
  let t : Transcript Regular :=
    ⟨{ file := { mode := { writable := true, lineBuffered := true } }
       kernel := ⟨{ contents := .empty, offset := 0, script := fun _ => .short 1 }, []⟩ }, []⟩
  have ht : Transcript.Start t := ⟨⟨by decide, by decide, by decide, by decide, by decide⟩, rfl, rfl, rfl⟩
  refine ⟨_, ?_, (output_conserved (.next (.start ht) ⟨.write [104, 10], rfl⟩)).1⟩
  decide

end MiniLibc.Stdio
