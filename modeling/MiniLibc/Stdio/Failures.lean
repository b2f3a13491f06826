import MiniLibc.Stdio.Output
/-!
# Raw writes that fail

`Observes` is a flag of the kernel that every failing raw write sets. A buffered write
is a `WriteRun`, and by induction on it a failed raw write leaves the error flag of the
stream and a short count, unless the write ends in the newline that the failed flush
was for.
-/
open MiniLibc.Memory

namespace MiniLibc.Stdio

/-- An error, no progress, or an answer that no kernel gives. -/
def fails (data : List UInt8) : Answer Nat → Bool
  | .error _ => true
  | .ok count => count = 0 ∨ count > data.length

/-- A flag that every failing raw write sets, and nothing else. No raw write is empty. -/
def Observes {κ : Type} [Kernel κ] (failed : κ → Bool) : Prop :=
  ∀ k data, data ≠ [] → failed (Kernel.write k data).2 = (failed k || fails data (Kernel.write k data).1)

variable {κ : Type} [Kernel κ]

theorem logged_observes {failed : κ → Bool} (h : Observes failed) : Observes fun l : Logged κ => failed l.kernel :=
  fun l data hd => h l.kernel data hd

/-! ## The kernel after raw writes -/

/-- One raw write. -/
def RawWrite (k k' : κ) : Prop := ∃ data, data ≠ [] ∧ k' = (Kernel.write k data).2

/-- Raw writes of which the last one fails. -/
def WriteFails (k k' : κ) : Prop :=
  ∃ k₁ data, Relation.ReflTransGen RawWrite k k₁ ∧ data ≠ [] ∧ fails data (Kernel.write k₁ data).1 = true ∧
    k' = (Kernel.write k₁ data).2

theorem WriteFails.behind {k k₁ k' : κ} (h : Relation.ReflTransGen RawWrite k k₁) (h' : WriteFails k₁ k') :
    WriteFails k k' := by
  obtain ⟨k₂, data, hled, hfails⟩ := h'
  exact ⟨k₂, data, h.trans hled, hfails⟩

theorem Observes.led {failed : κ → Bool} (ho : Observes failed) {k k' : κ} (h : Relation.ReflTransGen RawWrite k k')
    (hk : failed k = true) : failed k' = true := by
  induction h with
  | refl => exact hk
  | tail _ hstep ih =>
    obtain ⟨data, hd, rfl⟩ := hstep
    rw [ho _ data hd, ih, Bool.true_or]

theorem Observes.fails {failed : κ → Bool} (ho : Observes failed) {k k' : κ} (h : WriteFails k k') :
    failed k' = true := by
  obtain ⟨k₁, data, -, hd, hf, rfl⟩ := h
  rw [ho _ data hd, hf, Bool.or_true]

theorem rawWrites_led (fuel : Nat) (k : κ) (data : List UInt8) :
    Relation.ReflTransGen RawWrite k (rawWrites fuel k data).2.2 ∧
      ((rawWrites fuel k data).2.1.isSome = true → WriteFails k (rawWrites fuel k data).2.2) := by
  induction fuel generalizing k data with
  | zero => exact ⟨.refl, by simp [rawWrites]⟩
  | succ fuel ih =>
    unfold rawWrites
    split
    · exact ⟨.refl, by simp⟩
    rename_i h0
    have hd : data ≠ [] := fun h => h0 (by rw [h]; rfl)
    have hone : Relation.ReflTransGen RawWrite k (Kernel.write k data).2 := .single ⟨data, hd, rfl⟩
    have hfails : Stdio.fails data (Kernel.write k data).1 = true → WriteFails k (Kernel.write k data).2 :=
      fun hf => ⟨k, data, .refl, hd, hf, rfl⟩
    rcases hk : Kernel.write k data with ⟨e | count, k'⟩
    · rw [hk] at hone hfails
      exact ⟨hone, fun _ => hfails rfl⟩
    · rw [hk] at hone hfails
      dsimp only
      split
      · rename_i hbad
        exact ⟨hone, fun _ => hfails (by simpa [Stdio.fails] using hbad)⟩
      · obtain ⟨hled, herror⟩ := ih k' (data.drop count)
        exact ⟨hone.trans hled, fun h => (herror h).behind hone⟩

/-! ## Flushes -/

section Observed
variable {failed : κ → Bool}

theorem rawWrites_failed (ho : Observes failed) (fuel : Nat) (k : κ) (data : List UInt8) :
    failed (rawWrites fuel k data).2.2 = (failed k || (rawWrites fuel k data).2.1.isSome) := by
  induction fuel generalizing k data with
  | zero => simp [rawWrites]
  | succ fuel ih =>
    unfold rawWrites
    split
    · simp
    rename_i h0
    have hw := ho k data fun h => h0 (by rw [h]; rfl)
    rcases hk : Kernel.write k data with ⟨e | count, k'⟩
    · rw [hk] at hw
      simpa [fails] using hw
    · rw [hk] at hw
      dsimp only
      split
      · rename_i hbad
        simpa [fails, hbad] using hw
      · rename_i hgood
        rw [ih, hw]
        simp [fails, hgood]

omit [Kernel κ] in
theorem afterWrites_error (w : World κ) (error : Option Nat) (k : κ) :
    (afterWrites w error k).file.state.error = (w.file.state.error || error.isSome) := by
  cases error <;> simp [afterWrites, markError]

/-- A flush that fails sets the error flag. -/
theorem stdioFlushBuffer_error {w : World κ} (hm : w.file.mode.writable = true) (hs : Sound w.file) :
    (stdioFlushBuffer w).2.file.state.error = (w.file.state.error || !(stdioFlushBuffer w).1) := by
  obtain ⟨n, error, k, -, -, -, hf⟩ := stdioFlushBuffer_spec hm hs
  have hstate : (if w.file.writeLength = 0 then w.file else flushed w.file n).state.error = w.file.state.error := by
    split <;> simp
  rw [hf, afterWrites_error]
  dsimp only
  rw [hstate]
  cases error <;> rfl

/-- A flush fails with a raw write of it. -/
theorem stdioFlushBuffer_failed (ho : Observes failed) {w : World κ} (hm : w.file.mode.writable = true)
    (hs : Sound w.file) : failed (stdioFlushBuffer w).2.kernel = (failed w.kernel || !(stdioFlushBuffer w).1) := by
  obtain ⟨n, error, k, hraw, -, -, hf⟩ := stdioFlushBuffer_spec hm hs
  have hk := rawWrites_failed ho w.file.writeLength w.kernel w.file.pending
  rw [hraw] at hk
  rw [hf, afterWrites_kernel, hk]
  cases error <;> rfl

end Observed

theorem stdioFlushBuffer_led {w : World κ} (hm : w.file.mode.writable = true) (hs : Sound w.file) :
    Relation.ReflTransGen RawWrite w.kernel (stdioFlushBuffer w).2.kernel ∧
      ((stdioFlushBuffer w).1 = false → WriteFails w.kernel (stdioFlushBuffer w).2.kernel) := by
  obtain ⟨n, error, k, hraw, -, -, hf⟩ := stdioFlushBuffer_spec hm hs
  have hled := rawWrites_led w.file.writeLength w.kernel w.file.pending
  rw [hraw] at hled
  rw [hf, afterWrites_kernel]
  refine ⟨hled.1, fun hfail => hled.2 ?_⟩
  cases error with
  | none => cases hfail
  | some e => rfl

/-! ## Buffered writes -/

/-- The world with the front of `data` appended. -/
def appended (w : World κ) (data : List UInt8) (chunk : Nat) : World κ :=
  { w with file := appendPending w.file (data.take chunk) }

/-- The passes of a buffered write, from one world to another, and the bytes accepted. -/
inductive WriteRun : World κ → List UInt8 → Nat → World κ → Prop where
  | done (w : World κ) : WriteRun w [] 0 w
  | full {w w' : World κ} {data : List UInt8} : data ≠ [] → w.file.writeLength = w.file.bufferSize →
      stdioFlushBuffer w = (false, w') → WriteRun w data 0 w'
  | flush {w w₁ w' : World κ} {data : List UInt8} {n : Nat} : data ≠ [] → w.file.writeLength = w.file.bufferSize →
      stdioFlushBuffer w = (true, w₁) → WriteRun w₁ data n w' → WriteRun w data n w'
  | line {w w' : World κ} {data : List UInt8} {chunk : Nat} : data ≠ [] → w.file.writeLength < w.file.bufferSize →
      writeChunk w.file data = (chunk, true) → stdioFlushBuffer (appended w data chunk) = (false, w') →
      WriteRun w data chunk w'
  | flushed {w w₁ w' : World κ} {data : List UInt8} {chunk n : Nat} : data ≠ [] →
      w.file.writeLength < w.file.bufferSize → writeChunk w.file data = (chunk, true) →
      stdioFlushBuffer (appended w data chunk) = (true, w₁) → WriteRun w₁ (data.drop chunk) n w' →
      WriteRun w data (chunk + n) w'
  | more {w w' : World κ} {data : List UInt8} {chunk n : Nat} : data ≠ [] →
      w.file.writeLength < w.file.bufferSize → writeChunk w.file data = (chunk, false) →
      WriteRun (appended w data chunk) (data.drop chunk) n w' → WriteRun w data (chunk + n) w'

omit [Kernel κ] in
theorem Ready.appended {w : World κ} (h : Ready w.file) {data : List UInt8} (hd : data ≠ [])
    (hroom : w.file.writeLength < w.file.bufferSize) {chunk : Nat} {flushLine : Bool}
    (hc : writeChunk w.file data = (chunk, flushLine)) :
    Ready (appended w data chunk).file ∧ 0 < chunk ∧ chunk ≤ data.length := by
  have hspec := writeChunk_spec hd hroom
  rw [hc] at hspec
  refine ⟨h.append ?_, hspec.1, hspec.2.1⟩
  rw [List.length_take]
  dsimp only at hspec
  omega

/-- Passes of a write make one run. -/
theorem writeLoop_run {fuel : Nat} {w : World κ} {data : List UInt8} (hr : Ready w.file) (hf : data.length ≤ fuel) :
    WriteRun w data (writeLoop fuel w data).1 (writeLoop fuel w data).2 := by
  induction fuel generalizing w data with
  | zero =>
    obtain rfl : data = [] := List.eq_nil_of_length_eq_zero (by omega)
    exact .done w
  | succ fuel ih =>
    by_cases hd : data = []
    · subst hd
      exact .done w
    have h0 : ¬ data.length = 0 := fun h => hd (List.eq_nil_of_length_eq_zero h)
    -- what a pass does once there is room
    have hpass : ∀ w₁ : World κ, Ready w₁.file → w₁.file.writeLength < w₁.file.bufferSize →
        WriteRun w₁ data (writeLoop (fuel + 1) w₁ data).1 (writeLoop (fuel + 1) w₁ data).2 := by
      intro w₁ hr₁ hroom
      rw [writeLoop, if_neg h0, if_neg (Nat.ne_of_lt hroom)]
      dsimp only
      rcases hc : writeChunk w₁.file data with ⟨chunk, flushLine⟩
      obtain ⟨hr₂, hpos, hle⟩ := hr₁.appended hd hroom hc
      have hlen : (data.drop chunk).length ≤ fuel := by
        rw [List.length_drop]
        omega
      cases flushLine with
      | false => exact .more hd hroom hc (ih hr₂ hlen)
      | true =>
        rcases hfl : stdioFlushBuffer (appended w₁ data chunk) with ⟨ok, w₂⟩
        have hfl' := hfl
        unfold appended at hfl'
        have hr₃ := hr₂.flush
        rw [hfl] at hr₃
        simp only [hfl', if_true]
        cases ok with
        | false => exact .line hd hroom hc hfl
        | true => exact .flushed hd hroom hc hfl (ih hr₃ hlen)
    by_cases hfull : w.file.writeLength = w.file.bufferSize
    · rcases hfl : stdioFlushBuffer w with ⟨ok, w₁⟩
      have hr₁ := hr.flush
      have hempty := (stdioFlushBuffer_frame hr.writable hr.toSound).2
      rw [hfl] at hr₁ hempty
      cases ok with
      | false =>
        rw [writeLoop, if_neg h0, if_pos hfull, hfl]
        exact .full hd hfull hfl
      | true =>
        have hroom : w₁.file.writeLength < w₁.file.bufferSize := by
          rw [hempty rfl]
          exact hr₁.size_pos
        have hsame : writeLoop (fuel + 1) w data = writeLoop (fuel + 1) w₁ data := by
          rw [writeLoop, writeLoop, if_neg h0, if_neg h0, if_pos hfull, hfl, if_neg (Nat.ne_of_lt hroom)]
        rw [hsame]
        exact .flush hd hfull hfl (hpass w₁ hr₁ hroom)
    · exact hpass w hr (Nat.lt_of_le_of_ne hr.write_le hfull)

/-- A chunk that is flushed ends in the newline, and another one has none. -/
theorem writeChunk_line {f : File} {data : List UInt8} {chunk : Nat} {flushLine : Bool}
    (h : writeChunk f data = (chunk, flushLine)) :
    (flushLine = true → f.mode.lineBuffered = true ∧ (data.take chunk).getLast? = some 10) ∧
      (flushLine = false → f.mode.lineBuffered = true → 10 ∉ data.take chunk) := by
  unfold writeChunk at h
  dsimp only at h
  split at h
  · rename_i hl
    split at h
    · rename_i i hi
      obtain ⟨rfl, rfl⟩ := Prod.mk.inj h
      obtain ⟨hlt, hget, -⟩ := List.idxOf?_eq_some_iff.1 hi
      refine ⟨fun _ => ⟨hl, ?_⟩, by rintro ⟨⟩⟩
      rw [List.length_take] at hlt
      rw [List.getElem_take] at hget
      rw [List.getLast?_take, if_neg (by omega), Nat.add_sub_cancel, List.getElem?_eq_getElem (by omega)]
      simp [hget]
    · rename_i hi
      obtain ⟨rfl, rfl⟩ := Prod.mk.inj h
      exact ⟨by rintro ⟨⟩, fun _ _ => List.idxOf?_eq_none_iff.1 hi⟩
  · rename_i hl
    obtain ⟨rfl, rfl⟩ := Prod.mk.inj h
    exact ⟨by rintro ⟨⟩, fun _ hl' => absurd hl' hl⟩

/-- Newlines that end what is left end the whole. -/
theorem getLast_of_drop {data : List UInt8} {chunk : Nat} {b : UInt8} (h : (data.drop chunk).getLast? = some b) :
    data.getLast? = some b := by
  rw [List.getLast?_drop] at h
  split at h
  · cases h
  · exact h

/-- What passes of a write leave, and where they stop short. -/
structure Passed (w w' : World κ) (short : Prop) : Prop where
  ready : Ready w'.file
  mode : w'.file.mode = w.file.mode
  state : ∃ e, w'.file.state = { w.file.state with error := w.file.state.error || e }
  led : Relation.ReflTransGen RawWrite w.kernel w'.kernel
  fails : short → WriteFails w.kernel w'.kernel

theorem Passed.trans {w w₁ w' : World κ} {unfinished short : Prop} (h : Passed w w₁ unfinished)
    (h' : Passed w₁ w' short) : Passed w w' short where
  ready := h'.ready
  mode := h'.mode.trans h.mode
  state := by
    obtain ⟨e, he⟩ := h.state
    obtain ⟨e', he'⟩ := h'.state
    exact ⟨e || e', by rw [he', he, ← Bool.or_assoc]⟩
  led := h.led.trans h'.led
  fails hs := (h'.fails hs).behind h.led

theorem Ready.flushes {w w₁ : World κ} {ok : Bool} (hr : Ready w.file) (hfl : stdioFlushBuffer w = (ok, w₁)) :
    Passed w w₁ (ok = false) := by
  have hf := (stdioFlushBuffer_frame hr.writable hr.toSound).1
  have he := stdioFlushBuffer_error hr.writable hr.toSound
  have hled := stdioFlushBuffer_led hr.writable hr.toSound
  have hr₁ := hr.flush
  rw [hfl] at hf he hled hr₁
  refine ⟨hr₁, hf.mode, ⟨!ok, ?_⟩, hled.1, hled.2⟩
  obtain ⟨e, hs⟩ := hf.state
  rw [hs] at he ⊢
  rw [← he]

theorem Ready.appends {w : World κ} (hr : Ready w.file) {data : List UInt8} (hd : data ≠ [])
    (hroom : w.file.writeLength < w.file.bufferSize) {chunk : Nat} {flushLine : Bool}
    (hc : writeChunk w.file data = (chunk, flushLine)) : Passed w (Stdio.appended w data chunk) False where
  ready := (hr.appended hd hroom hc).1
  mode := appendPending_mode ..
  state := ⟨false, by simp [Stdio.appended]⟩
  led := .refl
  fails := False.elim

/-- A write stops short at a raw write that fails. -/
theorem WriteRun.passed {w w' : World κ} {data : List UInt8} {n : Nat} (h : WriteRun w data n w') (hr : Ready w.file) :
    Passed w w' (n < data.length) := by
  induction h with
  | done w => exact ⟨hr, rfl, ⟨false, by simp⟩, .refl, fun h => absurd h (Nat.lt_irrefl 0)⟩
  | full hd hfull hfl =>
    have hstop := hr.flushes hfl
    exact { hstop with fails := fun _ => hstop.fails rfl }
  | flush hd hfull hfl hrun ih =>
    have hflush := hr.flushes hfl
    exact hflush.trans (ih hflush.ready)
  | line hd hroom hc hfl =>
    have happend := hr.appends hd hroom hc
    have hstop := happend.trans (happend.ready.flushes hfl)
    exact { hstop with fails := fun _ => hstop.fails rfl }
  | flushed hd hroom hc hfl hrun ih =>
    have happend := hr.appends hd hroom hc
    have hflush := happend.trans (happend.ready.flushes hfl)
    have hrest := hflush.trans (ih hflush.ready)
    refine { hrest with fails := fun hlt => hrest.fails ?_ }
    rw [List.length_drop]
    omega
  | more hd hroom hc hrun ih =>
    have happend := hr.appends hd hroom hc
    have hrest := happend.trans (ih happend.ready)
    refine { hrest with fails := fun hlt => hrest.fails ?_ }
    rw [List.length_drop]
    omega

/-- What a run of passes says of failed raw writes. -/
structure Watches (failed : κ → Bool) (w w' : World κ) (data : List UInt8) (n : Nat) : Prop where
  le : n ≤ data.length
  error : w'.file.state.error = (w.file.state.error || failed w'.kernel)
  line : failed w'.kernel = true → n < data.length ∨ w.file.mode.lineBuffered = true ∧ data.getLast? = some 10

omit [Kernel κ] in
theorem Watches.after {failed : κ → Bool} {w w₁ w' : World κ} {data : List UInt8} {chunk n : Nat}
    (h : Watches failed w₁ w' (data.drop chunk) n) (hm : w₁.file.mode = w.file.mode)
    (he : w₁.file.state.error = w.file.state.error) (hle : chunk ≤ data.length) : Watches failed w w' data (chunk + n) := by
  obtain ⟨h1, h2, h3⟩ := h
  rw [List.length_drop] at h1 h3
  refine ⟨by omega, he ▸ h2, fun hf => ?_⟩
  rcases h3 hf with hlt | ⟨hl, hlast⟩
  · exact .inl (by omega)
  · exact .inr ⟨hm ▸ hl, getLast_of_drop hlast⟩

theorem WriteRun.watches {failed : κ → Bool} (ho : Observes failed) {w w' : World κ} {data : List UInt8} {n : Nat}
    (h : WriteRun w data n w') (hr : Ready w.file) (hk : failed w.kernel = false) : Watches failed w w' data n := by
  -- a flush, with what it does to the flags
  have hflush : ∀ {w w₁ : World κ} {ok : Bool}, Ready w.file → failed w.kernel = false → stdioFlushBuffer w = (ok, w₁) →
      Ready w₁.file ∧ w₁.file.mode = w.file.mode ∧ failed w₁.kernel = !ok ∧
        w₁.file.state.error = (w.file.state.error || !ok) := by
    intro w w₁ ok hr hk hfl
    have hf := stdioFlushBuffer_failed ho hr.writable hr.toSound
    have he := stdioFlushBuffer_error hr.writable hr.toSound
    have hpassed := hr.flushes hfl
    rw [hfl] at hf he
    rw [hk, Bool.false_or] at hf
    exact ⟨hpassed.ready, hpassed.mode, hf, he⟩
  induction h with
  | done w => exact ⟨Nat.le_refl _, by rw [hk, Bool.or_false], by simp [hk]⟩
  | full hd hfull hfl =>
    obtain ⟨-, -, hf, he⟩ := hflush hr hk hfl
    exact ⟨Nat.zero_le _, by rw [he, hf], fun _ => .inl (List.length_pos_iff.2 hd)⟩
  | flush hd hfull hfl hrun ih =>
    obtain ⟨hr₁, hm, hf, he⟩ := hflush hr hk hfl
    obtain ⟨h1, h2, h3⟩ := ih hr₁ hf
    refine ⟨h1, by rw [h2, he, Bool.not_true, Bool.or_false], fun hf' => ?_⟩
    rw [← hm]
    exact h3 hf'
  | @line w w' data chunk hd hroom hc hfl =>
    obtain ⟨hr₁, -, hle⟩ := hr.appended hd hroom hc
    obtain ⟨-, hm, hf, he⟩ := hflush hr₁ hk hfl
    obtain ⟨hl, hlast⟩ := (writeChunk_line hc).1 rfl
    refine ⟨hle, ?_, fun _ => ?_⟩
    · rw [he, hf]
      exact congrArg (· || true) (congrArg State.error (appendPending_state w.file _))
    · by_cases hlt : chunk < data.length
      · exact .inl hlt
      · rw [List.take_of_length_le (by omega)] at hlast
        exact .inr ⟨hl, hlast⟩
  | @flushed w w₁ w' data chunk n hd hroom hc hfl hrun ih =>
    obtain ⟨hr₁, -, hle⟩ := hr.appended hd hroom hc
    obtain ⟨hr₂, hm, hf, he⟩ := hflush hr₁ hk hfl
    exact (ih hr₂ hf).after (hm.trans (appendPending_mode w.file _)) (by simpa [Stdio.appended] using he) hle
  | @more w w' data chunk n hd hroom hc hrun ih =>
    obtain ⟨hr₁, -, hle⟩ := hr.appended hd hroom hc
    exact (ih hr₁ hk).after (appendPending_mode w.file _)
      (congrArg State.error (appendPending_state w.file _)) hle

/-! ## Writes -/

/-- Whether a write of `data` ends in a flush that its count does not show. -/
def FlushesLine (f : File) (data : List UInt8) : Prop :=
  f.mode.writable = true ∧ f.state.readNeedsPosition = false ∧ f.mode.unbuffered = false ∧
    f.mode.lineBuffered = true ∧ data.getLast? = some 10

instance (f : File) (data : List UInt8) : Decidable (FlushesLine f data) := by
  unfold FlushesLine
  infer_instance

/-- A failed raw write sets the error flag, and shows in the count unless it was the
flush of a line that ends the data. -/
theorem stdioWrite_failed {failed : κ → Bool} (ho : Observes failed) {w : World κ} (hs : Sound w.file)
    (hk : failed w.kernel = false) {data : List UInt8} (hf : failed (stdioWrite w data).2.kernel = true) :
    (stdioWrite w data).2.file.state.error = true ∧
      ((stdioWrite w data).1 < data.length ∨ FlushesLine w.file data) := by
  rcases stdioWrite_cases w data with ⟨-, hw⟩ | ⟨-, -, hw⟩ | ⟨hm, hp, hd, hw⟩
  · rw [hw, hk] at hf
    cases hf
  · rw [hw] at hf
    exact absurd (hk.symm.trans hf) (by decide)
  rw [hw] at hf ⊢
  cases hu : w.file.mode.unbuffered with
  | true =>
    rw [hu, if_pos rfl, writeRaw_eq] at hf
    rw [if_pos rfl, writeRaw_eq]
    have hraw := rawWrites_failed ho data.length (startWrite w).kernel data
    have herr := rawWrites_error (k := (startWrite w).kernel) (Nat.le_refl data.length)
    have hle := rawWrites_le data.length (startWrite w).kernel data
    dsimp only at hf ⊢
    rw [afterWrites_kernel, hraw, show failed (startWrite w).kernel = false from hk, Bool.false_or] at hf
    refine ⟨by rw [afterWrites_error, hf, Bool.or_true], .inl ?_⟩
    refine Nat.lt_of_le_of_ne hle fun he => ?_
    rw [herr.2 he] at hf
    cases hf
  | false =>
    rw [hu, if_neg (by simp)] at hf
    rw [if_neg (by simp)]
    have hready : Ready (ensureStorage (startWrite w).file) := (hs.withState _).ready hm
    obtain ⟨-, he, hl⟩ := (writeLoop_run (w := { startWrite w with file := ensureStorage (startWrite w).file }) hready
      (Nat.le_refl data.length)).watches ho hready hk
    refine ⟨by rw [he, hf, Bool.or_true], (hl hf).imp_right fun h => ?_⟩
    exact ⟨hm, hp, hu, h⟩

/-- The error flag stays set. -/
theorem stdioWrite_stays {w : World κ} (hs : Sound w.file) (data : List UInt8) (he : w.file.state.error = true) :
    (stdioWrite w data).2.file.state.error = true := by
  rcases stdioWrite_cases w data with ⟨-, hw⟩ | ⟨-, -, hw⟩ | ⟨hm, -, hd, hw⟩
  · rw [hw]
    exact he
  · rw [hw]
    rfl
  rw [hw]
  cases hu : w.file.mode.unbuffered with
  | true =>
    rw [if_pos rfl, writeRaw_eq]
    dsimp only
    rw [afterWrites_error, show (startWrite w).file.state.error = true from he, Bool.true_or]
  | false =>
    rw [if_neg (by simp)]
    have hready : Ready (ensureStorage (startWrite w).file) := (hs.withState _).ready hm
    obtain ⟨e, hstate⟩ := ((writeLoop_run (w := { startWrite w with file := ensureStorage (startWrite w).file }) hready
      (Nat.le_refl data.length)).passed hready).state
    rw [hstate, show (ensureStorage (startWrite w).file).state.error = true from he]
    rfl

/-- A write keeps what the next one depends on. -/
theorem OutputReady.write {w : World κ} (h : OutputReady w.file) (data : List UInt8) :
    OutputReady (stdioWrite w data).2.file ∧ (stdioWrite w data).2.file.mode = w.file.mode ∧
      (stdioWrite w data).2.file.state.readNeedsPosition = w.file.state.readNeedsPosition := by
  rcases stdioWrite_cases w data with ⟨-, hw⟩ | ⟨-, -, hw⟩ | ⟨hm, -, hd, hw⟩
  · rw [hw]
    exact ⟨h, rfl, rfl⟩
  · rw [hw]
    exact ⟨h.withState _, rfl, rfl⟩
  rw [hw]
  cases hu : w.file.mode.unbuffered with
  | true =>
    rw [if_pos rfl, writeRaw_eq]
    dsimp only
    rcases afterWrites_file (startWrite w) (rawWrites data.length (startWrite w).kernel data).2.1
      (rawWrites data.length (startWrite w).kernel data).2.2 with hf | hf
    · rw [hf]
      exact ⟨h.withState _, rfl, rfl⟩
    · rw [hf]
      exact ⟨(h.withState _).withState _, rfl, rfl⟩
  | false =>
    rw [if_neg (by simp)]
    have hready : Ready (ensureStorage (startWrite w).file) := (h.toSound.withState _).ready hm
    obtain ⟨hr, hmode, ⟨e, hs⟩, -⟩ := (writeLoop_run (w := { startWrite w with file := ensureStorage (startWrite w).file })
      hready (Nat.le_refl data.length)).passed hready
    have hmode' := hmode.trans (ensureStorage_mode (startWrite w).file)
    refine ⟨⟨hr.toSound, fun hb => ?_⟩, hmode', ?_⟩
    · rw [hmode'] at hb
      exact absurd (hu.symm.trans hb) (by decide)
    · rw [hs]
      rfl

/-- A write is short where the stream refuses it, and then it accepts nothing, or where a
raw write of it fails. -/
theorem stdioWrite_led {w : World κ} (hs : Sound w.file) (data : List UInt8) :
    Relation.ReflTransGen RawWrite w.kernel (stdioWrite w data).2.kernel ∧
      ((stdioWrite w data).1 < data.length → WriteFails w.kernel (stdioWrite w data).2.kernel ∨
        (w.file.mode.writable = false ∨ w.file.state.readNeedsPosition = true) ∧ (stdioWrite w data).1 = 0) := by
  rcases stdioWrite_cases w data with ⟨rfl, hw⟩ | ⟨hno, -, hw⟩ | ⟨hm, -, -, hw⟩
  · rw [hw]
    exact ⟨.refl, fun h => absurd h (Nat.lt_irrefl 0)⟩
  · rw [hw]
    exact ⟨.refl, fun _ => .inr ⟨hno, rfl⟩⟩
  rw [hw]
  cases hu : w.file.mode.unbuffered with
  | true =>
    rw [if_pos rfl, writeRaw_eq]
    dsimp only
    obtain ⟨hled, hfails⟩ := rawWrites_led data.length (startWrite w).kernel data
    have herr := rawWrites_error (k := (startWrite w).kernel) (Nat.le_refl data.length)
    rw [afterWrites_kernel]
    refine ⟨hled, fun h => .inl (hfails ?_)⟩
    rw [Option.isSome_iff_ne_none]
    exact fun he => absurd (herr.1 he) (Nat.ne_of_lt h)
  | false =>
    rw [if_neg (by simp)]
    have hready : Ready (ensureStorage (startWrite w).file) := (hs.withState _).ready hm
    have hpassed := (writeLoop_run (w := { startWrite w with file := ensureStorage (startWrite w).file }) hready
      (Nat.le_refl data.length)).passed hready
    exact ⟨hpassed.led, fun h => .inl (hpassed.fails h)⟩

/-- A stream that takes output. -/
structure Takes (f : File) : Prop extends OutputReady f where
  writable : f.mode.writable = true
  position : f.state.readNeedsPosition = false

theorem Takes.write {w : World κ} (h : Takes w.file) (data : List UInt8) : Takes (stdioWrite w data).2.file := by
  obtain ⟨ho, hm, hp⟩ := h.toOutputReady.write data
  exact ⟨ho, by rw [hm, h.writable], by rw [hp, h.position]⟩

/-- A short count of a stream that takes output comes from a failed raw write. -/
theorem stdioWrite_short {failed : κ → Bool} (ho : Observes failed) {w : World κ} (hs : Takes w.file)
    {data : List UInt8} (hlt : (stdioWrite w data).1 < data.length) : failed (stdioWrite w data).2.kernel = true := by
  rcases (stdioWrite_led hs.toSound data).2 hlt with hfails | ⟨hm | hp, -⟩
  · exact ho.fails hfails
  · rw [hs.writable] at hm
    cases hm
  · rw [hs.position] at hp
    cases hp

end MiniLibc.Stdio
