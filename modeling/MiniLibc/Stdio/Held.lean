import MiniLibc.Stdio.Resources
import MiniLibc.Stdio.Update
/-!
# What a stream can hold

`Held` is what every stream keeps, buffered or not: on a buffered one input and
output stay apart, an unbuffered one holds nothing but bytes pushed back, and
the buffer pointers are there together. An operation other than `setvbuf` only
`Moves` a stream: its mode stays, and its storage is the same or now in the
object.
-/
open MiniLibc.Memory

namespace MiniLibc.Stdio

variable {κ : Type} [Kernel κ]

/-- The buffer pointers and the capacity. -/
def File.buffers (f : File) : Storage × Storage × Nat := (f.writeBuffer, f.readBuffer, f.bufferSize)

/-- What every stream keeps. -/
structure Held (f : File) : Prop where
  directed : f.mode.unbuffered = false → Directed f
  bare : f.mode.unbuffered = true → f.writeLength = 0 ∧ f.readOffset = 0 ∧ f.readLength = 0
  unread : ¬ Drained f → f.mode.readable = true
  sync : f.state.writeNeedsSync = true → f.mode.writable = true
  stored : (f.writeBuffer = .null ↔ f.bufferSize = 0) ∧ (f.readBuffer = .null ↔ f.bufferSize = 0)

omit [Kernel κ] in
theorem Held.sound {f : File} (h : Held f) : Sound f := by
  cases hu : f.mode.unbuffered with
  | false => exact (h.directed hu).toSound
  | true =>
    obtain ⟨h1, h2, h3⟩ := h.bare hu
    exact ⟨by omega, by omega, by omega, by omega, by omega⟩

/-! ## Moves -/

/-- What an operation other than `setvbuf` does to a stream. -/
structure Moves (f f' : File) : Prop where
  mode : f'.mode = f.mode
  storage : f'.buffers = f.buffers ∨ f'.buffers = (ensureStorage f).buffers
  bare : f.mode.unbuffered = true → f.writeLength = 0 ∧ f.readOffset = 0 ∧ f.readLength = 0 →
    f'.writeLength = 0 ∧ f'.readOffset = 0 ∧ f'.readLength = 0
  unread : ¬ Drained f' → ¬ Drained f ∨ f.mode.readable = true
  sync : f'.state.writeNeedsSync = true → f.state.writeNeedsSync = true ∨ f.mode.writable = true

namespace Moves

variable {f f' f'' : File}

theorem refl (f : File) : Moves f f := ⟨rfl, .inl rfl, fun _ h => h, .inl, .inl⟩

/-- Only the state word changes. -/
theorem state (f : File) {s : State} (h : s.writeNeedsSync = true → f.state.writeNeedsSync = true) :
    Moves f { f with state := s } := ⟨rfl, .inl rfl, fun _ h => h, .inl, fun hs => .inl (h hs)⟩

theorem ensure_buffers (h : f'.buffers = f.buffers) : (Stdio.ensureStorage f').buffers = (Stdio.ensureStorage f).buffers := by
  simp only [File.buffers, Prod.mk.injEq] at h
  simp [File.buffers, Stdio.ensureStorage, h]

theorem ensure_ensure (f : File) : (Stdio.ensureStorage (Stdio.ensureStorage f)).buffers = (Stdio.ensureStorage f).buffers := by
  have hs := ensureStorage_bufferSize f
  have hw := ensureStorage_writeBuffer f
  have hr := ensureStorage_readBuffer f
  generalize Stdio.ensureStorage f = g at hs hw hr
  simp [File.buffers, Stdio.ensureStorage, hs.ne', hw, hr]

theorem trans (h : Moves f f') (h' : Moves f' f'') : Moves f f'' where
  mode := h'.mode.trans h.mode
  storage := by
    rcases h'.storage with hs' | hs' <;> rcases h.storage with hs | hs
    · exact .inl (hs'.trans hs)
    · exact .inr (hs'.trans hs)
    · exact .inr (hs'.trans (ensure_buffers hs))
    · refine .inr (hs'.trans ?_)
      have hbuffers : (Stdio.ensureStorage f').buffers = (Stdio.ensureStorage (Stdio.ensureStorage f)).buffers :=
        ensure_buffers hs
      rw [hbuffers, ensure_ensure]
  bare hu hb := h'.bare (by rw [h.mode]; exact hu) (h.bare hu hb)
  unread hd := by
    rcases h'.unread hd with hd' | hr
    · exact h.unread hd'
    · exact .inr (h.mode ▸ hr)
  sync hs := by
    rcases h'.sync hs with hs' | hw
    · exact h.sync hs'
    · exact .inr (h.mode ▸ hw)

theorem ensureStorage (f : File) : Moves f (ensureStorage f) := ⟨rfl, .inr rfl, fun _ h => h, .inl, .inl⟩

/-- On a buffered stream that may be read, only the mode and the storage count. -/
theorem of_reading (hu : f.mode.unbuffered = false) (hm : f.mode.readable = true) (hmode : f'.mode = f.mode)
    (hs : f'.buffers = f.buffers) (hw : f'.state.writeNeedsSync = f.state.writeNeedsSync) : Moves f f' :=
  ⟨hmode, .inl hs, fun h => absurd (hu.symm.trans h) Bool.false_ne_true, fun _ => .inr hm, fun h => .inl (hw ▸ h)⟩

theorem uses (h : Moves f f') : Uses f f' where
  mode := h.mode
  write := by
    rcases h.storage with hs | hs
    · exact .inl (congrArg Prod.fst hs)
    · have hw := congrArg Prod.fst hs
      exact (Uses.ensureStorage f).write.imp hw.trans fun h => ⟨h.1, hw.trans h.2⟩
  read := by
    rcases h.storage with hs | hs
    · exact .inl (congrArg (Prod.fst ∘ Prod.snd) hs)
    · have hr : f'.readBuffer = _ := congrArg (Prod.fst ∘ Prod.snd) hs
      exact (Uses.ensureStorage f).read.imp hr.trans fun h => ⟨h.1, hr.trans h.2⟩

end Moves

/-! ## Flushes and writes -/

omit [Kernel κ] in
theorem markError_moves (w : World κ) (e : Nat) : Moves w.file (markError w e).file := .state _ id

theorem setStorage_buffers (f : File) (m : Mem) (p : Storage) : (f.setStorage m p).buffers = f.buffers := by
  simp [File.buffers]

/-- A flush of pending output. -/
theorem flushLoop_moves (fuel : Nat) (w : World κ) (length completed : Nat) (h0 : w.file.writeLength ≠ 0) :
    Moves w.file (flushLoop fuel w length completed).2.file := by
  have hbare : ∀ {p : Prop}, w.file.writeLength = 0 ∧ w.file.readOffset = 0 ∧ w.file.readLength = 0 → p :=
    fun h => absurd h.1 h0
  induction fuel generalizing w completed with
  | zero => exact ⟨rfl, .inl rfl, fun _ h => hbare h, .inl, .inl⟩
  | succ n ih =>
    have hkeep : ∀ (k : κ) (left e : Nat), Moves w.file (keepUnwritten { w with kernel := k } completed left e).file := by
      intro k left e
      refine ⟨setStorage_mode .., .inl (setStorage_buffers ..), fun _ h => hbare h, fun hd => .inl fun hd' => hd ?_,
        fun hs => .inl ?_⟩
      · simpa [Drained, keepUnwritten, markError] using hd'
      · simpa [keepUnwritten, markError] using hs
    unfold flushLoop
    dsimp only
    generalize Kernel.write w.kernel _ = answer
    obtain ⟨result, k⟩ := answer
    split
    · split
      · exact hkeep _ _ _
      · split
        · exact hkeep _ _ _
        · exact ih { w with kernel := k } _ h0 hbare
    · exact ⟨rfl, .inl rfl, fun _ h => hbare h, .inl, .inl⟩

theorem stdioFlushBuffer_moves (w : World κ) : Moves w.file (stdioFlushBuffer w).2.file := by
  unfold stdioFlushBuffer
  split
  · exact .state _ id
  split
  · exact .refl _
  · rename_i h0
    exact (Moves.ensureStorage w.file).trans (flushLoop_moves _ { w with file := ensureStorage w.file } _ _ h0)

theorem fflush_moves (w : World κ) : Moves w.file (fflush w).2.file := by
  have h := stdioFlushBuffer_moves w
  unfold fflush
  split
  · exact .state _ id
  split
  · generalize stdioFlushBuffer w = r at h
    obtain ⟨_ | _, w1⟩ := r
    · exact h
    · exact h.trans (.state _ nofun)
  · exact .refl _

theorem flushAllStream_moves (w : World κ) : Moves w.file (flushAllStream w).2.file := by
  unfold flushAllStream
  split
  · exact stdioFlushBuffer_moves w
  · exact .refl _

omit [Kernel κ] in
theorem afterWrites_moves (w : World κ) (error : Option Nat) (k : κ) : Moves w.file (afterWrites w error k).file := by
  cases error with
  | none => exact .refl _
  | some e => exact .state _ id

/-- Appended bytes, on a stream that is not unbuffered. -/
theorem appendPending_moves {f : File} (hu : f.mode.unbuffered = false) (bytes : List UInt8) :
    Moves f (appendPending f bytes) where
  mode := appendPending_mode f bytes
  storage := .inl (by simp [File.buffers])
  bare h := absurd (hu.symm.trans h) Bool.false_ne_true
  unread hd := .inl fun hd' => hd (by simpa [Drained] using hd')
  sync hs := .inl (by simpa using hs)

/-- A buffered write, by its induction. -/
theorem writeLoop_moves {w : World κ} (hr : Ready w.file) (hu : w.file.mode.unbuffered = false) (data : List UInt8) :
    Moves w.file (writeLoop data.length w data).2.file := by
  have hflush : ∀ w' : World κ, Moves w.file w'.file → Moves w.file (stdioFlushBuffer w').2.file :=
    fun w' hm => hm.trans (stdioFlushBuffer_moves w')
  have happend : ∀ (w' : World κ) (bytes : List UInt8), Moves w.file w'.file →
      Moves w.file (appendPending w'.file bytes) :=
    fun w' bytes hm => hm.trans (appendPending_moves (hm.mode ▸ hu) bytes)
  have h := @writeLoop_rule κ _ (fun w' _ => Moves w.file w'.file) (fun _ => True)
    (fun w' _ _ hm => ⟨hflush w' hm, fun _ => trivial⟩) (fun w' _ bytes _ hm _ _ => happend w' bytes hm)
    data.length w data [] hr (.refl _) (Nat.le_refl data.length)
  exact h.2.2.1

theorem stdioWrite_moves {w : World κ} (h : Held w.file) (data : List UInt8) :
    Moves w.file (stdioWrite w data).2.file := by
  rcases stdioWrite_cases w data with ⟨-, hr⟩ | ⟨-, -, hr⟩ | ⟨hm, -, -, hr⟩
  · rw [hr]
    exact .refl _
  · rw [hr]
    exact .state _ id
  rw [hr]
  have hstart : Moves w.file (startWrite w).file := ⟨rfl, .inl rfl, fun _ h => h, .inl, fun _ => .inr hm⟩
  cases hu : w.file.mode.unbuffered with
  | true =>
    rw [if_pos rfl, writeRaw_eq]
    exact hstart.trans (afterWrites_moves _ _ _)
  | false =>
    rw [if_neg Bool.false_ne_true]
    have hready : Ready (ensureStorage (startWrite w).file) := ((h.directed hu).toSound.withState _).ready hm
    exact (hstart.trans (.ensureStorage _)).trans
      (writeLoop_moves (w := { startWrite w with file := ensureStorage (startWrite w).file }) hready hu data)

/-! ## Reads -/

theorem readUnbuffered_moves (fuel : Nat) (w : World κ) (n : Nat) : Moves w.file (readUnbuffered fuel w n).2.file := by
  induction fuel generalizing w n with
  | zero => exact .refl _
  | succ fuel ih =>
    unfold readUnbuffered
    split
    · exact .refl _
    dsimp only
    generalize Kernel.read w.kernel n = answer
    obtain ⟨result, k⟩ := answer
    split
    · exact .state _ id
    split
    · exact .state _ id
    split
    · exact .state _ id
    · rename_i bytes _ _ _
      have hmark : Moves w.file { w.file with state.readNeedsPosition := true } := .state _ id
      exact hmark.trans (ih { w with kernel := k, file.state.readNeedsPosition := true } (n - bytes.length))

/-- A buffered read, raw read by raw read. -/
theorem ReadRun.moves {w w' : World κ} {n : Nat} {l : List UInt8} (h : ReadRun w n l w')
    (hu : w.file.mode.unbuffered = false) (hm : w.file.mode.readable = true) : Moves w.file w'.file := by
  induction h with
  | done w => exact .refl _
  | @pushback w _ n _ _ _ _ ih =>
    have htake : Moves w.file (takePushback w.file (pushbackChunk w.file n)) := .of_reading hu hm rfl rfl rfl
    exact htake.trans (ih hu hm)
  | @cached w _ n _ _ _ _ _ ih =>
    have htake : Moves w.file (takeCached w.file (cachedChunk w.file n)) := .of_reading hu hm rfl rfl rfl
    exact htake.trans (ih hu hm)
  | eof _ _ _ => exact .refl _
  | @stop w w' n _ _ _ hr =>
    rcases refill_cases w with ⟨e, k, -, he⟩ | ⟨k, -, he⟩ | ⟨bytes, k, m, -, -, he⟩ | ⟨bytes, k, -, -, -, he⟩
    · obtain rfl := (Prod.mk.inj (hr.symm.trans he)).2
      exact .of_reading hu hm rfl rfl rfl
    · obtain rfl := (Prod.mk.inj (hr.symm.trans he)).2
      exact .of_reading hu hm rfl rfl rfl
    · obtain rfl := (Prod.mk.inj (hr.symm.trans he)).2
      exact .of_reading hu hm (setStorage_mode ..) (setStorage_buffers ..) (by simp [markError])
    · cases hr.symm.trans he
  | refill _ _ _ hr _ ih =>
    obtain ⟨bytes, k, -, -, -, rfl⟩ := refill_true hr
    have hmode : ∀ (f : File) (c : Nat), (takeCached (refilled f bytes) c).mode = f.mode := fun f c => refilled_mode f bytes
    refine (Moves.of_reading hu hm (hmode _ _) (by simp [File.buffers, takeCached])
      (by simp [takeCached])).trans (ih ?_ ?_)
    · rw [hmode]
      exact hu
    · rw [hmode]
      exact hm

theorem stdioRead_moves (w : World κ) (n : Nat) : Moves w.file (stdioRead w n).2.file := by
  rcases stdioRead_cases w n with ⟨-, hr⟩ | ⟨-, -, hr⟩ | ⟨hm, -, -, hr⟩
  · rw [hr]
    exact .refl _
  · rw [hr]
    exact .state _ id
  rw [hr]
  cases hu : w.file.mode.unbuffered with
  | true => exact readUnbuffered_moves n w n
  | false =>
    have hrun : ReadRun { w with file := ensureStorage w.file } n _ _ := readLoop_run (.inl (Nat.le_refl _))
    exact (Moves.ensureStorage w.file).trans (hrun.moves hu hm)

omit [Kernel κ] in
theorem stdioPushback_moves (w : World κ) (bytes : List UInt8) : Moves w.file (stdioPushback w bytes).2.file := by
  unfold stdioPushback
  split
  · exact .state _ id
  · rename_i h
    refine ⟨rfl, .inl rfl, fun _ h => h, fun _ => .inr ?_, .inl⟩
    simp only [Bool.not_eq_true'] at h
    by_contra hm
    exact h (.inl (by simpa using hm))

/-! ## Positions -/

/-- The file after a seek holds nothing. -/
theorem sought_moves {f : File} : Moves f (sought f) where
  mode := rfl
  storage := .inl rfl
  bare _ h := ⟨h.1, rfl, rfl⟩
  unread hd := absurd ⟨Nat.lt_irrefl 0, Nat.lt_irrefl 0⟩ hd
  sync := nofun

theorem fseek_moves (offset whence : Int) (w : World κ) : Moves w.file (fseek offset whence w).2.file := by
  have h := flushAllStream_moves w
  rcases fseek_cases offset whence w with ⟨-, hr⟩ | ⟨-, -, ⟨w1, hf, hr⟩ | ⟨w1, hf, ⟨-, hr⟩ | ⟨adj, -, ⟨e, k, -, hr⟩ | ⟨p, k, -, hr⟩⟩⟩⟩
  · rw [hr]
    exact .refl _
  all_goals rw [hf] at h; rw [hr]
  · exact h
  · exact h
  · exact h
  · exact h.trans sought_moves

theorem ftell_moves (w : World κ) : Moves w.file (ftell w).2.file := by
  obtain ⟨e, k, hr | ⟨-, hr⟩⟩ := ftell_cases w
  · rw [hr]
    exact .refl _
  · rw [hr]
    exact stdioFlushBuffer_moves w

/-! ## The operations -/

omit [Kernel κ] in
theorem requireByte_moves (w : World κ) : Moves w.file (requireByte w).2.file := by
  unfold requireByte
  split
  · exact .state _ id
  split
  · exact .state _ id
  split
  · exact .refl _
  · exact .state _ id

omit [Kernel κ] in
theorem requireWide_moves (w : World κ) (localeUtf8 : Bool) : Moves w.file (requireWide w localeUtf8).2.file := by
  unfold requireWide
  split
  · exact .state _ id
  split
  · exact .state _ id
  split
  · exact .refl _
  · exact .state _ id

/-- What moves a stream keeps it held, if it keeps a buffered one directed. -/
theorem Held.moved {f f' : File} (h : Held f) (hm : Moves f f') (hd : Directed f → Directed f') : Held f' where
  directed hu := hd (h.directed (hm.mode ▸ hu))
  bare hu := hm.bare (hm.mode ▸ hu) (h.bare (hm.mode ▸ hu))
  unread hd := by
    rw [hm.mode]
    exact (hm.unread hd).elim h.unread id
  sync hs := by
    rw [hm.mode]
    exact (hm.sync hs).elim h.sync id
  stored := by
    rcases hm.storage with hs | hs
    · simp only [File.buffers, Prod.mk.injEq] at hs
      rw [hs.1, hs.2.1, hs.2.2]
      exact h.stored
    · simp only [File.buffers, Prod.mk.injEq] at hs
      rw [hs.1, hs.2.1, hs.2.2]
      have h0 := (ensureStorage_bufferSize f).ne'
      exact ⟨iff_of_false (ensureStorage_writeBuffer f) h0, iff_of_false (ensureStorage_readBuffer f) h0⟩

omit [Kernel κ] in
/-- The cores of the byte operations run on a stream that is still held. -/
theorem byteOp_moves {α : Type} {fail : α} {core : World κ → α × World κ} {w : World κ} (h : Held w.file)
    (hcore : ∀ w : World κ, Held w.file → Moves w.file (core w).2.file) : Moves w.file (byteOp fail core w).2.file := by
  have hm := requireByte_moves w
  have hd : Held (requireByte w).2.file := h.moved hm fun hd => requireByte_directed hd
  unfold byteOp
  generalize requireByte w = r at hm hd
  obtain ⟨_ | _, w1⟩ := r
  · exact hm
  · exact hm.trans (hcore w1 hd)

theorem fgetcCore_moves (w : World κ) : Moves w.file (fgetcCore w).2.file := by
  have h := stdioRead_moves w 1
  unfold fgetcCore
  generalize stdioRead w 1 = r at h
  split <;> exact h

/-- A line is read byte by byte. -/
theorem fgetsLoop_moves (room : Nat) (w : World κ) : Moves w.file (fgetsLoop room w).2.2.file := by
  induction room generalizing w with
  | zero => exact .refl _
  | succ room ih =>
    have h := fgetcCore_moves w
    unfold fgetsLoop
    generalize fgetcCore w = r at h
    obtain ⟨_ | value, w1⟩ := r
    · exact h
    · dsimp only at h ⊢
      split
      · exact h
      · exact h.trans (ih w1)

theorem fgetsCore_moves (n : Int) (w : World κ) : Moves w.file (fgetsCore n w).2.file := by
  have h := fgetsLoop_moves (n - 1).toNat w
  unfold fgetsCore
  split
  · exact .state _ id
  split
  · exact .refl _
  dsimp only
  generalize fgetsLoop (n - 1).toNat w = r at h
  obtain ⟨line, ok, w1⟩ := r
  dsimp only at h ⊢
  split
  · exact h
  split <;> exact h

omit [Kernel κ] in
theorem ungetcCore_moves (c : Int) (w : World κ) : Moves w.file (ungetcCore c w).2.file := by
  have h := stdioPushback_moves w [unsignedChar c]
  unfold ungetcCore
  split
  · exact .refl _
  dsimp only
  generalize stdioPushback w [unsignedChar c] = r at h
  obtain ⟨_ | _, w1⟩ := r <;> exact h

theorem fputcCore_moves (c : Int) {w : World κ} (hw : Held w.file) : Moves w.file (fputcCore c w).2.file := by
  have h := stdioWrite_moves hw [unsignedChar c]
  unfold fputcCore
  dsimp only
  generalize stdioWrite w [unsignedChar c] = r at h
  split <;> exact h

theorem fputsCore_moves (s : List UInt8) {w : World κ} (hw : Held w.file) : Moves w.file (fputsCore s w).2.file := by
  unfold fputsCore
  split
  · exact .state _ id
  · exact stdioWrite_moves hw s

theorem freadCore_moves (size nmemb : Nat) (w : World κ) : Moves w.file (freadCore size nmemb w).2.file := by
  unfold freadCore
  split
  · exact .refl _
  split
  · exact .state _ id
  · exact stdioRead_moves w _

theorem fwriteCore_moves (data : List UInt8) (size nmemb : Nat) {w : World κ} (hw : Held w.file) :
    Moves w.file (fwriteCore data size nmemb w).2.file := by
  unfold fwriteCore
  split
  · exact .refl _
  split
  · exact .state _ id
  split
  · exact .state _ id
  · exact stdioWrite_moves hw _

/-- Every operation but `setvbuf`. -/
def UpdateOp.Moving : UpdateOp → Prop
  | .setvbuf .. => False
  | _ => True

/-- Each operation by its own lemma. -/
theorem UpdateOp.after_moves {w : World κ} (h : Held w.file) {op : UpdateOp} (hop : op.Moving) :
    Moves w.file (op.after w).file := by
  cases op with
  | read n => exact stdioRead_moves w n
  | write data => exact stdioWrite_moves h data
  | pushback bytes => exact stdioPushback_moves w bytes
  | requireWide localeUtf8 => exact requireWide_moves w localeUtf8
  | markError error => exact markError_moves w error
  | fgetc => exact byteOp_moves h fun w _ => fgetcCore_moves w
  | fgets n => exact byteOp_moves h fun w _ => fgetsCore_moves n w
  | ungetc c => exact byteOp_moves h fun w _ => ungetcCore_moves c w
  | fputc c => exact byteOp_moves h fun w hw => fputcCore_moves c hw
  | fputs s => exact byteOp_moves h fun w hw => fputsCore_moves s hw
  | fread size nmemb => exact byteOp_moves h fun w _ => freadCore_moves size nmemb w
  | fwrite data size nmemb => exact byteOp_moves h fun w hw => fwriteCore_moves data size nmemb hw
  | fflush => exact fflush_moves w
  | flushAll => exact flushAllStream_moves w
  | fseek offset whence => exact fseek_moves offset whence w
  | ftell => exact ftell_moves w
  | rewind => exact (fseek_moves 0 seekSet w).trans (.state _ id)
  | clearerr => exact .state _ id
  | setvbuf buffer mode size => exact absurd hop not_false

/-- The operations keep a stream held. -/
theorem UpdateOp.after_held {w : World κ} (h : Held w.file) {op : UpdateOp} (hop : op.Moving) :
    Held (op.after w).file := by
  refine h.moved (after_moves h hop) fun hd => after_directed hd ?_
  cases op <;> first | exact trivial | exact absurd hop not_false

end MiniLibc.Stdio
