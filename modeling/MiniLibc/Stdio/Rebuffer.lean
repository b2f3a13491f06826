import MiniLibc.Stdio.Held
import MiniLibc.Stdio.Output
import MiniLibc.Stdio.Pushback
import MiniLibc.Stdio.Seek
/-!
# Before the buffer is replaced

`setvbuf` first flushes and then repositions, and only then lets go of the old
buffer. Where one of the two fails, the stream holds what it held, but an
unbuffered stream does not read what was pushed back on it; where both succeed,
it holds nothing, and its descriptor stands where the stream stood.
-/
open MiniLibc.Memory

namespace MiniLibc.Stdio

variable {κ : Type} [Kernel κ]

/-- The flush of `setvbuf`. -/
def syncOutput (w : World κ) : Bool × World κ := if w.file.mode.writable then fflush w else (true, w)

/-- The seek of `setvbuf`. -/
def leaveInput (w : World κ) : Bool × World κ :=
  if w.file.mode.readable ∧ (w.file.state.readNeedsPosition ∨ w.file.readOffset ≠ w.file.readLength ∨
    w.file.pushbackOffset < w.file.pushbackLength) then fseek 0 seekCur w else (true, w)

/-! ## What a failure leaves -/

/-- The stream is as it was, but for bytes that went from its buffer to the file. -/
structure Undisturbed (w w' : World (Logged κ)) : Prop where
  held : Held w'.file
  mode : w'.file.mode = w.file.mode
  buffers : w'.file.buffers = w.file.buffers
  pushback : w'.file.pushback = w.file.pushback
  cached : w'.file.cached = w.file.cached
  output : w'.output = w.output

namespace Undisturbed

variable {w w' w'' : World (Logged κ)}

omit [Kernel κ] in
theorem refl (h : Held w.file) : Undisturbed w w := ⟨h, rfl, rfl, rfl, rfl, rfl⟩

omit [Kernel κ] in
theorem trans (h : Undisturbed w w') (h' : Undisturbed w' w'') : Undisturbed w w'' :=
  ⟨h'.held, h'.mode.trans h.mode, h'.buffers.trans h.buffers, h'.pushback.trans h.pushback, h'.cached.trans h.cached,
    h'.output.trans h.output⟩

end Undisturbed

omit [Kernel κ] in
/-- Pending output is in storage that is there already. -/
theorem Held.ensure_buffers {f : File} (h : Held f) (h0 : f.writeLength ≠ 0) :
    (ensureStorage f).buffers = f.buffers := by
  have hsize : f.bufferSize ≠ 0 := by
    have := h.sound.write_le
    omega
  have hw : f.writeBuffer ≠ .null := fun hn => hsize (h.stored.1.1 hn)
  have hr : f.readBuffer ≠ .null := fun hn => hsize (h.stored.2.1 hn)
  simp [File.buffers, ensureStorage, hsize, hw, hr]

theorem stdioFlushBuffer_undisturbed {w : World (Logged κ)} (h : Held w.file) (hm : w.file.mode.writable = true) :
    Undisturbed w (stdioFlushBuffer w).2 ∧ ((stdioFlushBuffer w).1 = true → (stdioFlushBuffer w).2.file.writeLength = 0) := by
  obtain ⟨hframe, hzero⟩ := stdioFlushBuffer_frame hm h.sound
  have hmoves := stdioFlushBuffer_moves w
  refine ⟨⟨h.moved hmoves fun hd => hd.of_flush hframe, hframe.mode, ?_, hframe.pushback, ?_, flush_output hm h.sound⟩, hzero⟩
  · by_cases h0 : w.file.writeLength = 0
    · have : stdioFlushBuffer w = (true, w) := by
        unfold stdioFlushBuffer
        rw [if_neg (by simp [hm]), if_pos h0]
      rw [this]
    · exact hmoves.storage.elim id fun hs => hs.trans (h.ensure_buffers h0)
  · cases hu : w.file.mode.unbuffered with
    | false => exact stdioFlushBuffer_cached (h.directed hu)
    | true =>
      have hnil : w.file.cached = [] := by
        apply List.eq_nil_of_length_eq_zero
        rw [cached_length, (h.bare hu).2.2]
        exact Nat.zero_sub _
      rw [hframe.cached_nil hnil, hnil]

omit [Kernel κ] in
/-- Lowering the barrier behind a flush. -/
theorem Undisturbed.clearSync {w w' : World (Logged κ)} (h : Undisturbed w w') (h0 : w'.file.writeLength = 0) :
    Undisturbed w { w' with file.state.writeNeedsSync := false } where
  held := h.held.moved (.state _ nofun) fun hd => hd.clearSync h0
  mode := h.mode
  buffers := h.buffers
  pushback := h.pushback
  cached := h.cached
  output := h.output

/-- A flush leaves the stream undisturbed, and after one that succeeds nothing is
pending and the barrier is down. -/
theorem syncOutput_undisturbed {w : World (Logged κ)} (h : Held w.file) :
    Undisturbed w (syncOutput w).2 ∧ ((syncOutput w).1 = true →
      (syncOutput w).2.file.writeLength = 0 ∧ (syncOutput w).2.file.state.writeNeedsSync = false) := by
  unfold syncOutput
  split
  · rename_i hm
    obtain ⟨hkept, hzero⟩ := stdioFlushBuffer_undisturbed h hm
    unfold fflush
    rw [if_neg (by simp [validStream, hm]), if_pos hm]
    generalize stdioFlushBuffer w = r at hkept hzero
    obtain ⟨_ | _, w1⟩ := r
    · exact ⟨hkept, by rintro ⟨⟩⟩
    · exact ⟨hkept.clearSync (hzero rfl), fun _ => ⟨hzero rfl, rfl⟩⟩
  · rename_i hm
    refine ⟨.refl h, fun _ => ⟨?_, ?_⟩⟩
    · -- Only a writable stream has output pending, and only one has its barrier up.
      by_contra h0
      cases hu : w.file.mode.unbuffered with
      | true => exact h0 (h.bare hu).1
      | false => exact hm ((h.directed hu).writes (Nat.pos_of_ne_zero h0))
    · by_contra hs
      exact hm (h.sync (by simpa using hs))

theorem flushAllStream_zero {w : World (Logged κ)} (h0 : w.file.writeLength = 0) : flushAllStream w = (true, w) := by
  unfold flushAllStream
  split
  · rename_i hm
    unfold stdioFlushBuffer
    rw [if_neg (by simp [hm]), if_pos h0]
  · rfl

/-- The seek of a stream with nothing pending fails and leaves the stream
undisturbed, or moves the descriptor back over the unread input. -/
theorem leaveInput_cases {w : World (Logged κ)} (h : Held w.file) (h0 : w.file.writeLength = 0) :
    (leaveInput w = (true, w) ∧ Drained w.file) ∨
    ((leaveInput w).1 = false ∧ Undisturbed w (leaveInput w).2) ∨
    ∃ position k, Kernel.lseek w.kernel (wrapLong (0 - unreadInput w.file)) seekCur = (.ok position, k) ∧
      unreadInput w.file ≤ maxLong ∧ leaveInput w = (true, { w with kernel := k, file := sought w.file }) := by
  unfold leaveInput
  split
  · rename_i hm
    right
    rcases fseek_cases 0 seekCur w with ⟨hbad, -⟩ | ⟨-, -, ⟨w1, hf, -⟩ | ⟨w1, hf, ⟨-, hr⟩ | ⟨adj, hadj, ⟨e, k, hk, hr⟩ | ⟨p, k, hk, hr⟩⟩⟩⟩
    · refine absurd hbad ?_
      simp [validStream, hm.1]
    · rw [flushAllStream_zero h0] at hf
      cases hf
    · rw [flushAllStream_zero h0] at hf
      cases hf
      rw [hr]
      exact .inl ⟨rfl, h, rfl, rfl, rfl, rfl, rfl⟩
    · rw [flushAllStream_zero h0] at hf
      cases hf
      rw [hr]
      have hlog : k.written = w.kernel.written := by
        rw [← show (Kernel.lseek w.kernel adj seekCur).2 = k from by rw [hk]]
        rfl
      refine .inl ⟨rfl, h, rfl, rfl, rfl, rfl, ?_⟩
      unfold World.output
      rw [hlog]
    · rw [flushAllStream_zero h0] at hf
      cases hf
      unfold seekOffset at hadj
      rw [if_pos rfl] at hadj
      dsimp only at hadj
      split at hadj
      · cases hadj
      · rename_i hle
        obtain rfl := Option.some.inj hadj
        exact .inr ⟨p, k, hk, by omega, hr⟩
  · rename_i hm
    refine .inl ⟨rfl, ?_⟩
    by_contra hd
    have hread := h.unread hd
    refine hm ⟨hread, ?_⟩
    by_contra hn
    simp only [not_or] at hn
    refine hd ⟨hn.2.2, ?_⟩
    have := hn.2.1
    omega

/-! ## Reading what is held -/

/-- One pass takes bytes that are cached. -/
theorem cached_run {w : World κ} {n : Nat} (h0 : 0 < n) (hp : ¬ w.file.pushbackOffset < w.file.pushbackLength)
    (hn : n ≤ w.file.cached.length) : ∃ w', ReadRun w n (w.file.cached.take n) w' := by
  rw [cached_length] at hn
  have hchunk : cachedChunk w.file n = n := Nat.min_eq_right hn
  have hrun : ReadRun { w with file := takeCached w.file (cachedChunk w.file n) } (n - cachedChunk w.file n) []
      { w with file := takeCached w.file (cachedChunk w.file n) } := by
    rw [hchunk, Nat.sub_self]
    exact .done _
  have h := ReadRun.cached h0 hp (by omega) hrun
  rw [hchunk, List.append_nil, ← bytesAt_take _ _ hn] at h
  exact ⟨_, h⟩

/-- At most one pass more takes bytes that were pushed back before them. -/
theorem unread_run {w : World κ} {n : Nat} (h0 : 0 < n) (hn : n ≤ (w.file.pushback ++ w.file.cached).length) :
    ∃ w', ReadRun w n ((w.file.pushback ++ w.file.cached).take n) w' := by
  rw [List.length_append] at hn
  by_cases hp : w.file.pushbackOffset < w.file.pushbackLength
  · have hlen := pushback_length w.file
    rw [List.take_append]
    by_cases hfew : n ≤ w.file.pushback.length
    · have hchunk : pushbackChunk w.file n = n := Nat.min_eq_right (by omega)
      have hrun : ReadRun { w with file := takePushback w.file (pushbackChunk w.file n) } (n - pushbackChunk w.file n) []
          { w with file := takePushback w.file (pushbackChunk w.file n) } := by
        rw [hchunk, Nat.sub_self]
        exact .done _
      have h := ReadRun.pushback h0 hp hrun
      rw [hchunk, List.append_nil, ← bytesAt_take _ _ (hlen ▸ hfew)] at h
      rw [show n - w.file.pushback.length = 0 by omega, List.take_zero, List.append_nil]
      exact ⟨_, h⟩
    · have hchunk : pushbackChunk w.file n = w.file.pushback.length := by
        unfold pushbackChunk
        omega
      let w₁ : World κ := { w with file := takePushback w.file (pushbackChunk w.file n) }
      have hempty : ¬ w₁.file.pushbackOffset < w₁.file.pushbackLength := by
        have hall : w.file.pushbackOffset + pushbackChunk w.file n = w.file.pushbackLength := by omega
        simp [w₁, takePushback, hall]
      have hcached : w₁.file.cached = w.file.cached := rfl
      obtain ⟨w', hrun⟩ := cached_run (w := w₁) (n := n - pushbackChunk w.file n) (by omega) hempty
        (by rw [hcached]; omega)
      have h := ReadRun.pushback h0 hp hrun
      refine ⟨w', ?_⟩
      rw [hcached, hchunk] at h
      rw [List.take_of_length_le (by omega)]
      rw [hlen] at h ⊢
      exact h
  · have hnil : w.file.pushback = [] := List.eq_nil_of_length_eq_zero (by rw [pushback_length]; omega)
    rw [hnil, List.nil_append]
    refine cached_run h0 hp ?_
    rwa [hnil, List.length_nil, Nat.zero_add] at hn

/-- A read delivers what is held first, and in order. -/
theorem Held.read_unread {w : World κ} (h : Held w.file) (hu : w.file.mode.unbuffered = false) {n : Nat}
    (hn : n ≤ (w.file.pushback ++ w.file.cached).length) :
    (stdioRead w n).1 = (w.file.pushback ++ w.file.cached).take n := by
  rcases Nat.eq_zero_or_pos n with rfl | h0
  · unfold stdioRead
    rw [if_pos rfl, List.take_zero]
  have hd := h.directed hu
  have hundrained : ¬ Drained w.file := by
    intro hdrained
    rw [hdrained.nil.1, hdrained.nil.2] at hn
    exact absurd hn (Nat.not_le.2 h0)
  have hsync : w.file.state.writeNeedsSync = false := by
    by_contra hs
    exact hd.oneWay ⟨hd.unread hundrained, by simpa using hs⟩
  have hcached : (ensureStorage w.file).cached = w.file.cached := hd.toSound.ensure_cached
  have hpushback : (ensureStorage w.file).pushback = w.file.pushback := rfl
  obtain ⟨w', hrun⟩ := unread_run (w := { w with file := ensureStorage w.file }) h0
    (by rw [hcached, hpushback]; exact hn)
  have heq := ReadRun.stdioRead_eq (h.unread hundrained) hsync hu h0 hrun
  rw [heq]
  dsimp only
  rw [hcached, hpushback]

/-- From `f'` a read delivers first, and in order, what `f` held as input. -/
def Readable (f f' : File) : Prop :=
  ∀ (κ : Type) [Kernel κ] (k : κ) (errno n : Nat), n ≤ (f.pushback ++ f.cached).length →
    (stdioRead (⟨f', k, errno⟩ : World κ) n).1 = (f.pushback ++ f.cached).take n

omit [Kernel κ] in
/-- What an undisturbed stream held is read from it, unless it is pushback on an
unbuffered stream. -/
theorem Undisturbed.readable_iff {w w' : World (Logged κ)} (h : Undisturbed w w') :
    Readable w.file w'.file ↔ (w.file.mode.unbuffered = true → w.file.pushback = []) := by
  constructor
  · intro hread hu
    by_contra hne
    have hpos := List.length_pos_of_ne_nil hne
    have hfirst := hread Regular broken 0 1 (by rw [List.length_append]; omega)
    have hnil : (stdioRead (⟨w'.file, broken, 0⟩ : World Regular) 1).1 = [] := by
      rcases stdioRead_cases (⟨w'.file, broken, 0⟩ : World Regular) 1 with ⟨h0, -⟩ | ⟨-, -, hr⟩ | ⟨hm, hs, -, -⟩
      · cases h0
      · rw [hr]
      · exact stdioRead_broken hm hs ((congrArg Mode.unbuffered h.mode).trans hu) 0
    have hlen := congrArg List.length (hnil.symm.trans hfirst)
    rw [List.length_take, List.length_append, List.length_nil] at hlen
    omega
  · intro hcond κ' _ k errno n hn
    rw [← h.pushback, ← h.cached] at hn ⊢
    cases hu : w'.file.mode.unbuffered with
    | false => exact Held.read_unread (w := ⟨w'.file, k, errno⟩) h.held hu hn
    | true =>
      have hcached : w'.file.cached = [] := by
        apply List.eq_nil_of_length_eq_zero
        rw [cached_length, (h.held.bare hu).2.2]
        exact Nat.zero_sub _
      rw [h.mode] at hu
      rw [h.pushback, hcond hu, hcached] at hn ⊢
      obtain rfl := Nat.le_zero.1 hn
      rfl

/-! ## The position -/

/-- What the calls do to the offset of a descriptor, for a stream that appends or
not: an `lseek` returns the new one, which is a `long`, and a write moves over
what it took, unless it goes to the end of the file first. -/
structure Tracks (offset : κ → Nat) (append : Bool) : Prop where
  sought : ∀ {k : κ} {x whence : Int} {n : Nat} {k' : κ}, Kernel.lseek k x whence = (.ok n, k') →
    offset k' = n ∧ n ≤ maxLong ∧ (whence = seekCur → (n : Int) = offset k + x)
  written : append = false → ∀ {k : κ} {data : List UInt8} {n : Nat} {k' : κ}, Kernel.write k data = (.ok n, k') →
    n ≤ data.length → offset k' = offset k + n

theorem Tracks.rawWrites {offset : κ → Nat} (h : Tracks offset false) (fuel : Nat) (k : κ) (data : List UInt8)
    (hok : (rawWrites fuel k data).2.1 = none) :
    offset (rawWrites fuel k data).2.2 = offset k + (rawWrites fuel k data).1 := by
  induction fuel generalizing k data with
  | zero => rfl
  | succ fuel ih =>
    unfold Stdio.rawWrites at hok ⊢
    split
    · rfl
    rename_i h0
    rw [if_neg h0] at hok
    split
    · rename_i hw
      rw [hw] at hok
      cases hok
    · rename_i count k' hw
      rw [hw] at hok
      dsimp only at hok
      split
      · rename_i hbad
        rw [if_pos hbad] at hok
        cases hok
      · rename_i hgood
        rw [if_neg hgood] at hok
        dsimp only at hok ⊢
        rw [ih k' (data.drop count) hok, h.written rfl hw (by omega), Nat.add_assoc]

/-- A flush that succeeds. -/
theorem flush_position {w w₁ : World κ} (h : Held w.file) (hm : w.file.mode.writable = true)
    (hf : stdioFlushBuffer w = (true, w₁)) :
    unreadInput w₁.file = unreadInput w.file ∧ w₁.file.writeLength = 0 ∧
      ∀ {offset : κ → Nat}, Tracks offset false → offset w₁.kernel = offset w.kernel + w.file.writeLength := by
  obtain ⟨hframe, hzero⟩ := stdioFlushBuffer_frame hm h.sound
  obtain ⟨n, error, k, hr, -, herr, hspec⟩ := stdioFlushBuffer_spec hm h.sound
  rw [hf] at hframe hzero
  refine ⟨?_, hzero rfl, fun {offset} ht => ?_⟩
  · unfold unreadInput
    rw [hframe.readOffset, hframe.readLength, hframe.pushbackOffset, hframe.pushbackLength]
  · rw [hf] at hspec
    obtain ⟨hok, hw⟩ := Prod.mk.inj hspec
    have hnone : error = none := by
      cases error with
      | none => rfl
      | some e => cases hok
    have hmoved := ht.rawWrites w.file.writeLength w.kernel w.file.pending (by rw [hr]; exact hnone)
    rw [hr] at hmoved
    rw [hw, afterWrites_kernel, hmoved, herr.1 hnone]

/-- The stream of a tell that succeeds, after the flush of one that appends. -/
theorem ftell_some {w : World κ} {p : Int} (h : (ftell w).1 = some p) :
    ∃ w₁, (if w.file.mode.append ∧ w.file.writeLength ≠ 0 then stdioFlushBuffer w else (true, w)) = (true, w₁) ∧
      ∃ n k, Kernel.lseek w₁.kernel 0 seekCur = (.ok n, k) ∧
        p = wrapLong (wrapLong (n + w₁.file.writeLength) - unreadInput w₁.file) := by
  unfold ftell at h
  split at h
  · cases h
  generalize (if w.file.mode.append ∧ w.file.writeLength ≠ 0 then stdioFlushBuffer w else (true, w)) = r at h ⊢
  obtain ⟨_ | _, w₁⟩ := r
  · cases h
  refine ⟨w₁, rfl, ?_⟩
  dsimp only at h
  generalize Kernel.lseek w₁.kernel 0 seekCur = answer at h ⊢
  obtain ⟨e | n, k⟩ := answer
  · cases h
  dsimp only at h
  split at h
  · cases h
  split at h
  · cases h
  · exact ⟨n, k, rfl, (Option.some.inj h).symm⟩

theorem wrapLong_sub (x y : Int) : wrapLong (wrapLong x - y) = wrapLong (x - y) := Int.bmod_sub_bmod

/-- After the flush of `setvbuf` the descriptor stands where the stream stood, but
for the unread input. -/
theorem syncOutput_position {w w₁ : World κ} (h : Held w.file) (hs : syncOutput w = (true, w₁)) {offset : κ → Nat}
    (ht : Tracks offset w.file.mode.append) {p : Int} (hp : (ftell w).1 = some p) :
    p = wrapLong (offset w₁.kernel - unreadInput w₁.file) := by
  obtain ⟨w₀, hf, n, k, hk, hvalue⟩ := ftell_some hp
  obtain ⟨hn, -, hcur⟩ := ht.sought hk
  have hoffset : n = offset w₀.kernel := by
    have := hcur rfl
    omega
  have hwl : ¬ w.file.mode.writable = true → w.file.writeLength = 0 := by
    intro hm
    by_contra h0
    cases hu : w.file.mode.unbuffered with
    | true => exact h0 (h.bare hu).1
    | false => exact hm ((h.directed hu).writes (Nat.pos_of_ne_zero h0))
  rw [hvalue, wrapLong_sub, hoffset]
  congr 1
  unfold syncOutput at hs
  by_cases hm : w.file.mode.writable = true
  · -- The flush of the tell, if there is one, is the one of `setvbuf`.
    rw [if_pos hm] at hs
    unfold fflush at hs
    rw [if_neg (by simp [validStream, hm]), if_pos hm] at hs
    obtain ⟨⟨ok, w₂⟩, hflush⟩ : ∃ r, stdioFlushBuffer w = r := ⟨_, rfl⟩
    rw [hflush] at hs hf
    cases ok with
    | false => cases hs
    | true =>
      obtain ⟨hunread, hzero, hmoved⟩ := flush_position h hm hflush
      obtain rfl := (Prod.mk.inj hs).2
      show _ = (offset w₂.kernel : Int) - unreadInput w₂.file
      by_cases ha : w.file.mode.append ∧ w.file.writeLength ≠ 0
      · rw [if_pos ha] at hf
        obtain rfl := (Prod.mk.inj hf).2
        rw [hzero]
        simp
      · rw [if_neg ha] at hf
        obtain rfl := (Prod.mk.inj hf).2
        rw [hunread]
        by_cases happ : w.file.mode.append = true
        · have h0 : w.file.writeLength = 0 := by
            by_contra h0
            exact ha ⟨happ, h0⟩
          have hsame : stdioFlushBuffer w = (true, w) := by
            unfold stdioFlushBuffer
            rw [if_neg (by simp [hm]), if_pos h0]
          obtain rfl := (Prod.mk.inj (hsame.symm.trans hflush)).2
          rw [h0]
          simp
        · rw [(Bool.not_eq_true _).mp happ] at ht
          rw [hmoved ht]
          push_cast
          rfl
  · rw [if_neg hm] at hs
    obtain rfl := (Prod.mk.inj hs).2
    rw [if_neg (fun ha => ha.2 (hwl hm))] at hf
    obtain rfl := (Prod.mk.inj hf).2
    rw [hwl hm]
    simp

/-- The flush and the seek of `setvbuf` keep the position `ftell` tells. -/
theorem setvbuf_position {w w₁ w₂ w₃ : World κ} (h : Held w.file) (hs : syncOutput w = (true, w₁))
    (hl : (leaveInput w₁ = (true, w₁) ∧ Drained w₁.file ∧ w₂ = w₁) ∨
      ∃ position k, Kernel.lseek w₁.kernel (wrapLong (0 - unreadInput w₁.file)) seekCur = (.ok position, k) ∧
        unreadInput w₁.file ≤ maxLong ∧ w₂.kernel = k)
    (hk : w₃.kernel = w₂.kernel) (h0 : w₃.file.writeLength = 0) (hd : unreadInput w₃.file = 0) {offset : κ → Nat}
    (ht : Tracks offset w.file.mode.append) {p p' : Int} (hp : (ftell w).1 = some p) (hp' : (ftell w₃).1 = some p') :
    p' = p := by
  have hold := syncOutput_position h hs ht hp
  obtain ⟨w₀, hf, n, k, hsought, hvalue⟩ := ftell_some hp'
  rw [if_neg (fun ha => ha.2 h0)] at hf
  obtain rfl := (Prod.mk.inj hf).2
  obtain ⟨-, hmax, hcur⟩ := ht.sought hsought
  have hnew : (n : Int) = offset w₁.kernel - unreadInput w₁.file := by
    have hn := hcur rfl
    rw [hk, Int.add_zero] at hn
    rcases hl with ⟨-, hdrained, rfl⟩ | ⟨position, k', hseek, hle, rfl⟩
    · have hnone : unreadInput w₂.file = 0 := by
        obtain ⟨hd1, hd2⟩ := hdrained
        unfold unreadInput
        split <;> split <;> omega
      rw [hnone, hn]
      simp
    · obtain ⟨hat, -, hrel⟩ := ht.sought hseek
      have hrel := hrel rfl
      have hmaxlong : (maxLong : Int) = 2 ^ 63 - 1 := by norm_num [maxLong]
      rw [wrapLong_eq (by omega) (by omega)] at hrel
      omega
  rw [hvalue, hold, ← hnew, h0, hd, wrapLong_sub]
  simp

end MiniLibc.Stdio
