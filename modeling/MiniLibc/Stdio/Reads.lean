import MiniLibc.Stdio.Steps
/-!
# What a buffered read does

`ReadRun` is the loop of a buffered read without its bound: each pass takes from
the pushback, takes from the cache, or refills an empty cache and takes from
that. What each pass preserves, by induction on the run the whole read does.
-/
open MiniLibc.Memory

namespace MiniLibc.Stdio

variable {κ : Type} [Kernel κ]

/-- Neither pushed-back nor cached bytes are left. -/
def Drained (f : File) : Prop := ¬ f.pushbackOffset < f.pushbackLength ∧ ¬ f.readOffset < f.readLength

/-- The bytes a pass takes from the pushback. -/
def pushbackChunk (f : File) (n : Nat) : Nat := min (f.pushbackLength - f.pushbackOffset) n

/-- The bytes a pass takes from the cache. -/
def cachedChunk (f : File) (n : Nat) : Nat := min (f.readLength - f.readOffset) n

/-- The passes of a read of `n` bytes, from one world to another. -/
inductive ReadRun : World κ → Nat → List UInt8 → World κ → Prop where
  | done (w : World κ) : ReadRun w 0 [] w
  | pushback {w w' : World κ} {n : Nat} {rest : List UInt8} : 0 < n →
      w.file.pushbackOffset < w.file.pushbackLength →
      ReadRun { w with file := takePushback w.file (pushbackChunk w.file n) } (n - pushbackChunk w.file n) rest w' →
      ReadRun w n (bytesAt w.file.pushbackBytes w.file.pushbackOffset (pushbackChunk w.file n) ++ rest) w'
  | cached {w w' : World κ} {n : Nat} {rest : List UInt8} : 0 < n →
      ¬ w.file.pushbackOffset < w.file.pushbackLength → w.file.readOffset < w.file.readLength →
      ReadRun { w with file := takeCached w.file (cachedChunk w.file n) } (n - cachedChunk w.file n) rest w' →
      ReadRun w n (bytesAt (w.file.storage w.file.readBuffer) w.file.readOffset (cachedChunk w.file n) ++ rest) w'
  | eof {w : World κ} {n : Nat} : 0 < n → Drained w.file → w.file.state.eof = true → ReadRun w n [] w
  | stop {w w' : World κ} {n : Nat} : 0 < n → Drained w.file → w.file.state.eof = false →
      refill w = (false, w') → ReadRun w n [] w'
  | refill {w w₁ w' : World κ} {n : Nat} {rest : List UInt8} : 0 < n → Drained w.file → w.file.state.eof = false →
      refill w = (true, w₁) →
      ReadRun { w₁ with file := takeCached w₁.file (cachedChunk w₁.file n) } (n - cachedChunk w₁.file n) rest w' →
      ReadRun w n (bytesAt (w₁.file.storage w₁.file.readBuffer) w₁.file.readOffset (cachedChunk w₁.file n) ++ rest) w'

/-! ## One refill -/

/-- The file with new input in its cache. -/
def refilled (f : File) (bytes : List UInt8) : File :=
  { f.setStorage (fill (f.storage f.readBuffer) 0 bytes) f.readBuffer with
    readOffset := 0, readLength := bytes.length }

/-- The file at the end of its input. -/
def atEof (f : File) : File :=
  { f with readOffset := 0, readLength := 0, state := { f.state with eof := true, readNeedsPosition := false } }

/-- A refill fails, finds the end, gets an answer no kernel gives, or succeeds. -/
theorem refill_cases (w : World κ) :
    (∃ e k, Kernel.read w.kernel w.file.bufferSize = (.error e, k) ∧
      refill w = (false, markError { w with kernel := k, file.state.readNeedsPosition := true } e)) ∨
    (∃ k, Kernel.read w.kernel w.file.bufferSize = (.ok [], k) ∧
      refill w = (false, { w with kernel := k, file := atEof w.file })) ∨
    (∃ bytes k m, Kernel.read w.kernel w.file.bufferSize = (.ok bytes, k) ∧ w.file.bufferSize < bytes.length ∧
      refill w = (false, markError { w with
        kernel := k
        file := { w.file.setStorage m w.file.readBuffer with state.readNeedsPosition := true } } eio)) ∨
    (∃ bytes k, Kernel.read w.kernel w.file.bufferSize = (.ok bytes, k) ∧ bytes ≠ [] ∧
      bytes.length ≤ w.file.bufferSize ∧
      refill w = (true, { w with kernel := k, file := refilled w.file bytes })) := by
  obtain ⟨⟨answer, k⟩, hr⟩ : ∃ r, Kernel.read w.kernel w.file.bufferSize = r := ⟨_, rfl⟩
  rw [hr]
  unfold Stdio.refill
  rw [hr]
  cases answer with
  | error e => exact .inl ⟨e, k, rfl, rfl⟩
  | ok bytes =>
    right
    dsimp only
    by_cases h0 : bytes.length = 0
    · obtain rfl := List.eq_nil_of_length_eq_zero h0
      exact .inl ⟨k, rfl, rfl⟩
    right
    rw [if_neg h0]
    by_cases hbig : bytes.length > w.file.bufferSize
    · left
      rw [if_pos hbig]
      exact ⟨bytes, k, _, rfl, hbig, rfl⟩
    · right
      refine ⟨bytes, k, rfl, fun h => h0 (by rw [h]; rfl), by omega, ?_⟩
      rw [if_neg hbig, List.take_of_length_le (by omega)]
      rfl

/-- New input is in the cache, and nowhere else. -/
theorem refill_true {w w' : World κ} (h : refill w = (true, w')) :
    ∃ bytes k, Kernel.read w.kernel w.file.bufferSize = (.ok bytes, k) ∧ bytes ≠ [] ∧
      bytes.length ≤ w.file.bufferSize ∧ w' = { w with kernel := k, file := refilled w.file bytes } := by
  rcases refill_cases w with ⟨e, k, -, hr⟩ | ⟨k, -, hr⟩ | ⟨bytes, k, m, -, -, hr⟩ | ⟨bytes, k, hk, h0, hle, hr⟩
  · rw [h] at hr; simp at hr
  · rw [h] at hr; simp at hr
  · rw [h] at hr; simp at hr
  · rw [h] at hr
    exact ⟨bytes, k, hk, h0, hle, (Prod.mk.inj hr).2⟩

section
variable (f : File) (bytes : List UInt8)

@[simp] theorem refilled_mode : (refilled f bytes).mode = f.mode := by simp [refilled]
@[simp] theorem refilled_state : (refilled f bytes).state = f.state := by simp [refilled]
@[simp] theorem refilled_writeLength : (refilled f bytes).writeLength = f.writeLength := by simp [refilled]
@[simp] theorem refilled_writeBuffer : (refilled f bytes).writeBuffer = f.writeBuffer := by simp [refilled]
@[simp] theorem refilled_readBuffer : (refilled f bytes).readBuffer = f.readBuffer := by simp [refilled]
@[simp] theorem refilled_bufferSize : (refilled f bytes).bufferSize = f.bufferSize := by simp [refilled]
@[simp] theorem refilled_pushbackOffset : (refilled f bytes).pushbackOffset = f.pushbackOffset := by simp [refilled]
@[simp] theorem refilled_pushbackLength : (refilled f bytes).pushbackLength = f.pushbackLength := by simp [refilled]
@[simp] theorem refilled_readOffset : (refilled f bytes).readOffset = 0 := rfl
@[simp] theorem refilled_readLength : (refilled f bytes).readLength = bytes.length := rfl
end

theorem refilled_storage {f : File} (h : f.readBuffer ≠ .null) (bytes : List UInt8) :
    (refilled f bytes).storage f.readBuffer = fill (f.storage f.readBuffer) 0 bytes :=
  storage_setStorage f _ h

/-! ## The loop is a run -/

/-- With two passes for each byte the bound is never met. -/
theorem readLoop_run {fuel n : Nat} {w : World κ}
    (h : 2 * n ≤ fuel ∨ (¬ Drained w.file ∧ 2 * n ≤ fuel + 1)) :
    ReadRun w n (readLoop fuel w n).1 (readLoop fuel w n).2 := by
  induction fuel using Nat.strong_induction_on generalizing n w with
  | _ fuel ih =>
    rcases Nat.eq_zero_or_pos n with rfl | hn
    · cases fuel <;> exact .done w
    obtain ⟨fuel, rfl⟩ : ∃ k, fuel = k + 1 := ⟨fuel - 1, by omega⟩
    unfold readLoop
    rw [if_neg (by omega)]
    by_cases hp : w.file.pushbackOffset < w.file.pushbackLength
    · rw [if_pos hp]
      refine .pushback hn hp (ih fuel (by omega) (.inl ?_))
      unfold pushbackChunk
      omega
    rw [if_neg hp]
    by_cases hc : w.file.readOffset < w.file.readLength
    · rw [if_pos hc]
      refine .cached hn hp hc (ih fuel (by omega) (.inl ?_))
      unfold cachedChunk
      omega
    rw [if_neg hc]
    have hd : Drained w.file := ⟨hp, hc⟩
    replace h : 2 * n ≤ fuel + 1 := h.resolve_right fun h => h.1 hd
    cases he : w.file.state.eof with
    | true => rw [if_pos rfl]; exact .eof hn hd he
    | false =>
      rw [if_neg (by simp)]
      obtain ⟨⟨ok, w1⟩, hr⟩ : ∃ r, refill w = r := ⟨_, rfl⟩
      rw [hr]
      cases ok with
      | false => exact .stop hn hd he hr
      | true =>
        -- The pass after a refill takes from the new cache.
        obtain ⟨bytes, k, -, hne, -, rfl⟩ := refill_true hr
        obtain ⟨fuel, rfl⟩ : ∃ k, fuel = k + 1 := ⟨fuel - 1, by omega⟩
        have hpos := List.length_pos_iff.2 hne
        dsimp only
        unfold readLoop
        rw [if_neg (by omega), if_neg (by simpa using hp), if_pos (by simpa using hpos)]
        refine .refill hn hd he hr (ih fuel (by omega) (.inl ?_))
        simp only [cachedChunk, refilled_readLength, refilled_readOffset]
        omega

/-- A read of a buffered stream that passes its guards. -/
theorem stdioRead_run {w : World κ} {n : Nat} (hm : w.file.mode.readable = true)
    (hs : w.file.state.writeNeedsSync = false) (hu : w.file.mode.unbuffered = false) :
    ReadRun { w with file := ensureStorage w.file } n (stdioRead w n).1 (stdioRead w n).2 ∨
      (n = 0 ∧ stdioRead w n = ([], w)) := by
  rcases stdioRead_cases w n with ⟨h0, hr⟩ | ⟨hbad, -, -⟩ | ⟨-, -, -, hr⟩
  · exact .inr ⟨h0, hr⟩
  · simp [hm, hs] at hbad
  · left
    rw [hr, if_neg (by simp [hu])]
    exact readLoop_run (.inl (Nat.le_refl _))

/-! ## A read has one run -/

/-- A read ends in one way. -/
theorem ReadRun.unique {w w₁ w₂ : World κ} {n : Nat} {l₁ l₂ : List UInt8} (h₁ : ReadRun w n l₁ w₁)
    (h₂ : ReadRun w n l₂ w₂) : l₁ = l₂ ∧ w₁ = w₂ := by
  induction h₁ generalizing l₂ w₂ with
  | done w =>
    cases h₂ with
    | done => exact ⟨rfl, rfl⟩
    | pushback h | cached h | eof h | stop h | refill h => exact absurd h (Nat.lt_irrefl 0)
  | pushback hn hp _ ih =>
    cases h₂ with
    | done => exact absurd hn (Nat.lt_irrefl 0)
    | pushback _ _ h =>
      obtain ⟨rfl, rfl⟩ := ih h
      exact ⟨rfl, rfl⟩
    | cached _ hp' => exact absurd hp hp'
    | eof _ hd | stop _ hd | refill _ hd => exact absurd hp hd.1
  | cached hn hp hc _ ih =>
    cases h₂ with
    | done => exact absurd hn (Nat.lt_irrefl 0)
    | pushback _ hp' => exact absurd hp' hp
    | cached _ _ _ h =>
      obtain ⟨rfl, rfl⟩ := ih h
      exact ⟨rfl, rfl⟩
    | eof _ hd | stop _ hd | refill _ hd => exact absurd hc hd.2
  | eof hn hd he =>
    cases h₂ with
    | done => exact absurd hn (Nat.lt_irrefl 0)
    | pushback _ hp => exact absurd hp hd.1
    | cached _ _ hc => exact absurd hc hd.2
    | eof => exact ⟨rfl, rfl⟩
    | stop _ _ he' | refill _ _ he' => rw [he] at he'; contradiction
  | stop hn hd he hr =>
    cases h₂ with
    | done => exact absurd hn (Nat.lt_irrefl 0)
    | pushback _ hp => exact absurd hp hd.1
    | cached _ _ hc => exact absurd hc hd.2
    | eof _ _ he' => rw [he] at he'; contradiction
    | stop _ _ _ hr' => exact ⟨rfl, (Prod.mk.inj (hr.symm.trans hr')).2⟩
    | refill _ _ _ hr' => rw [hr] at hr'; simp at hr'
  | refill hn hd he hr _ ih =>
    cases h₂ with
    | done => exact absurd hn (Nat.lt_irrefl 0)
    | pushback _ hp => exact absurd hp hd.1
    | cached _ _ hc => exact absurd hc hd.2
    | eof _ _ he' => rw [he] at he'; contradiction
    | stop _ _ _ hr' => rw [hr] at hr'; simp at hr'
    | refill _ _ _ hr' h =>
      obtain rfl := (Prod.mk.inj (hr.symm.trans hr')).2
      obtain ⟨rfl, rfl⟩ := ih h
      exact ⟨rfl, rfl⟩

/-- A read of a buffered stream that passes its guards is its run. -/
theorem ReadRun.stdioRead_eq {w w' : World κ} {n : Nat} {l : List UInt8} (hm : w.file.mode.readable = true)
    (hs : w.file.state.writeNeedsSync = false) (hu : w.file.mode.unbuffered = false) (hn : 0 < n)
    (h : ReadRun { w with file := ensureStorage w.file } n l w') : stdioRead w n = (l, w') := by
  rcases stdioRead_run (n := n) hm hs hu with hr | ⟨h0, -⟩
  · obtain ⟨h1, h2⟩ := hr.unique h
    exact Prod.ext h1 h2
  · omega

end MiniLibc.Stdio
