import MiniLibc.Stdio.Release
import MiniLibc.Stdio.Steps
/-!
# Flushing every stream

`__mini_stdio_flush_all` of `src/stdio/stdio.c`. It walks the registry and
flushes each writable stream, so it leaves in each what that stream's own flush
would, less what `fflush` does behind a flush: it clears no barrier.
-/
open MiniLibc.Memory MiniLibc.Intrusive MiniLibc.Ledger MiniLibc.Runs

namespace MiniLibc.Stdio

variable {ν κ : Type} [Kernel κ]

namespace Streams

/-- The flush of one stream of the walk, and the first error so far. -/
def flushOne (r : Streams ν κ) (s firstError : Nat) : Nat × Streams ν κ :=
  if (r.stream s).file.mode.writable then
    match stdioFlushBuffer (r.world s) with
    | (true, w) => (firstError, r.setWorld s w)
    | (false, w) => (if firstError = 0 then w.errno else firstError, r.setWorld s w)
  else (firstError, r)

/-- The walk from a link on. -/
def flushLinks : (fuel : Nat) → (link : Option Nat) → (firstError : Nat) → Streams ν κ → Nat × Streams ν κ
  | 0, _, firstError, r => (firstError, r)
  | _ + 1, none, firstError, r => (firstError, r)
  | fuel + 1, some s, firstError, r =>
    let next := r.links.next s
    let (firstError, r) := r.flushOne s firstError
    flushLinks fuel next firstError r

/-- `fflush(NULL)`, which is `__mini_stdio_flush_all`: whether it succeeded. The
registry is no longer than there are objects. -/
def fflushAll (r : Streams ν κ) : Bool × Streams ν κ :=
  let savedErrno := r.errno
  let (firstError, r) := flushLinks r.files r.links.head 0 r
  if firstError ≠ 0 then (false, { r with errno := firstError }) else (true, { r with errno := savedErrno })

end Streams

/-! ## One flush -/

/-- The error the raw writes of the pending output meet. -/
def flushError (w : World κ) : Option Nat :=
  (rawWrites w.file.writeLength w.kernel (ensureStorage w.file).pending).2.1

/-- Every raw write of the pending output succeeds. -/
def Delivers (w : World κ) : Prop := flushError w = none

/-- A raw error is a negative number, so its `errno` is not zero. -/
def Negative (w : World κ) : Prop := flushError w ≠ some 0

/-- What a flush of a writable stream comes to. -/
theorem stdioFlushBuffer_cases {w : World κ} (hm : w.file.mode.writable = true) :
    (Delivers w ∧ ∃ f k, stdioFlushBuffer w = (true, { w with file := f, kernel := k }) ∧ f.state = w.file.state) ∨
    (¬Delivers w ∧ ∃ f k e, stdioFlushBuffer w = (false, { file := f, kernel := k, errno := e }) ∧
      flushError w = some e) := by
  unfold stdioFlushBuffer Delivers flushError
  rw [if_neg (by simp [hm])]
  by_cases h0 : w.file.writeLength = 0
  · rw [if_pos h0, h0]
    exact .inl ⟨rfl, w.file, w.kernel, rfl, rfl⟩
  rw [if_neg h0, flushLoop_eq _ (by omega) (Nat.zero_le _)]
  dsimp only
  have hpending : bytesAt ((ensureStorage w.file).storage (ensureStorage w.file).writeBuffer) 0
      (w.file.writeLength - 0) = (ensureStorage w.file).pending := rfl
  rw [hpending]
  obtain ⟨⟨n, error, k⟩, hr⟩ :
    ∃ r, rawWrites w.file.writeLength w.kernel (ensureStorage w.file).pending = r := ⟨_, rfl⟩
  rw [hr]
  cases error with
  | none => exact .inl ⟨rfl, _, k, rfl, rfl⟩
  | some e => exact .inr ⟨nofun, _, k, e, rfl, rfl⟩

/-- The error number before it makes no difference to a flush. -/
theorem stdioFlushBuffer_errno (w : World κ) (e : Nat) :
    (stdioFlushBuffer { w with errno := e }).1 = (stdioFlushBuffer w).1 ∧
      (stdioFlushBuffer { w with errno := e }).2.file = (stdioFlushBuffer w).2.file ∧
      (stdioFlushBuffer { w with errno := e }).2.kernel = (stdioFlushBuffer w).2.kernel := by
  unfold stdioFlushBuffer
  dsimp only
  split
  · exact ⟨rfl, rfl, rfl⟩
  split
  · exact ⟨rfl, rfl, rfl⟩
  · rw [flushLoop_eq _ (by omega) (Nat.zero_le _), flushLoop_eq _ (by omega) (Nat.zero_le _)]
    dsimp only
    generalize rawWrites w.file.writeLength w.kernel (bytesAt ((ensureStorage w.file).storage
      (ensureStorage w.file).writeBuffer) 0 (w.file.writeLength - 0)) = result
    obtain ⟨n, _ | e', k⟩ := result
    · exact ⟨rfl, rfl, rfl⟩
    · exact ⟨rfl, rfl, rfl⟩

namespace Streams

/-- The stream after its own flush. -/
def flushedStream (r : Streams ν κ) (s : Nat) : Stream κ :=
  { r.stream s with file := (stdioFlushBuffer (r.world s)).2.file, kernel := (stdioFlushBuffer (r.world s)).2.kernel }

theorem flushOne_spec (r : Streams ν κ) (s firstError : Nat) :
    (r.flushOne s firstError).2.links = r.links ∧
    (∀ t, t ≠ s → (r.flushOne s firstError).2.stream t = r.stream t) ∧
    ((r.stream s).file.mode.writable = true → (r.flushOne s firstError).2.stream s = r.flushedStream s) ∧
    ((r.stream s).file.mode.writable = false → (r.flushOne s firstError).2.stream s = r.stream s) ∧
    (((r.stream s).file.mode.writable = true → Negative (r.world s)) → ((r.flushOne s firstError).1 ≠ 0 ↔
      firstError ≠ 0 ∨ ((r.stream s).file.mode.writable = true ∧ ¬Delivers (r.world s)))) := by
  unfold flushOne flushedStream
  cases hm : (r.stream s).file.mode.writable with
  | false =>
    rw [if_neg Bool.false_ne_true]
    exact ⟨rfl, fun _ _ => rfl, nofun, fun _ => rfl, fun _ => by simp⟩
  | true =>
    rw [if_pos rfl]
    rcases stdioFlushBuffer_cases (w := r.world s) hm with ⟨hd, f, k, hf, -⟩ | ⟨hd, f, k, e, hf, he⟩
    · rw [hf]
      exact ⟨rfl, fun _ ht => Function.update_of_ne ht _ _, fun _ => Function.update_self .., nofun, fun _ => by simp [hd]⟩
    · rw [hf]
      refine ⟨rfl, fun _ ht => Function.update_of_ne ht _ _, fun _ => Function.update_self .., nofun, fun hneg => ?_⟩
      have hne : e ≠ 0 := by
        rintro rfl
        exact hneg rfl he
      dsimp only
      split
      · simp [hd, hne]
      · simp [*]

/-- What the walk leaves: each writable stream on it flushed, the others as they
were. The walk meets no stream twice, so each flush starts from the state before. -/
theorem flushLinks_spec {l : List Nat} {fuel : Nat} {link : Option Nat} {r : Streams ν κ}
    (h : Chain r.links.next link l) (hnodup : l.Nodup) (hfuel : l.length ≤ fuel) (firstError : Nat) :
    (∀ s, s ∈ l → (r.stream s).file.mode.writable = true →
      (flushLinks fuel link firstError r).2.stream s = r.flushedStream s) ∧
    (∀ s, ¬(s ∈ l ∧ (r.stream s).file.mode.writable = true) →
      (flushLinks fuel link firstError r).2.stream s = r.stream s) ∧
    ((∀ s, s ∈ l → (r.stream s).file.mode.writable = true → Negative (r.world s)) →
      ((flushLinks fuel link firstError r).1 ≠ 0 ↔ firstError ≠ 0 ∨
      ∃ s, s ∈ l ∧ (r.stream s).file.mode.writable = true ∧ ¬Delivers (r.world s))) := by
  induction l generalizing fuel link r firstError with
  | nil =>
    obtain rfl : link = none := h
    have hstop : flushLinks fuel none firstError r = (firstError, r) := by
      cases fuel <;> rfl
    rw [hstop]
    exact ⟨fun _ hs => (List.not_mem_nil hs).elim, fun _ _ => rfl, fun _ => by simp⟩
  | cons a l ih =>
    obtain ⟨rfl, h⟩ := h
    obtain ⟨hal, hnodup⟩ := List.nodup_cons.1 hnodup
    obtain ⟨n, rfl⟩ : ∃ n, fuel = n + 1 := ⟨fuel - 1, by simp only [List.length_cons] at hfuel; omega⟩
    obtain ⟨hlinks, hother, hflushed, hkept, herror⟩ := r.flushOne_spec a firstError
    generalize hone : r.flushOne a firstError = one at hlinks hother hflushed hkept herror
    obtain ⟨firstError', r'⟩ := one
    have hstep : flushLinks (n + 1) (some a) firstError r = flushLinks n (r.links.next a) firstError' r' := by
      simp only [flushLinks, hone]
    dsimp only at hlinks hother hflushed hkept herror
    rw [hstep]
    have hchain : Chain r'.links.next (r.links.next a) l := by
      rw [hlinks]
      exact h
    obtain ⟨ih1, ih2, ih3⟩ := ih hchain hnodup (by simpa using hfuel) firstError'
    -- The first stream is not on the rest of the walk, and the rest is as it was.
    have hne : ∀ s, s ∈ l → s ≠ a := by
      rintro s hs rfl
      exact hal hs
    have herrors : ∀ s, s ≠ a → flushError (r'.world s) = flushError (r.world s) := by
      intro s hs
      simp only [flushError, world, hother s hs]
    have hdelivers : ∀ s, s ≠ a → (Delivers (r'.world s) ↔ Delivers (r.world s)) := by
      intro s hs
      rw [Delivers, herrors s hs, Delivers]
    have hsame : ∀ s, s ≠ a → r'.flushedStream s = r.flushedStream s := by
      intro s hs
      have hflush := stdioFlushBuffer_errno (r.world s) r'.errno
      have hworld : r'.world s = { r.world s with errno := r'.errno } := by
        simp only [world, hother s hs]
      simp only [flushedStream, hother s hs, hworld, hflush]
    refine ⟨?_, ?_, ?_⟩
    · intro s hs hm
      by_cases hsa : s = a
      · subst hsa
        rw [ih2 s (fun h => hal h.1)]
        exact hflushed hm
      · have hsl : s ∈ l := (List.mem_cons.1 hs).resolve_left hsa
        rw [ih1 s hsl (by rw [hother s hsa]; exact hm), hsame s hsa]
    · intro s hs
      by_cases hsa : s = a
      · subst hsa
        rw [ih2 s (fun h => hal h.1)]
        apply hkept
        simpa using hs
      · rw [ih2 s, hother s hsa]
        rw [hother s hsa]
        exact fun hs' => hs ⟨List.mem_cons_of_mem a hs'.1, hs'.2⟩
    · intro hneg
      have hrest : ∀ s, s ∈ l → (r'.stream s).file.mode.writable = true → Negative (r'.world s) := by
        intro s hs hm
        rw [hother s (hne s hs)] at hm
        rw [Negative, herrors s (hne s hs)]
        exact hneg s (List.mem_cons_of_mem a hs) hm
      rw [ih3 hrest, herror (hneg a List.mem_cons_self), or_assoc]
      apply or_congr_right
      constructor
      · rintro (⟨hm, hd⟩ | ⟨s, hs, hm, hd⟩)
        · exact ⟨a, List.mem_cons_self, hm, hd⟩
        · rw [hother s (hne s hs)] at hm
          rw [hdelivers s (hne s hs)] at hd
          exact ⟨s, List.mem_cons_of_mem a hs, hm, hd⟩
      · rintro ⟨s, hs, hm, hd⟩
        by_cases hsa : s = a
        · subst hsa
          exact .inl ⟨hm, hd⟩
        · refine .inr ⟨s, (List.mem_cons.1 hs).resolve_left hsa, ?_, ?_⟩
          · rw [hother s hsa]
            exact hm
          · rw [hdelivers s hsa]
            exact hd

/-! ## All flushes -/

/-- `fflush` of the stream by itself. -/
def fflushStream (r : Streams ν κ) (s : Nat) : Stream κ :=
  { r.stream s with file := (fflush (r.world s)).2.file, kernel := (fflush (r.world s)).2.kernel }

/-- `fflush(NULL)` is `fflush` of each open writable stream: they are left as
their own flush would leave them, the others as they are, and it fails if one of
them fails. -/
structure FlushesEach (r : Streams ν κ) : Prop where
  writable : ∀ s, r.Live s → (r.stream s).file.mode.writable = true → r.fflushAll.2.stream s = r.fflushStream s
  others : ∀ s, ¬(r.Live s ∧ (r.stream s).file.mode.writable = true) → r.fflushAll.2.stream s = r.stream s
  fails : r.fflushAll.1 = false ↔
    ∃ s, r.Live s ∧ (r.stream s).file.mode.writable = true ∧ (fflush (r.world s)).1 = false

/-- The flush of a stream by itself, beside that of the walk. -/
theorem fflush_cases {w : World κ} (hm : w.file.mode.writable = true) :
    (Delivers w ∧ (fflush w).1 = true ∧
      (fflush w).2 = { (stdioFlushBuffer w).2 with file.state.writeNeedsSync := false } ∧
      (stdioFlushBuffer w).2.file.state = w.file.state) ∨
    (¬Delivers w ∧ (fflush w).1 = false ∧ (fflush w).2 = (stdioFlushBuffer w).2) := by
  have hv : ¬(!validStream w.file) = true := by simp [validStream, hm]
  unfold fflush
  rw [if_neg hv, if_pos hm]
  rcases stdioFlushBuffer_cases hm with ⟨hd, f, k, hf, hstate⟩ | ⟨hd, f, k, e, hf, -⟩
  · rw [hf]
    exact .inl ⟨hd, rfl, rfl, hstate⟩
  · rw [hf]
    exact .inr ⟨hd, rfl, rfl⟩

/-- What `fflush(NULL)` does in every state. -/
theorem fflushAll_spec {r : Streams ν κ} (h : Inv r)
    (hneg : ∀ s, r.Live s → (r.stream s).file.mode.writable = true → Negative (r.world s)) :
    (∀ s, r.Live s → (r.stream s).file.mode.writable = true → r.fflushAll.2.stream s = r.flushedStream s) ∧
    (∀ s, ¬(r.Live s ∧ (r.stream s).file.mode.writable = true) → r.fflushAll.2.stream s = r.stream s) ∧
    (r.fflushAll.1 = false ↔ ∃ s, r.Live s ∧ (r.stream s).file.mode.writable = true ∧ ¬Delivers (r.world s)) := by
  obtain ⟨l, hl, hnodup, ha, hm⟩ := h.registered
  obtain ⟨h1, h2, h3⟩ := flushLinks_spec hl hnodup (length_registered hnodup ha) 0
  have hlive : ∀ s, (s ∈ l ∧ (r.stream s).file.mode.writable = true) ↔
      (r.Live s ∧ (r.stream s).file.mode.writable = true) := by
    intro s
    constructor
    · rintro ⟨hs, hw⟩
      exact ⟨⟨ha s hs, by simp [validStream, hw]⟩, hw⟩
    · rintro ⟨hs, hw⟩
      exact ⟨hm s hs, hw⟩
  have hstream : r.fflushAll.2.stream = (flushLinks r.files r.links.head 0 r).2.stream := by
    unfold fflushAll
    dsimp only
    split <;> rfl
  have hresult : r.fflushAll.1 = false ↔ (flushLinks r.files r.links.head 0 r).1 ≠ 0 := by
    unfold fflushAll
    dsimp only
    split
    · rename_i he
      exact ⟨fun _ => he, fun _ => rfl⟩
    · rename_i he
      exact ⟨by rintro ⟨⟩, fun he' => absurd he' he⟩
  rw [hstream, hresult]
  refine ⟨?_, ?_, ?_⟩
  · intro s hs hw
    exact h1 s (hm s hs) hw
  · intro s hs
    exact h2 s (fun h => hs ((hlive s).1 h))
  · have hneg' : ∀ s, s ∈ l → (r.stream s).file.mode.writable = true → Negative (r.world s) := by
      intro s hs hw
      exact hneg s ((hlive s).1 ⟨hs, hw⟩).1 hw
    rw [h3 hneg']
    simp only [ne_eq, not_true_eq_false, false_or, ← and_assoc, hlive]

omit [Kernel κ] in
/-- A barrier that is down is not changed by taking it down. -/
theorem barrier_down (f : File) : { f with state.writeNeedsSync := false } = f ↔ f.state.writeNeedsSync = false := by
  constructor
  · intro h
    rw [← h]
  · intro h
    rw [← h]

variable [System ν κ]

/-- `fflush(NULL)` flushes each stream as `fflush` would exactly when no open
writable stream has its barrier up and its pending output delivered. -/
theorem fflushAll_exact {r : Streams ν κ} (h : Reachable (Start (ν := ν) (κ := κ)) Step r)
    (hneg : ∀ s, r.Live s → (r.stream s).file.mode.writable = true → Negative (r.world s)) :
    FlushesEach r ↔ ∀ s, r.Live s → (r.stream s).file.mode.writable = true →
      (r.stream s).file.state.writeNeedsSync = true → ¬Delivers (r.world s) := by
  obtain ⟨hwritable, hothers, hfails⟩ := fflushAll_spec (reachable_inv h) hneg
  have hsame : ∀ s, (r.stream s).file.mode.writable = true → (r.flushedStream s = r.fflushStream s ↔
      ¬((r.stream s).file.state.writeNeedsSync = true ∧ Delivers (r.world s))) := by
    intro s hm
    unfold flushedStream fflushStream
    rcases fflush_cases (w := r.world s) hm with ⟨hd, -, hw, hstate⟩ | ⟨hd, -, hw⟩
    · rw [hw]
      simp only [Stream.mk.injEq, and_true, hd]
      rw [eq_comm, barrier_down, hstate, Bool.not_eq_true]
      rfl
    · rw [hw]
      simp [hd]
  constructor
  · intro heach s hl hm hb hd
    have heq := (hwritable s hl hm).symm.trans (heach.writable s hl hm)
    exact (hsame s hm).1 heq ⟨hb, hd⟩
  · intro hdown
    refine ⟨?_, hothers, ?_⟩
    · intro s hl hm
      rw [hwritable s hl hm]
      exact (hsame s hm).2 (fun hs => hdown s hl hm hs.1 hs.2)
    · rw [hfails]
      apply exists_congr
      intro s
      refine and_congr_right fun _ => and_congr_right fun hm => ?_
      rcases fflush_cases (w := r.world s) hm with ⟨hd, hf, -⟩ | ⟨hd, hf, -⟩ <;> simp [hd, hf]

/-- A process that has opened a file for update and put one byte. -/
def putOne : Streams Host Regular :=
  let r := ((onHost ⟨none⟩).fopen (some ['f']) (some ['w', '+'])).2
  r.setWorld 3 (fputc 65 (r.world 3)).2

theorem putOne_reachable : Reachable Start Step putOne :=
  (((Reachable.start (onHost_start _)).next (.call (.fopen (some ['f']) (some ['w', '+'])) trivial))).next
    (.use _ ⟨by decide, by decide⟩ ⟨by decide, .inr (by decide), .inr (by decide)⟩)

/-- The barrier stays up: the byte is delivered and no flush fails, but the file
still refuses input, which it takes after its own flush. -/
theorem fflushAll_barrier :
    Reachable Start Step putOne ∧ ¬FlushesEach putOne ∧ putOne.fflushAll.1 = true ∧
      (fgetc (putOne.fflushAll.2.world 3)).2.errno = einval ∧ (fgetc (fflush (putOne.world 3)).2).2.errno = 0 := by
  refine ⟨putOne_reachable, fun h => ?_, by decide, by decide, by decide⟩
  have heq := congrArg (fun x => x.file.state.writeNeedsSync)
    (h.writable 3 ⟨⟨by decide, by decide⟩, by decide⟩ (by decide))
  revert heq
  decide

/-- The standard streams over files that take nothing. -/
def onFullHost : Streams Host Regular :=
  { onHost ⟨none⟩ with
    stream := fun s =>
      { (onHost ⟨none⟩).stream s with kernel := { emptyFile with script := fun _ => .fail eio } } }

/-- One byte is put on standard output, and stays there. -/
def putStuck : Streams Host Regular := onFullHost.setWorld 1 (fputc 65 (onFullHost.world 1)).2

theorem putStuck_reachable : Reachable Start Step putStuck :=
  (Reachable.start ⟨rfl, rfl, rfl, ⟨rfl, rfl, rfl, rfl⟩, rfl, rfl, rfl, fun _ _ => rfl, fun _ => rfl, fun _ => rfl⟩).next
    (.use _ ⟨by decide, by decide⟩ ⟨by decide, .inr (by decide), .inr (by decide)⟩)

/-- The barrier of standard output is up, and its byte is not delivered: both calls
fail, and leave it as it is. -/
theorem fflushAll_exact_stuck :
    FlushesEach putStuck ∧ putStuck.fflushAll.1 = false ∧ (putStuck.stream 1).file.pending = [65] := by
  have hlive : ∀ s, putStuck.Live s → s = 0 ∨ s = 1 ∨ s = 2 := by
    intro s hs
    have hlt : s < 3 := hs.1.1
    omega
  refine ⟨(fflushAll_exact putStuck_reachable ?_).2 ?_, by decide, by decide⟩
  · intro s hs _
    unfold Negative
    rcases hlive s hs with rfl | rfl | rfl
    · decide
    · decide
    · decide
  · intro s hs _ hb
    unfold Delivers
    rcases hlive s hs with rfl | rfl | rfl
    · cases hb
    · decide
    · cases hb

end Streams

end MiniLibc.Stdio
