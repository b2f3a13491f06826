import MiniLibc.Stdio.Failures
import MiniLibc.Stdio.Rendering
/-!
# What a bounded buffer holds

The sink in memory refuses nothing: it keeps as much of each write as fits in front of
a terminator. A stream refuses nothing either as long as no raw write fails, and gets
every byte.
-/
open MiniLibc.Args MiniLibc.Memory

namespace MiniLibc.Stdio

/-- After a text: its front as far as it fits, a terminator, and nothing else written. -/
structure Keeps (start : Mem) (size : Nat) (text : List UInt8) (s : MemorySink) : Prop where
  size_eq : s.size = size
  stored_eq : s.stored = min text.length (size - 1)
  front : bytesAt s.buffer 0 s.stored = text.take s.stored
  ended : 0 < size → s.buffer s.stored = 0
  frame : ∀ a, size = 0 ∨ s.stored < a → s.buffer a = start a

theorem Keeps.write {start : Mem} {size : Nat} {text : List UInt8} {s : MemorySink} (h : Keeps start size text s)
    (piece : List UInt8) : Keeps start size (text ++ piece) (memoryWrite s piece) := by
  obtain ⟨hsize, hstored, hfront, hend, hframe⟩ := h
  unfold memoryWrite
  split
  · rename_i hroom
    obtain ⟨copied, hcopied⟩ : ∃ n, min piece.length (s.size - 1 - s.stored) = n := ⟨_, rfl⟩
    have hlen : (piece.take copied).length = copied := by
      rw [List.length_take]
      omega
    have hfull : s.stored = text.length := by omega
    simp only [hcopied]
    refine ⟨hsize, ?_, ?_, fun _ => poke_same _ _ _, fun a ha => ?_⟩
    · show s.stored + copied = _
      rw [List.length_append]
      omega
    · show bytesAt (poke (fill s.buffer s.stored (piece.take copied)) (s.stored + copied) 0) 0 (s.stored + copied) = _
      rw [bytesAt_congr (m := fill s.buffer s.stored (piece.take copied)) fun x _ hx => poke_other _ (by omega)]
      have := bytesAt_append_fill s.buffer 0 s.stored (piece.take copied)
      rw [hlen, Nat.zero_add] at this
      rw [this, hfront, hfull, List.take_length, List.take_length_add_append]
    · have hout : s.stored + copied < a := ha.resolve_left (by omega)
      show poke (fill s.buffer s.stored (piece.take copied)) (s.stored + copied) 0 a = _
      rw [poke_other _ (by omega), fill_out (.inr (by omega))]
      exact hframe a (.inr (by omega))
  · rename_i hroom
    have hmin : s.stored = min (text ++ piece).length (size - 1) := by
      rw [List.length_append]
      omega
    refine ⟨hsize, hmin, ?_, hend, hframe⟩
    rw [hfront, List.take_append_of_le_length (by omega)]

theorem Keeps.writes {start : Mem} {size : Nat} {text : List UInt8} {s : MemorySink} (h : Keeps start size text s)
    (pieces : List (List UInt8)) : Keeps start size (text ++ pieces.flatten) (pieces.foldl memoryWrite s) := by
  induction pieces generalizing text s with
  | nil => simpa using h
  | cons piece pieces ih =>
    have := ih (h.write piece)
    rwa [List.append_assoc] at this

/-- The buffer refuses nothing. -/
theorem replay_memory (mode : SinkMode) (ending : Except Nat Nat) (pieces : List (List UInt8)) (s : MemorySink) :
    replay (memorySink mode) ending pieces s = finish (memorySink mode) ending (pieces.foldl memoryWrite s) := by
  induction pieces generalizing s with
  | nil => rfl
  | cons piece pieces ih => exact ih (memoryWrite s piece)

/-! ## Streams -/

variable {κ : Type} [Kernel κ]

theorem finish_stream (mode : SinkMode) (ending : Except Nat Nat) (w : World κ) :
    (finish (streamSink mode) ending w).2.file = w.file ∧ (finish (streamSink mode) ending w).2.kernel = w.kernel := by
  cases ending <;> exact ⟨rfl, rfl⟩

theorem streamSink_write (mode : SinkMode) (w : World κ) (piece : List UInt8) :
    (streamSink mode).write w piece = (decide ((stdioWrite w piece).1 = piece.length), (stdioWrite w piece).2) := rfl

/-- Without a failed raw write a stream takes all of them. -/
theorem replay_stream {failed : κ → Bool} (ho : Observes failed) (mode : SinkMode) (ending : Except Nat Nat)
    (pieces : List (List UInt8)) {w : World (Logged κ)} (h : Takes w.file)
    (hend : failed (replay (streamSink mode) ending pieces w).2.kernel.kernel = false) :
    ∃ w' : World (Logged κ), replay (streamSink mode) ending pieces w = finish (streamSink mode) ending w' ∧
      Takes w'.file ∧ failed w'.kernel.kernel = false ∧ w'.output = w.output ++ pieces.flatten := by
  induction pieces generalizing w with
  | nil =>
    have hk : failed w.kernel.kernel = false := by
      rw [← hend]
      exact congrArg (fun l : Logged κ => failed l.kernel) (finish_stream mode ending w).2.symm
    exact ⟨w, rfl, h, hk, by simp⟩
  | cons piece pieces ih =>
    obtain ⟨hready, hle, hout⟩ := stdioWrite_output h.toOutputReady piece
    have ht := h.write piece
    rw [replay, streamSink_write] at hend ⊢
    rcases hw : stdioWrite w piece with ⟨accepted, w₁⟩
    rw [hw] at hle hout ht hend
    dsimp only at hend ⊢
    by_cases hall : accepted = piece.length
    · rw [decide_eq_true hall] at hend ⊢
      dsimp only at hend ⊢
      obtain ⟨w', hrun, ht', hk', hout'⟩ := ih ht hend
      refine ⟨w', hrun, ht', hk', ?_⟩
      dsimp only at hout
      rw [hout', hout, hall, List.take_length, List.flatten_cons, List.append_assoc]
    · -- a short count comes from a failed raw write, which the end would show
      rw [decide_eq_false hall] at hend
      dsimp only at hend
      have hlt : (stdioWrite w piece).1 < piece.length := by
        rw [hw]
        exact Nat.lt_of_le_of_ne hle hall
      have hshort := stdioWrite_short (logged_observes ho) h hlt
      rw [hw] at hshort
      exact absurd (hend.symm.trans hshort) (by decide)

/-! ## The formatted output functions -/

theorem countOf_some {text : Option (List UInt8)} {n : Nat} :
    countOf text = some n ↔ n ≤ printfIntMax ∧ ∃ t, text = some t ∧ t.length = n := by
  cases text with
  | none => simp [countOf]
  | some t =>
    simp only [countOf, Option.bind_some, Option.ite_none_right_eq_some, Option.some.injEq, exists_eq_left']
    constructor
    · rintro ⟨hle, rfl⟩
      exact ⟨hle, rfl⟩
    · rintro ⟨hle, rfl⟩
      exact ⟨hle, rfl⟩

theorem Script.Renders.pieces {script : Script} {t : List UInt8} (h : script.Renders 0 (some t))
    (hle : t.length ≤ printfIntMax) : script.pieces.flatten = t := by
  rcases h with ⟨u, hu, -, -, hp⟩ | ⟨hover, -⟩
  · rw [hp, Option.some.inj hu]
  · have := hover t rfl
    omega

omit [Kernel κ] in
/-- A byte stream passes the orientation check. -/
theorem requireByte_takes {w : World κ} (h : Takes w.file) (hwide : w.file.state.wideOriented = false) :
    ∃ b, requireByte w = (true, { w with file.state.byteOriented := b }) := by
  have hvalid : validStream w.file = true := by rw [validStream, h.writable, Bool.or_true]
  unfold requireByte
  rw [hvalid, hwide]
  cases hb : w.file.state.byteOriented with
  | false => exact ⟨true, rfl⟩
  | true =>
    refine ⟨true, ?_⟩
    simp only [Bool.not_true, Bool.false_eq_true, if_false, false_and, Bool.not_false, and_self, if_true]
    rw [← hb]

section Agree
variable {α : Type} {next : α → Fetch → Nat × α} {arrays : Arrays}

/-- The buffer of a bounded run, and its result. -/
theorem snprintfDispatch_keeps {mode : SinkMode} {format : List UInt8} {args : α} {script : Script}
    (hrun : formatDispatch next arrays (memorySink mode) (some format) args = fun s =>
      some (script.run (memorySink mode) s)) {buffer : Option Mem} {size : Nat} (errno : Nat)
    (hb : size = 0 ∨ buffer ≠ none) :
    ∃ s s', snprintfDispatchMode next arrays mode buffer size errno (some format) args =
        some (finish (memorySink mode) script.ending s') ∧
      (finish (memorySink mode) script.ending s').2 = s ∧ s.buffer = s'.buffer ∧
      Keeps (buffer.getD fun _ => 0) size script.pieces.flatten s' := by
  obtain ⟨start, hstart⟩ : ∃ start : MemorySink,
      (if size ≠ 0 then (⟨poke (buffer.getD fun _ => 0) 0 0, size, 0, errno⟩ : MemorySink)
        else ⟨buffer.getD fun _ => 0, size, 0, errno⟩) = start := ⟨_, rfl⟩
  have hkeeps : Keeps (buffer.getD fun _ => 0) size [] start := by
    rw [← hstart]
    split
    · rename_i h0
      refine ⟨rfl, rfl, rfl, fun _ => poke_same (buffer.getD fun _ => 0) 0 0, fun a ha => poke_other _ ?_⟩
      have : 0 < a := ha.resolve_left h0
      omega
    · rename_i h0
      exact ⟨rfl, rfl, rfl, fun h => absurd h (by omega), fun _ _ => rfl⟩
  have hdispatch : snprintfDispatchMode next arrays mode buffer size errno (some format) args =
      some (script.run (memorySink mode) start) := by
    rw [snprintfDispatchMode, if_neg (by rintro ⟨h1, h2⟩; exact hb.elim h1 fun h => h h2), hrun, ← hstart]
  rw [Script.run, replay_memory] at hdispatch
  refine ⟨_, _, hdispatch, rfl, ?_, ?_⟩
  · cases script.ending <;> rfl
  · have := hkeeps.writes script.pieces
    rwa [List.nil_append] at this

/-- A bounded run returns the length of the text, and stores it where there is room. -/
theorem snprintfDispatch_text {mode : SinkMode} {format : List UInt8} {args : α} {text : List UInt8}
    (h : formatText next arrays mode format args = some (some text)) {buffer : Option Mem} {size : Nat} (errno : Nat)
    (hb : size = 0 ∨ buffer ≠ none) :
    ∃ sink, snprintfDispatchMode next arrays mode buffer size errno (some format) args =
        some (countOf (some text), sink) ∧
      (text.length ≤ printfIntMax → text.length < size → bytesAt sink.buffer 0 text.length = text ∧
        sink.buffer text.length = 0) := by
  obtain ⟨script, hr, hrun⟩ := formatDispatch_script h
  obtain ⟨s, s', hd, hs, hbuf, hk⟩ := snprintfDispatch_keeps (funext fun s => hrun _ (memorySink mode) rfl s) errno hb
  refine ⟨s, ?_, fun hle hsize => ?_⟩
  · rw [hd, ← hs, ← hr.count (memorySink mode) s']
  · rw [hr.pieces hle] at hk
    have hstored : s'.stored = text.length := by
      have := hk.stored_eq
      omega
    have hfront := hk.front
    have hended := hk.ended (by omega)
    rw [hstored] at hfront hended
    rw [hbuf]
    exact ⟨hfront.trans (List.take_length ..), hended⟩

/-- The run into a stream that takes output, and its output if no raw write fails. -/
theorem streamDispatch_complete {localeUtf8 : Bool} {format : List UInt8} {args : α} {script : Script}
    (hrun : ∀ w : World (Logged κ), formatDispatch next arrays (streamSink ⟨localeUtf8, false⟩) (some format) args w =
      some (script.run (streamSink ⟨localeUtf8, false⟩) w)) {failed : κ → Bool} (ho : Observes failed)
    {w : World (Logged κ)} (hw : Takes w.file) (hwide : w.file.state.wideOriented = false) :
    ∃ r w', streamDispatch next arrays localeUtf8 (some format) args w = some (r, w') ∧
      (failed w'.kernel.kernel = false → w'.output = w.output ++ script.pieces.flatten ∧
        r = (finish (streamSink ⟨localeUtf8, false⟩) script.ending w').1) := by
  obtain ⟨b, hreq⟩ := requireByte_takes hw hwide
  obtain ⟨w₁, hw₁⟩ : ∃ w₁ : World (Logged κ), { w with file.state.byteOriented := b } = w₁ := ⟨_, rfl⟩
  have ht : Takes w₁.file := by
    rw [← hw₁]
    exact ⟨hw.toOutputReady.withState _, hw.writable, hw.position⟩
  have hout : w₁.output = w.output := by
    rw [← hw₁]
    rfl
  have hdispatch : streamDispatch next arrays localeUtf8 (some format) args w =
      some (script.run (streamSink ⟨localeUtf8, false⟩) w₁) := by
    rw [streamDispatch, hreq, hw₁]
    dsimp only
    rw [streamDispatchCore, ht.writable]
    exact hrun w₁
  refine ⟨_, _, hdispatch, fun hend => ?_⟩
  obtain ⟨w', hfin, -, -, hw'⟩ := replay_stream ho ⟨localeUtf8, false⟩ script.ending script.pieces ht hend
  obtain ⟨hfile, hkernel⟩ := finish_stream ⟨localeUtf8, false⟩ script.ending w'
  rw [hfin]
  constructor
  · rw [← hout, ← hw', World.output, World.output, hfile, hkernel]
  · cases script.ending <;> rfl

/-- Bounded and stream formatting agree: one count, the front of one text in every
buffer, and the whole of it in a stream of which no raw write fails. -/
theorem printf_sinks_agree {localeUtf8 : Bool} {format : List UInt8} {args : α} {text : Option (List UInt8)}
    (h : formatText next arrays ⟨localeUtf8, false⟩ format args = some text) :
    (∀ n, countOf text = some n ↔ n ≤ printfIntMax ∧ ∃ t, text = some t ∧ t.length = n) ∧
    (∀ (buffer : Option Mem) (size errno : Nat), (size = 0 ∨ buffer ≠ none) →
      ∃ s, snprintfDispatch next arrays localeUtf8 buffer size errno (some format) args = some (countOf text, s) ∧
        (∀ a, size ≤ a → s.buffer a = (buffer.getD fun _ => 0) a) ∧
        ∀ n t, 0 < size → countOf text = some n → text = some t →
          bytesAt s.buffer 0 (min (size - 1) n + 1) = t.take (size - 1) ++ [0]) ∧
    ∀ (κ : Type) [Kernel κ] (failed : κ → Bool), Observes failed → ∀ w : World (Logged κ), Takes w.file →
      w.file.state.wideOriented = false →
      ∃ r w', streamDispatch next arrays localeUtf8 (some format) args w = some (r, w') ∧
        (failed w'.kernel.kernel = false → r = countOf text ∧
          ∀ n t, countOf text = some n → text = some t → w'.output = w.output ++ t) := by
  obtain ⟨script, hr, hrun⟩ := formatDispatch_script h
  have hpieces : ∀ n t, countOf text = some n → text = some t → script.pieces.flatten = t ∧ t.length = n := by
    intro n t hn ht
    obtain ⟨hle, t', ht', hlen⟩ := countOf_some.1 hn
    obtain rfl : t' = t := Option.some.inj (ht'.symm.trans ht)
    subst ht
    exact ⟨hr.pieces (by omega), hlen⟩
  refine ⟨fun n => countOf_some, fun buffer size errno hb => ?_, fun κ _ failed ho w hw hwide => ?_⟩
  · obtain ⟨s, s', hd, hs, hbuf, hk⟩ := snprintfDispatch_keeps
      (funext fun s => hrun _ (memorySink ⟨localeUtf8, false⟩) rfl s) errno hb
    refine ⟨s, ?_, fun a ha => ?_, fun n t hsize hn ht => ?_⟩
    · rw [snprintfDispatch, hd, ← hs, ← hr.count (memorySink ⟨localeUtf8, false⟩) s']
    · rw [hbuf]
      refine hk.frame a ?_
      have := hk.stored_eq
      omega
    · obtain ⟨hp, hlen⟩ := hpieces n t hn ht
      rw [hp] at hk
      have hstored : s'.stored = min (size - 1) n := by
        have := hk.stored_eq
        omega
      rw [hbuf, bytesAt_add, ← hstored, hk.front, Nat.zero_add, bytesAt, bytesAt, hk.ended hsize, hstored, ← hlen]
      congr 1
      rw [List.take_eq_take_iff]
      omega
  · obtain ⟨r, w', hd, hdone⟩ := streamDispatch_complete (fun w => hrun _ _ rfl w) ho hw hwide
    refine ⟨r, w', hd, fun hend => ?_⟩
    obtain ⟨hout, hres⟩ := hdone hend
    exact ⟨hres.trans (hr.count _ w'), fun n t hn ht => by rw [hout, (hpieces n t hn ht).1]⟩

end Agree

/-- Arguments that are words. -/
def takeWord (words : List Nat) (_ : Fetch) : Nat × List Nat := (words.headD 0, words.tail)

/-- `"hi"` -/
def hi : Arrays := ⟨fun _ => [104, 105, 0], fun _ => []⟩

theorem printf_sinks_agree_hi : ∃ s : MemorySink,
    snprintfDispatch takeWord hi true (some fun _ => 7) 2 0 (some [37, 115]) [1] = some (some 2, s) ∧
      bytesAt s.buffer 0 2 = [104, 0] := by
  have htext : formatText takeWord hi ⟨true, false⟩ [37, 115] [1] = some (some [104, 105]) := by decide
  obtain ⟨-, h, -⟩ := printf_sinks_agree htext
  obtain ⟨s, hs, -, hb⟩ := h (some fun _ => 7) 2 0 (.inr (by simp))
  exact ⟨s, hs, hb 2 [104, 105] (by decide) (by decide) rfl⟩

end MiniLibc.Stdio
