import MiniLibc.Stdio.Truncation
/-!
# Which write failures a call reports

A call reports the raw writes that fail in it unless its data ends in a newline that a
line-buffered stream flushes for: then all the bytes are accepted before the flush
fails. `Allowance` is a kernel that fails in just that flush.
-/
open MiniLibc.Args

namespace MiniLibc.Stdio

/-! ## `puts` -/

section Puts
variable {κ : Type} [Kernel κ]

/-- `__mini_puts_byte_core`, of the bytes before the terminator, on `stdout`. -/
def putsCore (s : List UInt8) (w : World κ) : Bool × World κ :=
  match fputsCore s w with
  | (false, w) => (false, w)
  | (true, w) =>
    match fputcCore 10 w with
    | (none, w) => (false, w)
    | (some _, w) => (true, w)

def puts (s : List UInt8) (w : World κ) : Bool × World κ := byteOp false (putsCore s) w

end Puts

/-! ## What a call reports -/

/-- A call on a stream. `none` is a call that passes the end of an array. -/
abbrev Call (α : Type) := (κ : Type) → [Kernel κ] → World κ → Option (α × World κ)

/-- With whatever the raw writes answer: if one fails, the call gives its failure value
and the error flag is set. -/
def ReportsFailure {α : Type} (failure : α → Prop) (call : Call α) (f : File) : Prop :=
  ∀ (κ : Type) [Kernel κ] (failed : κ → Bool), Observes failed → ∀ w : World κ, w.file = f → failed w.kernel = false →
    ∀ r w', call κ w = some (r, w') → failed w'.kernel = true → failure r ∧ w'.file.state.error = true

/-- Whether a byte call writes `data` so that a flush for the newline at its end comes
last. -/
def EndsInFlush (f : File) (data : List UInt8) : Prop := FlushesLine f data ∧ f.state.wideOriented = false

section Reported
variable {κ : Type} [Kernel κ] {failed : κ → Bool}

omit [Kernel κ] in
/-- The orientation check writes nothing: it fails, or changes at most one flag. -/
theorem requireByte_keeps (w : World κ) :
    ∃ ok w₁, requireByte w = (ok, w₁) ∧ w₁.kernel = w.kernel ∧ (ok = true → w.file.state.wideOriented = false ∧
      ∃ b, w₁.file = { w.file with state.byteOriented := b }) := by
  unfold requireByte
  split
  · exact ⟨_, _, rfl, rfl, by rintro ⟨⟩⟩
  split
  · rename_i h
    exact ⟨_, _, rfl, rfl, fun _ => ⟨by simpa using h.2, _, rfl⟩⟩
  split
  · rename_i h
    exact ⟨_, _, rfl, rfl, fun _ => ⟨by simpa using h.2, _, rfl⟩⟩
  · exact ⟨_, _, rfl, rfl, by rintro ⟨⟩⟩

omit [Kernel κ] in
/-- A byte call fails in its core, in a world that differs in the orientation only. -/
theorem byteOp_failed {α : Type} {fail : α} {core : World κ → α × World κ} {w w' : World κ} {r : α}
    (hk : failed w.kernel = false) (hr : byteOp fail core w = (r, w')) (hf : failed w'.kernel = true) :
    w.file.state.wideOriented = false ∧ ∃ w₁ b, w₁.kernel = w.kernel ∧
      w₁.file = { w.file with state.byteOriented := b } ∧ core w₁ = (r, w') := by
  obtain ⟨ok, w₁, hreq, hkernel, hok⟩ := requireByte_keeps w
  rw [byteOp, hreq] at hr
  cases ok with
  | false =>
    obtain ⟨-, rfl⟩ := Prod.mk.inj hr
    rw [hkernel, hk] at hf
    cases hf
  | true =>
    obtain ⟨hwide, b, hfile⟩ := hok rfl
    exact ⟨hwide, w₁, b, hkernel, hfile, hr⟩

theorem replay_stays (mode : SinkMode) (ending : Except Nat Nat) (pieces : List (List UInt8))
    {w : World κ} (hs : OutputReady w.file) (he : w.file.state.error = true) :
    (replay (streamSink mode) ending pieces w).2.file.state.error = true := by
  induction pieces generalizing w with
  | nil =>
    rw [replay, (finish_stream mode ending w).1]
    exact he
  | cons piece pieces ih =>
    have he₁ := stdioWrite_stays hs.toSound piece he
    have hs₁ := (hs.write piece).1
    rw [replay, streamSink_write]
    by_cases hall : (stdioWrite w piece).1 = piece.length
    · rw [decide_eq_true hall]
      exact ih hs₁ he₁
    · rw [decide_eq_false hall]
      exact he₁

/-- The writes of a script on a stream: a failed raw write ends the run, or stands at
the end of a line. -/
theorem replay_failed (ho : Observes failed) (mode : SinkMode) (ending : Except Nat Nat) (pieces : List (List UInt8))
    {w : World κ} (hs : OutputReady w.file) (hk : failed w.kernel = false)
    (hf : failed (replay (streamSink mode) ending pieces w).2.kernel = true) :
    (replay (streamSink mode) ending pieces w).2.file.state.error = true ∧
      ((replay (streamSink mode) ending pieces w).1 = none ∨ ∃ piece ∈ pieces, FlushesLine w.file piece) := by
  induction pieces generalizing w with
  | nil =>
    rw [replay, (finish_stream mode ending w).2, hk] at hf
    cases hf
  | cons piece pieces ih =>
    obtain ⟨hs₁, hm₁, hp₁⟩ := hs.write piece
    have hfail : failed (stdioWrite w piece).2.kernel = true → _ := stdioWrite_failed ho hs.toSound hk
    rw [replay, streamSink_write] at hf ⊢
    by_cases hall : (stdioWrite w piece).1 = piece.length
    · rw [decide_eq_true hall] at hf ⊢
      dsimp only at hf ⊢
      cases hk₁ : failed (stdioWrite w piece).2.kernel with
      | true =>
        obtain ⟨he, hshort | hline⟩ := hfail hk₁
        · exact absurd hall (Nat.ne_of_lt hshort)
        · exact ⟨replay_stays mode ending pieces hs₁ he, .inr ⟨piece, List.mem_cons_self, hline⟩⟩
      | false =>
        obtain ⟨he, hor⟩ := ih hs₁ hk₁ hf
        refine ⟨he, hor.imp_right ?_⟩
        rintro ⟨p, hp, hline⟩
        refine ⟨p, List.mem_cons_of_mem _ hp, ?_⟩
        unfold FlushesLine at hline ⊢
        rwa [hm₁, hp₁] at hline
    · rw [decide_eq_false hall] at hf ⊢
      exact ⟨(hfail hf).1, .inl rfl⟩

theorem replay_error {σ : Type} (sink : Sink σ) (e : Nat) (pieces : List (List UInt8)) (s : σ) :
    (replay sink (.error e) pieces s).1 = none := by
  induction pieces generalizing s with
  | nil => rfl
  | cons piece pieces ih =>
    rw [replay]
    rcases sink.write s piece with ⟨ok, s'⟩
    cases ok with
    | true => exact ih s'
    | false => rfl

/-- A sink that keeps the writes themselves. -/
def recordSink (mode : SinkMode) : Sink (List (List UInt8)) where
  mode
  write writes piece := (true, writes ++ [piece])
  setErrno writes _ := writes

theorem replay_record (mode : SinkMode) (ending : Except Nat Nat) (pieces writes : List (List UInt8)) :
    replay (recordSink mode) ending pieces writes = finish (recordSink mode) ending (writes ++ pieces) := by
  induction pieces generalizing writes with
  | nil => rw [replay, List.append_nil]
  | cons piece pieces ih =>
    show replay (recordSink mode) ending pieces (writes ++ [piece]) = _
    rw [ih, List.append_assoc]
    rfl

/-! ## One write -/

/-- The stream behind the orientation check. -/
def Behind (f f₁ : File) : Prop := f.state.wideOriented = false ∧ ∃ b, f₁ = { f with state.byteOriented := b }

theorem Behind.ready {f f₁ : File} (h : Behind f f₁) (hs : OutputReady f) : OutputReady f₁ := by
  obtain ⟨-, b, rfl⟩ := h
  exact hs.withState _

theorem Behind.flushes {f f₁ : File} (h : Behind f f₁) {data : List UInt8} (hl : FlushesLine f₁ data) :
    EndsInFlush f data := by
  obtain ⟨hwide, b, rfl⟩ := h
  exact ⟨hl, hwide⟩

/-- A failed raw write shows in the count of a write that does not end in a flush. -/
theorem write_reports (ho : Observes failed) {f : File} (hs : OutputReady f) {w : World κ} (hb : Behind f w.file)
    (hk : failed w.kernel = false) {data : List UInt8} (hline : ¬ EndsInFlush f data)
    (hf : failed (stdioWrite w data).2.kernel = true) :
    (stdioWrite w data).2.file.state.error = true ∧ (stdioWrite w data).1 < data.length := by
  obtain ⟨he, hor⟩ := stdioWrite_failed ho (hb.ready hs).toSound hk hf
  exact ⟨he, hor.resolve_right fun hl => hline (hb.flushes hl)⟩

theorem fputcCore_eq (c : Int) (w : World κ) :
    fputcCore c w = (if (stdioWrite w [unsignedChar c]).1 = 1 then some (unsignedChar c) else none,
      (stdioWrite w [unsignedChar c]).2) := by
  unfold fputcCore
  dsimp only
  rcases stdioWrite w [unsignedChar c] with ⟨_ | _ | n, w'⟩ <;> rfl

theorem fputsCore_eq {s : List UInt8} {w : World κ} (hm : w.file.mode.writable = true) :
    fputsCore s w = (decide ((stdioWrite w s).1 = s.length), (stdioWrite w s).2) := by
  rw [fputsCore, hm]
  rfl

/-- `puts` makes two writes of the kind a script makes. -/
theorem putsCore_eq {s : List UInt8} {w : World κ} (hm : w.file.mode.writable = true) (mode : SinkMode) :
    putsCore s w = ((replay (streamSink mode) (.ok 0) [s, [10]] w).1.isSome,
      (replay (streamSink mode) (.ok 0) [s, [10]] w).2) := by
  rw [putsCore, fputsCore_eq hm, replay, streamSink_write]
  by_cases hall : (stdioWrite w s).1 = s.length
  · rw [decide_eq_true hall]
    dsimp only
    rw [replay, streamSink_write, fputcCore_eq, show unsignedChar 10 = 10 from rfl]
    by_cases hone : (stdioWrite (stdioWrite w s).2 [10]).1 = 1
    · rw [if_pos hone, decide_eq_true (show _ = [(10 : UInt8)].length from hone)]
      rfl
    · rw [if_neg hone, decide_eq_false (show ¬ _ = [(10 : UInt8)].length from hone)]
      rfl
  · rw [decide_eq_false hall]
    rfl

end Reported

/-! ## The calls report -/

section Calls
variable {f : File} (hs : OutputReady f)
include hs

theorem fputc_reports {c : Int} (h : ¬ EndsInFlush f [unsignedChar c]) :
    ReportsFailure (fun r : Option UInt8 => r = none) (fun _ _ w => some (fputc c w)) f := by
  intro κ _ failed ho w hw hk r w' hcall hf
  obtain ⟨hwide, w₁, b, hk₁, hf₁, hcore⟩ := byteOp_failed hk (Option.some.inj hcall) hf
  rw [fputcCore_eq] at hcore
  obtain ⟨rfl, rfl⟩ := Prod.mk.inj hcore
  obtain ⟨he, hlt⟩ := write_reports ho hs ⟨hw ▸ hwide, b, hw ▸ hf₁⟩ (hk₁ ▸ hk) h hf
  exact ⟨if_neg (Nat.ne_of_lt hlt), he⟩

theorem fputs_reports {s : List UInt8} (h : ¬ EndsInFlush f s) :
    ReportsFailure (fun r : Bool => r = false) (fun _ _ w => some (fputs s w)) f := by
  intro κ _ failed ho w hw hk r w' hcall hf
  obtain ⟨hwide, w₁, b, hk₁, hf₁, hcore⟩ := byteOp_failed hk (Option.some.inj hcall) hf
  cases hm : w₁.file.mode.writable with
  | false =>
    rw [fputsCore, hm] at hcore
    obtain ⟨-, rfl⟩ := Prod.mk.inj hcore
    exact absurd ((hk₁ ▸ hk).symm.trans hf) (by decide)
  | true =>
    rw [fputsCore_eq hm] at hcore
    obtain ⟨rfl, rfl⟩ := Prod.mk.inj hcore
    obtain ⟨he, hlt⟩ := write_reports ho hs ⟨hw ▸ hwide, b, hw ▸ hf₁⟩ (hk₁ ▸ hk) h hf
    exact ⟨decide_eq_false (Nat.ne_of_lt hlt), he⟩

theorem fwrite_reports {data : List UInt8} {size nmemb : Nat} (hd : size * nmemb ≤ data.length)
    (h : ¬ EndsInFlush f (data.take (size * nmemb))) :
    ReportsFailure (fun r : Nat => r < nmemb) (fun _ _ w => some (fwrite data size nmemb w)) f := by
  intro κ _ failed ho w hw hk r w' hcall hf
  obtain ⟨hwide, w₁, b, hk₁, hf₁, hcore⟩ := byteOp_failed hk (Option.some.inj hcall) hf
  have hquiet : failed w₁.kernel = false := hk₁ ▸ hk
  have hnone : ∀ {n : Nat} {w₂ : World κ}, (n, w₂) = (r, w') → w₂.kernel = w₁.kernel → False := by
    intro n w₂ he hsame
    obtain ⟨-, rfl⟩ := Prod.mk.inj he
    rw [hsame, hquiet] at hf
    cases hf
  unfold fwriteCore at hcore
  split at hcore
  · exact (hnone hcore rfl).elim
  rename_i hne
  split at hcore
  · exact (hnone hcore rfl).elim
  split at hcore
  · exact (hnone hcore rfl).elim
  obtain ⟨rfl, rfl⟩ := Prod.mk.inj hcore
  obtain ⟨he, hlt⟩ := write_reports ho hs ⟨hw ▸ hwide, b, hw ▸ hf₁⟩ hquiet h hf
  refine ⟨?_, he⟩
  rw [List.length_take, Nat.min_eq_left hd, Nat.mul_comm] at hlt
  exact Nat.div_lt_of_lt_mul (by rwa [Nat.mul_comm])

theorem puts_reports {s : List UInt8} (h : ¬ EndsInFlush f (s ++ [10])) :
    ReportsFailure (fun r : Bool => r = false) (fun _ _ w => some (puts s w)) f := by
  intro κ _ failed ho w hw hk r w' hcall hf
  obtain ⟨hwide, w₁, b, hk₁, hf₁, hcore⟩ := byteOp_failed hk (Option.some.inj hcall) hf
  have hb : Behind f w₁.file := ⟨hw ▸ hwide, b, hw ▸ hf₁⟩
  have hquiet : failed w₁.kernel = false := hk₁ ▸ hk
  cases hm : w₁.file.mode.writable with
  | false =>
    rw [putsCore, fputsCore, hm] at hcore
    obtain ⟨-, rfl⟩ := Prod.mk.inj hcore
    exact absurd (hquiet.symm.trans hf) (by decide)
  | true =>
    rw [putsCore_eq hm ⟨false, false⟩] at hcore
    obtain ⟨rfl, rfl⟩ := Prod.mk.inj hcore
    obtain ⟨he, hor⟩ := replay_failed ho ⟨false, false⟩ (.ok 0) [s, [10]] (hb.ready hs) hquiet hf
    refine ⟨?_, he⟩
    rcases hor with hnone | ⟨piece, -, hl⟩
    · rw [hnone]
      rfl
    · obtain ⟨⟨h1, h2, h3, h4, -⟩, h5⟩ := hb.flushes hl
      exact absurd ⟨⟨h1, h2, h3, h4, by simp⟩, h5⟩ h

section Print
variable {α : Type} {next : α → Fetch → Nat × α} {arrays : Arrays} {localeUtf8 : Bool} {format : List UInt8} {args : α}

/-- The run of a format that succeeds writes something that ends in such a flush. -/
def PrintEndsInFlush (next : α → Fetch → Nat × α) (arrays : Arrays) (localeUtf8 : Bool) (format : List UInt8) (args : α)
    (f : File) : Prop :=
  ∃ n writes, formatDispatch next arrays (recordSink ⟨localeUtf8, false⟩) (some format) args [] = some (some n, writes) ∧
    ∃ piece ∈ writes, EndsInFlush f piece

omit hs in
theorem printEndsInFlush_iff {script : Script} (hrun : ∀ σ (sink : Sink σ), sink.mode = ⟨localeUtf8, false⟩ → ∀ s,
    formatDispatch next arrays sink (some format) args s = some (script.run sink s)) :
    PrintEndsInFlush next arrays localeUtf8 format args f ↔
      (∃ n, script.ending = .ok n) ∧ ∃ piece ∈ script.pieces, EndsInFlush f piece := by
  have hrecord := hrun _ (recordSink ⟨localeUtf8, false⟩) rfl []
  rw [Script.run, replay_record, List.nil_append] at hrecord
  unfold PrintEndsInFlush
  rw [hrecord]
  rcases script with ⟨pieces, e | n⟩
  · constructor
    · rintro ⟨n, writes, h, -⟩
      cases h
    · rintro ⟨⟨n, h⟩, -⟩
      cases h
  · constructor
    · rintro ⟨m, writes, h, hp⟩
      cases h
      exact ⟨⟨n, rfl⟩, hp⟩
    · rintro ⟨-, hp⟩
      exact ⟨n, pieces, rfl, hp⟩

theorem printf_reports {text : Option (List UInt8)}
    (ht : formatText next arrays ⟨localeUtf8, false⟩ format args = some text)
    (h : ¬ PrintEndsInFlush next arrays localeUtf8 format args f) :
    ReportsFailure (fun r : Option Nat => r = none) (fun _ _ w => streamDispatch next arrays localeUtf8 (some format) args w) f := by
  obtain ⟨script, -, hrun⟩ := formatDispatch_script ht
  rw [printEndsInFlush_iff hrun] at h
  intro κ _ failed ho w hw hk r w' hcall hf
  obtain ⟨ok, w₁, hreq, hkernel, hok⟩ := requireByte_keeps w
  change streamDispatch next arrays localeUtf8 (some format) args w = some (r, w') at hcall
  rw [streamDispatch, hreq] at hcall
  have hquiet : failed w₁.kernel = false := hkernel ▸ hk
  cases ok with
  | false =>
    obtain ⟨-, rfl⟩ := Prod.mk.inj (Option.some.inj hcall)
    exact absurd (hquiet.symm.trans hf) (by decide)
  | true =>
    obtain ⟨hwide, b, hf₁⟩ := hok rfl
    have hb : Behind f w₁.file := ⟨hw ▸ hwide, b, hw ▸ hf₁⟩
    dsimp only at hcall
    rw [streamDispatchCore] at hcall
    split at hcall
    · obtain ⟨-, rfl⟩ := Prod.mk.inj (Option.some.inj hcall)
      exact absurd (hquiet.symm.trans hf) (by decide)
    rw [hrun _ _ rfl] at hcall
    have hrun₁ := Option.some.inj hcall
    rw [Script.run] at hrun₁
    obtain ⟨he, hor⟩ := replay_failed ho ⟨localeUtf8, false⟩ script.ending script.pieces (hb.ready hs) hquiet
      (by rw [hrun₁]; exact hf)
    rw [hrun₁] at he hor
    refine ⟨hor.elim id ?_, he⟩
    rintro ⟨piece, hp, hl⟩
    -- such a run ends in an error of its own
    rcases hend : script.ending with e | n
    · have := replay_error (streamSink ⟨localeUtf8, false⟩) e script.pieces w₁
      rwa [← hend, hrun₁] at this
    · exact absurd ⟨⟨n, hend⟩, piece, hp, hb.flushes hl⟩ h

end Print

end Calls

/-! ## A kernel that fails once -/

/-- It takes so many bytes, then fails one raw write, and then takes whatever comes. -/
structure Allowance where
  left : Option Nat

instance : Kernel Allowance where
  read k _ := (.ok [], k)
  write k data :=
    match k.left with
    | none => (.ok data.length, k)
    | some 0 => (.error eio, ⟨none⟩)
    | some (n + 1) => (.ok (min data.length (n + 1)), ⟨some (n + 1 - min data.length (n + 1))⟩)
  lseek k _ _ := (.error einval, k)

def Allowance.failed (k : Allowance) : Bool := k.left.isNone

theorem allowance_observes : Observes Allowance.failed := by
  rintro ⟨left⟩ data hd
  have hpos := List.length_pos_iff.2 hd
  rcases left with _ | _ | n
  · rfl
  · rfl
  · simp [Kernel.write, Allowance.failed, fails]
    omega

/-- What is left after so many more bytes. -/
def spend (left : Option Nat) (bytes : Nat) : Option Nat :=
  left.bind fun n => if bytes ≤ n then some (n - bytes) else none

theorem rawWrites_allowance {fuel : Nat} {k : Allowance} {data : List UInt8} (hf : data.length ≤ fuel) :
    (rawWrites fuel k data).2.2.left = spend k.left data.length := by
  induction fuel generalizing k data with
  | zero =>
    have h0 : data.length = 0 := by omega
    rw [rawWrites, h0]
    rcases k with ⟨_ | n⟩ <;> rfl
  | succ fuel ih =>
    by_cases h0 : data.length = 0
    · rw [rawWrites, if_pos h0, h0]
      rcases k with ⟨_ | n⟩ <;> rfl
    rcases k with ⟨_ | _ | n⟩
    · have hw : Kernel.write (⟨none⟩ : Allowance) data = (.ok data.length, ⟨none⟩) := rfl
      rw [rawWrites, if_neg h0, hw]
      dsimp only
      rw [if_neg (by omega), List.drop_length, ih (Nat.zero_le _)]
      rfl
    · have hw : Kernel.write (⟨some 0⟩ : Allowance) data = (.error eio, ⟨none⟩) := rfl
      rw [rawWrites, if_neg h0, hw]
      simp [spend, h0]
    · have hw : Kernel.write (⟨some (n + 1)⟩ : Allowance) data =
        (.ok (min data.length (n + 1)), ⟨some (n + 1 - min data.length (n + 1))⟩) := rfl
      rw [rawWrites, if_neg h0, hw]
      dsimp only
      rw [if_neg (by omega)]
      dsimp only
      rw [ih (by rw [List.length_drop]; omega), List.length_drop, spend, spend, Option.bind_some, Option.bind_some]
      by_cases hle : data.length ≤ n + 1
      · rw [if_pos hle, if_pos (by omega)]
        congr 1
        omega
      · rw [if_neg hle, if_neg (by omega)]

theorem rawWrites_free {fuel : Nat} {data : List UInt8} (hf : data.length ≤ fuel) :
    rawWrites fuel (⟨none⟩ : Allowance) data = (data.length, none, ⟨none⟩) := by
  cases fuel with
  | zero => rw [show data.length = 0 by omega]; rfl
  | succ fuel =>
    by_cases h0 : data.length = 0
    · rw [rawWrites, if_pos h0, h0]
    have hw : Kernel.write (⟨none⟩ : Allowance) data = (.ok data.length, ⟨none⟩) := rfl
    have hrest : rawWrites fuel (⟨none⟩ : Allowance) (data.drop data.length) = (0, none, ⟨none⟩) := by
      rw [List.drop_length]
      cases fuel <;> rfl
    rw [rawWrites, if_neg h0, hw]
    dsimp only
    rw [if_neg (by omega), hrest]
    rfl

/-- What a flush does with an allowance. -/
theorem flush_allowance {w w' : World Allowance} {ok : Bool} (hr : Ready w.file) (hfl : stdioFlushBuffer w = (ok, w')) :
    Ready w'.file ∧ w'.file.mode = w.file.mode ∧ (ok = true → w'.file.writeLength = 0) ∧
      w'.kernel.left = spend w.kernel.left w.file.writeLength ∧
      (w.kernel.left = none → ok = true) ∧ (∀ m, w.kernel.left = some m → (ok = true ↔ w.file.writeLength ≤ m)) := by
  have hready := hr.flush
  obtain ⟨hframe, hempty⟩ := stdioFlushBuffer_frame hr.writable hr.toSound
  have hfail := stdioFlushBuffer_failed allowance_observes hr.writable hr.toSound
  obtain ⟨n, error, k, hraw, -, -, hspec⟩ := stdioFlushBuffer_spec hr.writable hr.toSound
  have hlen := pending_length w.file
  have hleft := rawWrites_allowance (k := w.kernel) (Nat.le_of_eq hlen)
  rw [hraw, hlen] at hleft
  have hkernel : (stdioFlushBuffer w).2.kernel = k := by rw [hspec]; exact afterWrites_kernel _ _ _
  have hok : (stdioFlushBuffer w).1 = error.isNone := by rw [hspec]
  rw [hfl] at hready hframe hempty hfail hkernel hok
  dsimp only at hready hframe hempty hfail hkernel hok hleft
  refine ⟨hready, hframe.mode, hempty, by rw [hkernel, hleft], fun hnone => ?_, fun m hm => ?_⟩
  · have hk : w.kernel = ⟨none⟩ := congrArg Allowance.mk hnone
    rw [hk, rawWrites_free (Nat.le_of_eq hlen)] at hraw
    obtain ⟨-, rfl, -⟩ : _ = n ∧ none = error ∧ _ = k := by simpa using hraw
    exact hok
  · rw [hkernel, Allowance.failed, Allowance.failed, hleft, hm, spend, Option.bind_some] at hfail
    by_cases hle : w.file.writeLength ≤ m
    · rw [if_pos hle] at hfail
      simpa [hle] using hfail
    · rw [if_neg hle] at hfail
      simpa [hle] using hfail

theorem appended_writeLength {w : World Allowance} {data : List UInt8} {chunk : Nat} (h : chunk ≤ data.length) :
    (appended w data chunk).file.writeLength = w.file.writeLength + chunk := by
  rw [appended, appendPending_writeLength, List.length_take, Nat.min_eq_left h]

/-- Within the allowance every byte is accepted, and what is not pending is spent. -/
theorem WriteRun.fits {w w' : World Allowance} {data : List UInt8} {n m : Nat} (h : WriteRun w data n w')
    (hr : Ready w.file) (hl : w.kernel.left = some m) (hle : w.file.writeLength + data.length ≤ m) :
    n = data.length ∧ ∃ m', w'.kernel.left = some m' ∧ m' + (w.file.writeLength + data.length) = m + w'.file.writeLength := by
  induction h generalizing m with
  | done w => exact ⟨rfl, m, hl, by rw [List.length_nil]; omega⟩
  | full hd hfull hfl =>
    obtain ⟨-, -, -, -, -, hiff⟩ := flush_allowance hr hfl
    exact absurd ((hiff m hl).2 (by omega)) (by decide)
  | flush hd hfull hfl hrun ih =>
    obtain ⟨hr₁, -, hempty, hl₁, -⟩ := flush_allowance hr hfl
    rw [hl, spend, Option.bind_some, if_pos (by omega)] at hl₁
    have hz := hempty rfl
    obtain ⟨hn, m', hm', hsum⟩ := ih hr₁ hl₁ (by omega)
    exact ⟨hn, m', hm', by omega⟩
  | line hd hroom hc hfl =>
    obtain ⟨hr₁, -, hchunk⟩ := hr.appended hd hroom hc
    obtain ⟨-, -, -, -, -, hiff⟩ := flush_allowance hr₁ hfl
    exact absurd ((hiff m hl).2 (by rw [appended_writeLength hchunk]; omega)) (by decide)
  | @flushed w w₁ w' data chunk n hd hroom hc hfl hrun ih =>
    obtain ⟨hr₁, -, hchunk⟩ := hr.appended hd hroom hc
    obtain ⟨hr₂, -, hempty, hl₂, -⟩ := flush_allowance hr₁ hfl
    rw [show (appended w data chunk).kernel.left = some m from hl, appended_writeLength hchunk, spend, Option.bind_some,
      if_pos (by omega)] at hl₂
    have hz := hempty rfl
    have hlen : (data.drop chunk).length = data.length - chunk := List.length_drop
    obtain ⟨hn, m', hm', hsum⟩ := ih hr₂ hl₂ (by omega)
    exact ⟨by omega, m', hm', by omega⟩
  | @more w w' data chunk n hd hroom hc hrun ih =>
    obtain ⟨hr₁, -, hchunk⟩ := hr.appended hd hroom hc
    have hlen : (data.drop chunk).length = data.length - chunk := List.length_drop
    have hw := appended_writeLength (w := w) hchunk
    obtain ⟨hn, m', hm', hsum⟩ := ih hr₁ hl (by omega)
    exact ⟨by omega, m', hm', by omega⟩

/-- After the failure every byte is accepted. -/
theorem WriteRun.free {w w' : World Allowance} {data : List UInt8} {n : Nat} (h : WriteRun w data n w')
    (hr : Ready w.file) (hl : w.kernel.left = none) : n = data.length ∧ w'.kernel.left = none := by
  induction h with
  | done w => exact ⟨rfl, hl⟩
  | full hd hfull hfl =>
    obtain ⟨-, -, -, -, hfree, -⟩ := flush_allowance hr hfl
    exact absurd (hfree hl) (by decide)
  | flush hd hfull hfl hrun ih =>
    obtain ⟨hr₁, -, -, hl₁, -⟩ := flush_allowance hr hfl
    exact ih hr₁ (by rw [hl₁, hl]; rfl)
  | line hd hroom hc hfl =>
    obtain ⟨hr₁, -, -⟩ := hr.appended hd hroom hc
    obtain ⟨-, -, -, -, hfree, -⟩ := flush_allowance hr₁ hfl
    exact absurd (hfree hl) (by decide)
  | @flushed w w₁ w' data chunk n hd hroom hc hfl hrun ih =>
    obtain ⟨hr₁, -, hchunk⟩ := hr.appended hd hroom hc
    obtain ⟨hr₂, -, -, hl₂, -⟩ := flush_allowance hr₁ hfl
    have hlen : (data.drop chunk).length = data.length - chunk := List.length_drop
    obtain ⟨hn, hl'⟩ := ih hr₂ (by rw [hl₂, show (appended w data chunk).kernel.left = none from hl]; rfl)
    exact ⟨by omega, hl'⟩
  | @more w w' data chunk n hd hroom hc hrun ih =>
    obtain ⟨hr₁, -, hchunk⟩ := hr.appended hd hroom hc
    have hlen : (data.drop chunk).length = data.length - chunk := List.length_drop
    obtain ⟨hn, hl'⟩ := ih hr₁ hl
    exact ⟨by omega, hl'⟩

/-- With one byte less than the line needs, the flush at its end fails, and every byte
is accepted all the same. -/
theorem WriteRun.ends {w w' : World Allowance} {data : List UInt8} {n m : Nat} (h : WriteRun w data n w')
    (hr : Ready w.file) (hl : w.kernel.left = some m) (hle : w.file.writeLength + data.length = m + 1)
    (hline : w.file.mode.lineBuffered = true) (hlast : data.getLast? = some 10) :
    n = data.length ∧ w'.kernel.left = none := by
  -- the rest of a chunk that is not the last one
  have hrest : ∀ {data : List UInt8} {chunk : Nat}, data.getLast? = some 10 → chunk < data.length →
      (data.drop chunk).getLast? = some 10 := by
    intro data chunk hlast hlt
    rwa [List.getLast?_drop, if_neg (by omega)]
  induction h generalizing m with
  | done w => cases hlast
  | @full w w' data hd hfull hfl =>
    have hpos := List.length_pos_iff.2 hd
    obtain ⟨-, -, -, -, -, hiff⟩ := flush_allowance hr hfl
    exact absurd ((hiff m hl).2 (by omega)) (by decide)
  | @flush w w₁ w' data n hd hfull hfl hrun ih =>
    have hpos := List.length_pos_iff.2 hd
    obtain ⟨hr₁, hm₁, hempty, hl₁, -⟩ := flush_allowance hr hfl
    rw [hl, spend, Option.bind_some, if_pos (by omega)] at hl₁
    have hz := hempty rfl
    exact ih hr₁ hl₁ (by omega) (hm₁ ▸ hline) hlast
  | @line w w' data chunk hd hroom hc hfl =>
    obtain ⟨hr₁, -, hchunk⟩ := hr.appended hd hroom hc
    obtain ⟨-, -, -, hl₁, -, hiff⟩ := flush_allowance hr₁ hfl
    have hover : ¬ (appended w data chunk).file.writeLength ≤ m := fun hle' => absurd ((hiff m hl).2 hle') (by decide)
    rw [show (appended w data chunk).kernel.left = some m from hl, spend, Option.bind_some, if_neg hover] at hl₁
    rw [appended_writeLength hchunk] at hover
    exact ⟨by omega, hl₁⟩
  | @flushed w w₁ w' data chunk n hd hroom hc hfl hrun ih =>
    obtain ⟨hr₁, -, hchunk⟩ := hr.appended hd hroom hc
    obtain ⟨hr₂, hm₂, hempty, hl₂, -, hiff⟩ := flush_allowance hr₁ hfl
    have hfits := (hiff m hl).1 rfl
    rw [appended_writeLength hchunk] at hfits
    rw [show (appended w data chunk).kernel.left = some m from hl, appended_writeLength hchunk, spend, Option.bind_some,
      if_pos hfits] at hl₂
    have hz := hempty rfl
    have hlen : (data.drop chunk).length = data.length - chunk := List.length_drop
    obtain ⟨hn, hl'⟩ := ih hr₂ hl₂ (by omega) (by rw [hm₂, appended, appendPending_mode]; exact hline)
      (hrest hlast (by omega))
    exact ⟨by omega, hl'⟩
  | @more w w' data chunk n hd hroom hc hrun ih =>
    obtain ⟨hr₁, -, hchunk⟩ := hr.appended hd hroom hc
    have hlt : chunk < data.length := by
      refine Nat.lt_of_le_of_ne hchunk fun he => ?_
      have hno := (writeChunk_line hc).2 rfl hline
      rw [List.take_of_length_le (by omega)] at hno
      exact hno (List.mem_of_getLast? hlast)
    have hlen : (data.drop chunk).length = data.length - chunk := List.length_drop
    have hw := appended_writeLength (w := w) hchunk
    obtain ⟨hn, hl'⟩ := ih hr₁ hl (by omega) (by rw [appended, appendPending_mode]; exact hline) (hrest hlast hlt)
    exact ⟨by omega, hl'⟩

/-! ## Writes against an allowance -/

section Silent
variable {w : World Allowance} {data : List UInt8}

theorem stdioWrite_run (h : Takes w.file) (hu : w.file.mode.unbuffered = false) (hd : data ≠ []) :
    ∃ w₀ : World Allowance, Ready w₀.file ∧ w₀.kernel = w.kernel ∧ w₀.file.mode = w.file.mode ∧
      w₀.file.writeLength = w.file.writeLength ∧ WriteRun w₀ data (stdioWrite w data).1 (stdioWrite w data).2 := by
  rcases stdioWrite_cases w data with ⟨h0, -⟩ | ⟨hno, -, -⟩ | ⟨hm, -, -, hw⟩
  · exact absurd h0 hd
  · rw [h.writable, h.position] at hno
    simp at hno
  · rw [hw, hu, if_neg (by simp)]
    have hready : Ready (ensureStorage (startWrite w).file) := (h.toSound.withState _).ready hm
    refine ⟨{ startWrite w with file := ensureStorage (startWrite w).file }, hready, rfl, rfl, rfl, ?_⟩
    exact writeLoop_run hready (Nat.le_refl data.length)

theorem stdioWrite_fits (h : Takes w.file) (hu : w.file.mode.unbuffered = false) {m : Nat} (hl : w.kernel.left = some m)
    (hle : w.file.writeLength + data.length ≤ m) :
    (stdioWrite w data).1 = data.length ∧ ∃ m', (stdioWrite w data).2.kernel.left = some m' ∧
      m' + (w.file.writeLength + data.length) = m + (stdioWrite w data).2.file.writeLength := by
  by_cases hd : data = []
  · subst hd
    exact ⟨rfl, m, hl, rfl⟩
  · obtain ⟨w₀, hr, hk, -, hlen, hrun⟩ := stdioWrite_run h hu hd
    rw [← hlen] at hle ⊢
    exact hrun.fits hr (hk ▸ hl) hle

theorem stdioWrite_free (h : Takes w.file) (hu : w.file.mode.unbuffered = false) (hl : w.kernel.left = none) :
    (stdioWrite w data).1 = data.length ∧ (stdioWrite w data).2.kernel.left = none := by
  by_cases hd : data = []
  · subst hd
    exact ⟨rfl, hl⟩
  · obtain ⟨w₀, hr, hk, -, -, hrun⟩ := stdioWrite_run h hu hd
    exact hrun.free hr (hk ▸ hl)

theorem stdioWrite_ends (h : Takes w.file) (hu : w.file.mode.unbuffered = false) {m : Nat} (hl : w.kernel.left = some m)
    (hle : w.file.writeLength + data.length = m + 1) (hline : w.file.mode.lineBuffered = true)
    (hlast : data.getLast? = some 10) :
    (stdioWrite w data).1 = data.length ∧ (stdioWrite w data).2.kernel.left = none := by
  have hd : data ≠ [] := by
    rintro rfl
    cases hlast
  obtain ⟨w₀, hr, hk, hm, hlen, hrun⟩ := stdioWrite_run h hu hd
  exact hrun.ends hr (hk ▸ hl) (by omega) (hm ▸ hline) hlast

variable (mode : SinkMode) (ending : Except Nat Nat)

theorem replay_accepted {piece : List UInt8} {pieces : List (List UInt8)} (h : (stdioWrite w piece).1 = piece.length) :
    replay (streamSink mode) ending (piece :: pieces) w =
      replay (streamSink mode) ending pieces (stdioWrite w piece).2 := by
  rw [replay, streamSink_write, decide_eq_true h]

theorem replay_free (h : Takes w.file) (hu : w.file.mode.unbuffered = false) (hl : w.kernel.left = none)
    (pieces : List (List UInt8)) :
    ∃ w', replay (streamSink mode) ending pieces w = finish (streamSink mode) ending w' ∧ w'.kernel.left = none := by
  induction pieces generalizing w with
  | nil => exact ⟨w, rfl, hl⟩
  | cons piece pieces ih =>
    obtain ⟨hall, hl'⟩ : (stdioWrite w piece).1 = piece.length ∧ _ := stdioWrite_free h hu hl
    have hm := (h.toOutputReady.write piece).2.1
    rw [replay_accepted mode ending hall]
    exact ih (h.write piece) (by rw [hm, hu]) hl'

/-- A run that goes on over the failure of one of its flushes. -/
theorem replay_silent (h : Takes w.file) (hu : w.file.mode.unbuffered = false) (hline : w.file.mode.lineBuffered = true)
    {m : Nat} (hl : w.kernel.left = some m) (front back : List (List UInt8)) {piece : List UInt8}
    (hlast : piece.getLast? = some 10) (hle : w.file.writeLength + front.flatten.length + piece.length = m + 1) :
    ∃ w', replay (streamSink mode) ending (front ++ piece :: back) w = finish (streamSink mode) ending w' ∧
      w'.kernel.left = none := by
  induction front generalizing w m with
  | nil =>
    obtain ⟨hall, hl'⟩ := stdioWrite_ends h hu hl (by simpa using hle) hline hlast
    have hm := (h.toOutputReady.write piece).2.1
    rw [List.nil_append, replay_accepted mode ending hall]
    exact replay_free mode ending (h.write piece) (by rw [hm, hu]) hl' back
  | cons first front ih =>
    have hpos : 0 < piece.length := List.length_pos_iff.2 fun h0 => by rw [h0] at hlast; cases hlast
    rw [List.flatten_cons, List.length_append] at hle
    have hfirst : w.file.writeLength + first.length ≤ m := by omega
    obtain ⟨hall, m', hm', hsum⟩ := stdioWrite_fits h hu hl hfirst
    have hm := (h.toOutputReady.write first).2.1
    rw [List.cons_append, replay_accepted mode ending hall]
    exact ih (h.write first) (by rw [hm, hu]) (by rw [hm, hline]) hm' (by omega)

end Silent

/-! ## The calls that do not report -/

/-- A call that succeeds over a failed raw write. -/
theorem not_reports {f : File} {α : Type} {failure : α → Prop} {call : Call α} {w w' : World Allowance} {r : α} {m : Nat}
    (hw : w.file = f) (hl : w.kernel.left = some m) (hcall : call Allowance w = some (r, w'))
    (hl' : w'.kernel.left = none) (hr : ¬ failure r) : ¬ ReportsFailure failure call f := by
  intro hrep
  have hk : w.kernel.failed = false := by rw [Allowance.failed, hl]; rfl
  have hk' : w'.kernel.failed = true := by rw [Allowance.failed, hl']; rfl
  exact hr (hrep Allowance Allowance.failed allowance_observes w hw hk r w' hcall hk').1

section Calls
variable {f : File} (hs : OutputReady f)
include hs

/-- The stream with an allowance, behind the orientation check. -/
theorem start_silent {data : List UInt8} (h : EndsInFlush f data) (m : Nat) :
    ∃ w : World Allowance, w.file = f ∧ w.kernel.left = some m ∧ ∃ w₁, requireByte w = (true, w₁) ∧ Takes w₁.file ∧
      w₁.kernel.left = some m ∧ w₁.file.writeLength = f.writeLength ∧ w₁.file.mode = f.mode := by
  obtain ⟨⟨hm, hp, -, -, -⟩, hwide⟩ := h
  have ht : Takes (⟨f, ⟨some m⟩, 0⟩ : World Allowance).file := ⟨hs, hm, hp⟩
  obtain ⟨b, hreq⟩ := requireByte_takes ht hwide
  exact ⟨_, rfl, rfl, _, hreq, ⟨hs.withState _, hm, hp⟩, rfl, rfl, rfl⟩

theorem fputc_reports_iff (c : Int) :
    ReportsFailure (fun r : Option UInt8 => r = none) (fun _ _ w => some (fputc c w)) f ↔ ¬ EndsInFlush f [unsignedChar c] := by
  refine ⟨fun hrep h => ?_, fputc_reports hs⟩
  obtain ⟨w, hw, hl, w₁, hreq, ht, hl₁, hlen, hm⟩ := start_silent hs h f.writeLength
  obtain ⟨hall, hl'⟩ := stdioWrite_ends ht (hm ▸ h.1.2.2.1) hl₁ (by rw [hlen]; rfl) (hm ▸ h.1.2.2.2.1) h.1.2.2.2.2
  refine not_reports hw hl (r := some (unsignedChar c)) ?_ hl' (by simp) hrep
  rw [fputc, byteOp, hreq]
  dsimp only
  rw [fputcCore_eq, if_pos (show _ = 1 from hall)]

theorem fputs_reports_iff (s : List UInt8) :
    ReportsFailure (fun r : Bool => r = false) (fun _ _ w => some (fputs s w)) f ↔ ¬ EndsInFlush f s := by
  refine ⟨fun hrep h => ?_, fputs_reports hs⟩
  have hpos : 0 < s.length := List.length_pos_iff.2 fun h0 => by have := h.1.2.2.2.2; rw [h0] at this; cases this
  obtain ⟨w, hw, hl, w₁, hreq, ht, hl₁, hlen, hm⟩ := start_silent hs h (f.writeLength + s.length - 1)
  obtain ⟨hall, hl'⟩ := stdioWrite_ends ht (hm ▸ h.1.2.2.1) hl₁ (by rw [hlen]; omega) (hm ▸ h.1.2.2.2.1) h.1.2.2.2.2
  refine not_reports hw hl (r := true) ?_ hl' (by simp) hrep
  rw [fputs, byteOp, hreq]
  dsimp only
  rw [fputsCore_eq ht.writable, decide_eq_true hall]

theorem fwrite_reports_iff {data : List UInt8} {size nmemb : Nat} (hd : size * nmemb ≤ data.length)
    (hmax : data.length ≤ sizeMax) :
    ReportsFailure (fun r : Nat => r < nmemb) (fun _ _ w => some (fwrite data size nmemb w)) f ↔
      ¬ EndsInFlush f (data.take (size * nmemb)) := by
  refine ⟨fun hrep h => ?_, fwrite_reports hs hd⟩
  have htake : (data.take (size * nmemb)).length = size * nmemb := by rw [List.length_take, Nat.min_eq_left hd]
  have hpos : 0 < size * nmemb := by
    rw [← htake]
    exact List.length_pos_iff.2 fun h0 => by have := h.1.2.2.2.2; rw [h0] at this; cases this
  have hsize : 0 < size ∧ 0 < nmemb := ⟨Nat.pos_of_mul_pos_right hpos, Nat.pos_of_mul_pos_left hpos⟩
  obtain ⟨w, hw, hl, w₁, hreq, ht, hl₁, hlen, hm⟩ := start_silent hs h (f.writeLength + size * nmemb - 1)
  obtain ⟨hall, hl'⟩ := stdioWrite_ends ht (hm ▸ h.1.2.2.1) hl₁ (by rw [hlen, htake]; omega) (hm ▸ h.1.2.2.2.1)
    h.1.2.2.2.2
  refine not_reports hw hl (r := nmemb) ?_ hl' ?_ hrep
  swap
  · exact Nat.lt_irrefl nmemb
  rw [fwrite, byteOp, hreq]
  dsimp only
  have hfit : ¬ nmemb > sizeMax / size := by
    rw [Nat.not_lt, Nat.le_div_iff_mul_le hsize.1, Nat.mul_comm]
    omega
  rw [fwriteCore, if_neg (by omega), ht.writable, if_neg (by simp), if_neg hfit]
  dsimp only
  rw [hall, htake, Nat.mul_div_cancel_left _ hsize.1]

theorem puts_reports_iff (s : List UInt8) :
    ReportsFailure (fun r : Bool => r = false) (fun _ _ w => some (puts s w)) f ↔ ¬ EndsInFlush f (s ++ [10]) := by
  refine ⟨fun hrep h => ?_, puts_reports hs⟩
  obtain ⟨w, hw, hl, w₁, hreq, ht, hl₁, hlen, hm⟩ := start_silent hs h (f.writeLength + s.length)
  obtain ⟨w', hrun, hl'⟩ := replay_silent ⟨false, false⟩ (.ok 0) ht (hm ▸ h.1.2.2.1) (hm ▸ h.1.2.2.2.1) hl₁ [s] []
    (show [(10 : UInt8)].getLast? = some 10 from rfl) (by rw [hlen]; simp)
  refine not_reports hw hl (r := true) ?_ hl' (by simp) hrep
  rw [puts, byteOp, hreq]
  dsimp only
  rw [putsCore_eq ht.writable ⟨false, false⟩]
  have hrun' : replay (streamSink ⟨false, false⟩) (.ok 0) [s, [10]] w₁ = _ := hrun
  rw [hrun']
  rfl

section Print
variable {α : Type} {next : α → Fetch → Nat × α} {arrays : Arrays} {localeUtf8 : Bool} {format : List UInt8} {args : α}

theorem printf_reports_iff {text : Option (List UInt8)}
    (ht : formatText next arrays ⟨localeUtf8, false⟩ format args = some text) :
    ReportsFailure (fun r : Option Nat => r = none) (fun _ _ w => streamDispatch next arrays localeUtf8 (some format) args w) f ↔
      ¬ PrintEndsInFlush next arrays localeUtf8 format args f := by
  refine ⟨fun hrep h => ?_, printf_reports hs ht⟩
  obtain ⟨script, -, hrun⟩ := formatDispatch_script ht
  obtain ⟨⟨n, hend⟩, piece, hmem, h⟩ := (printEndsInFlush_iff hrun).1 h
  obtain ⟨front, back, hpieces⟩ := List.append_of_mem hmem
  have hpos : 0 < piece.length := List.length_pos_iff.2 fun h0 => by have := h.1.2.2.2.2; rw [h0] at this; cases this
  obtain ⟨w, hw, hl, w₁, hreq, ht, hl₁, hlen, hm⟩ :=
    start_silent hs h (f.writeLength + front.flatten.length + piece.length - 1)
  obtain ⟨w', hsilent, hl'⟩ := replay_silent ⟨localeUtf8, false⟩ (.ok n) ht (hm ▸ h.1.2.2.1) (hm ▸ h.1.2.2.2.1) hl₁
    front back h.1.2.2.2.2 (by rw [hlen]; omega)
  refine not_reports hw hl (r := some n) ?_ hl' (by simp) hrep
  show streamDispatch next arrays localeUtf8 (some format) args w = _
  rw [streamDispatch, hreq]
  dsimp only
  rw [streamDispatchCore, ht.writable]
  exact (hrun _ _ rfl w₁).trans (by rw [Script.run, hend, hpieces, hsilent]; rfl)

end Print

end Calls

/-- Each output call reports the raw writes that fail in it exactly if no data it writes
ends in a newline that a line-buffered stream flushes for. -/
theorem write_failures_reported {f : File} (hs : OutputReady f) :
    (∀ c, ReportsFailure (fun r : Option UInt8 => r = none) (fun _ _ w => some (fputc c w)) f ↔
      ¬ EndsInFlush f [unsignedChar c]) ∧
    (∀ s, ReportsFailure (fun r : Bool => r = false) (fun _ _ w => some (fputs s w)) f ↔ ¬ EndsInFlush f s) ∧
    (∀ s, ReportsFailure (fun r : Bool => r = false) (fun _ _ w => some (puts s w)) f ↔ ¬ EndsInFlush f (s ++ [10])) ∧
    (∀ data size nmemb, size * nmemb ≤ data.length → data.length ≤ sizeMax →
      (ReportsFailure (fun r : Nat => r < nmemb) (fun _ _ w => some (fwrite data size nmemb w)) f ↔
        ¬ EndsInFlush f (data.take (size * nmemb)))) ∧
    ∀ (α : Type) (next : α → Fetch → Nat × α) (arrays : Arrays) (localeUtf8 : Bool) (format : List UInt8) (args : α),
      formatText next arrays ⟨localeUtf8, false⟩ format args ≠ none →
      (ReportsFailure (fun r : Option Nat => r = none)
          (fun _ _ w => streamDispatch next arrays localeUtf8 (some format) args w) f ↔
        ¬ PrintEndsInFlush next arrays localeUtf8 format args f) := by
  refine ⟨fputc_reports_iff hs, fputs_reports_iff hs, puts_reports_iff hs,
    fun data size nmemb hd hmax => fwrite_reports_iff hs hd hmax, fun α next arrays localeUtf8 format args ht => ?_⟩
  obtain ⟨text, ht⟩ := Option.ne_none_iff_exists'.1 ht
  exact printf_reports_iff hs ht

/-- A line-buffered stream with nothing pending. -/
def lineStream : File := { mode := { writable := true, lineBuffered := true } }

theorem lineStream_ready : OutputReady lineStream :=
  ⟨⟨by decide, by decide, by decide, by decide, by decide⟩, fun h => absurd h (by decide)⟩

theorem write_failures_reported_letter :
    ReportsFailure (fun r : Option UInt8 => r = none) (fun _ _ w => some (fputc 104 w)) lineStream :=
  ((write_failures_reported lineStream_ready).1 104).2 fun h => absurd h.1 (by decide)

/-- The flush for a newline fails, and `fputc` returns the newline. -/
theorem fputc_unreported :
    (fputc 10 (⟨lineStream, ⟨some 0⟩, 0⟩ : World Allowance)).1 = some 10 ∧
      (fputc 10 (⟨lineStream, ⟨some 0⟩, 0⟩ : World Allowance)).2.kernel.failed = true ∧
      ¬ ReportsFailure (fun r : Option UInt8 => r = none) (fun _ _ w => some (fputc 10 w)) lineStream := by
  refine ⟨by decide, by decide, fun h => ?_⟩
  have hk : (fputc 10 (⟨lineStream, ⟨some 0⟩, 0⟩ : World Allowance)).2.kernel.failed = true := by decide
  have hr := (h Allowance Allowance.failed allowance_observes ⟨lineStream, ⟨some 0⟩, 0⟩ rfl rfl _ _ rfl hk).1
  exact absurd hr (by decide)

end MiniLibc.Stdio
