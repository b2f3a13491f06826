import MiniLibc.Stdio.Still
import MiniLibc.Stdio.Update
/-!
# The end of file sticks

A buffered stream whose end-of-file flag is set has nothing pushed back or
cached, so a read delivers nothing and asks the kernel for nothing. An
unbuffered read does not look at the flag, and `rewind` takes it back whether
it could seek or not.
-/
open MiniLibc.Memory MiniLibc.Runs MiniLibc.Wchar

namespace MiniLibc.Stdio

variable {κ : Type} [Kernel κ]

/-! ## The end of a buffered stream -/

/-- A buffered stream at its end has no input left. -/
def Settled (f : File) : Prop := f.mode.unbuffered = false → f.state.eof = true → Drained f

/-- A buffered stream at its end. -/
def Ended (f : File) : Prop := f.mode.unbuffered = false ∧ f.state.eof = true ∧ Drained f

omit [Kernel κ] in
theorem Still.drained {w w' : World (Counted κ)} (h : Still w w') : Drained w'.file ↔ Drained w.file := by
  unfold Drained
  rw [h.readOffset, h.readLength, h.pushbackOffset, h.pushbackLength]

omit [Kernel κ] in
theorem Still.settled {w w' : World (Counted κ)} (h : Still w w') (hs : Settled w.file) : Settled w'.file := by
  intro hm he
  rw [h.mode] at hm
  rw [h.eof] at he
  exact h.drained.2 (hs hm he)

omit [Kernel κ] in
theorem Still.ended {w w' : World (Counted κ)} (h : Still w w') (he : Ended w.file) : Ended w'.file :=
  ⟨h.mode ▸ he.1, h.eof.trans he.2.1, h.drained.2 he.2.2⟩

theorem settled_of_eof {f : File} (h : f.state.eof = false) : Settled f := by
  intro _ he
  rw [h] at he
  cases he

/-- Reading nothing, or at the end of a buffered stream. -/
theorem stdioRead_ended {w : World (Counted κ)} {n : Nat} (h : 0 < n → Ended w.file) :
    (stdioRead w n).1 = [] ∧ Still w (stdioRead w n).2 := by
  rcases stdioRead_cases w n with ⟨-, hr⟩ | ⟨-, -, hr⟩ | ⟨-, -, hn, hr⟩
  · rw [hr]
    exact ⟨rfl, .refl w⟩
  · rw [hr]
    exact ⟨rfl, .markError w _⟩
  · obtain ⟨hm, he, hp, hc⟩ := h (Nat.pos_of_ne_zero hn)
    obtain ⟨m, hm'⟩ : ∃ m, 2 * n = m + 1 := ⟨2 * n - 1, by omega⟩
    have hstop : readLoop (m + 1) { w with file := ensureStorage w.file } n =
        ([], { w with file := ensureStorage w.file }) := by
      unfold readLoop
      rw [if_neg hn, if_neg (by exact hp), if_neg (by exact hc), if_pos (by exact he)]
    rw [hr, hm, if_neg Bool.false_ne_true, hm', hstop]
    exact ⟨rfl, rfl, rfl, rfl, rfl, rfl, rfl, rfl, rfl⟩

theorem readUnbuffered_mode (fuel : Nat) (w : World κ) (n : Nat) :
    (readUnbuffered fuel w n).2.file.mode = w.file.mode := by
  induction fuel generalizing w n with
  | zero => rfl
  | succ fuel ih =>
    unfold readUnbuffered
    split
    · rfl
    dsimp only
    generalize Kernel.read w.kernel n = answer
    obtain ⟨result, k⟩ := answer
    split
    · rfl
    split
    · rfl
    split
    · rfl
    · exact ih _ _

/-- A buffered stream is drained when a read meets its end. -/
theorem ReadRun.settled {w w' : World κ} {n : Nat} {l : List UInt8} (h : ReadRun w n l w')
    (hs : w.file.state.eof = true → Drained w.file) :
    w'.file.mode = w.file.mode ∧ (w'.file.state.eof = true → Drained w'.file) := by
  induction h with
  | done w => exact ⟨rfl, hs⟩
  | @pushback w w' n rest hn hp hrun ih =>
    refine ih (fun he => ?_)
    exact absurd hp (hs he).1
  | @cached w w' n rest hn hp hc hrun ih =>
    refine ih (fun he => ?_)
    exact absurd hc (hs he).2
  | eof hn hd he => exact ⟨rfl, fun _ => hd⟩
  | @stop w w' n hn hd he hr =>
    rcases refill_cases w with ⟨e, k, -, h⟩ | ⟨k, -, h⟩ | ⟨bytes, k, m, -, -, h⟩ | ⟨bytes, k, -, -, -, h⟩
    · obtain rfl : _ = w' := congrArg Prod.snd (h.symm.trans hr)
      exact ⟨rfl, fun he' => absurd (he'.symm.trans he) nofun⟩
    · obtain rfl : _ = w' := congrArg Prod.snd (h.symm.trans hr)
      exact ⟨rfl, fun _ => ⟨hd.1, Nat.lt_irrefl 0⟩⟩
    · obtain rfl : _ = w' := congrArg Prod.snd (h.symm.trans hr)
      refine ⟨setStorage_mode .., fun he' => ?_⟩
      simp [markError, he] at he'
    · rw [h] at hr
      cases hr
  | @refill w w₁ w' n rest hn hd he hr hrun ih =>
    obtain ⟨bytes, k, -, -, -, rfl⟩ := refill_true hr
    have hmode : (takeCached (refilled w.file bytes) (cachedChunk (refilled w.file bytes) n)).mode = w.file.mode :=
      refilled_mode ..
    obtain ⟨hm, hs'⟩ := ih (fun he' => by simp [takeCached, he] at he')
    exact ⟨hm.trans hmode, hs'⟩

theorem stdioRead_settled {w : World κ} (h : Settled w.file) (n : Nat) :
    (stdioRead w n).2.file.mode = w.file.mode ∧ Settled (stdioRead w n).2.file := by
  rcases stdioRead_cases w n with ⟨-, hr⟩ | ⟨-, -, hr⟩ | ⟨hm, hs, -, hr⟩
  · rw [hr]
    exact ⟨rfl, h⟩
  · rw [hr]
    exact ⟨rfl, h⟩
  · cases hu : w.file.mode.unbuffered with
    | true =>
      have hmode : (stdioRead w n).2.file.mode = w.file.mode := by
        rw [hr, hu, if_pos rfl]
        exact readUnbuffered_mode _ _ _
      refine ⟨hmode, fun hno => ?_⟩
      rw [hmode, hu] at hno
      cases hno
    | false =>
      rcases stdioRead_run hm hs hu with hrun | ⟨-, hr'⟩
      · obtain ⟨hmode, hdrained⟩ := hrun.settled (fun he => h hu he)
        exact ⟨hmode, fun _ => hdrained⟩
      · rw [hr']
        exact ⟨rfl, h⟩

/-! ## Byte input -/

omit [Kernel κ] in
theorem byteOp_settled {α : Type} {fail : α} {core : World (Counted κ) → α × World (Counted κ)} {w : World (Counted κ)}
    (h : Settled w.file) (hcore : ∀ w, Settled w.file → Settled (core w).2.file) :
    Settled (byteOp fail core w).2.file := by
  have hstill := requireByte_still w
  unfold byteOp
  generalize requireByte w = result at hstill
  obtain ⟨_ | _, w1⟩ := result
  · exact hstill.settled h
  · exact hcore w1 (hstill.settled h)

omit [Kernel κ] in
/-- Byte input that asks for nothing, or at the end of a buffered stream. -/
theorem byteOp_ended {α : Type} {fail : α} {core : World (Counted κ) → α × World (Counted κ)} {P : α → Prop}
    {asks : Prop} {w : World (Counted κ)} (h : asks → Ended w.file) (hfail : P fail)
    (hcore : ∀ w, (asks → Ended w.file) → P (core w).1 ∧ Still w (core w).2) :
    P (byteOp fail core w).1 ∧ Still w (byteOp fail core w).2 := by
  have hstill := requireByte_still w
  unfold byteOp
  generalize requireByte w = result at hstill
  obtain ⟨_ | _, w1⟩ := result
  · exact ⟨hfail, hstill⟩
  · obtain ⟨hp, hs⟩ := hcore w1 fun ha => hstill.ended (h ha)
    exact ⟨hp, hstill.trans hs⟩

theorem fgetcCore_settled {w : World κ} (h : Settled w.file) :
    (fgetcCore w).2.file.mode = w.file.mode ∧ Settled (fgetcCore w).2.file := by
  have h1 := stdioRead_settled h 1
  unfold fgetcCore
  generalize stdioRead w 1 = result at h1
  obtain ⟨_ | ⟨byte, _ | _⟩, w1⟩ := result <;> exact h1

theorem fgetcCore_ended {w : World (Counted κ)} (h : Ended w.file) :
    (fgetcCore w).1 = none ∧ Still w (fgetcCore w).2 := by
  obtain ⟨hnil, hs⟩ := stdioRead_ended (n := 1) fun _ => h
  unfold fgetcCore
  generalize stdioRead w 1 = result at hnil hs
  obtain ⟨bytes, w1⟩ := result
  obtain rfl : bytes = [] := hnil
  exact ⟨rfl, hs⟩

theorem fgetsLoop_settled {w : World κ} (h : Settled w.file) (room : Nat) : Settled (fgetsLoop room w).2.2.file := by
  induction room generalizing w with
  | zero => exact h
  | succ n ih =>
    have h1 := fgetcCore_settled h
    unfold fgetsLoop
    generalize fgetcCore w = result at h1
    obtain ⟨_ | value, w1⟩ := result
    · exact h1.2
    · dsimp only
      split
      · exact h1.2
      · exact ih h1.2

theorem fgetsCore_settled {w : World κ} (h : Settled w.file) (n : Int) : Settled (fgetsCore n w).2.file := by
  have hloop := fgetsLoop_settled h (n - 1).toNat
  unfold fgetsCore
  split
  · exact h
  split
  · exact h
  generalize fgetsLoop (n - 1).toNat w = result at hloop
  obtain ⟨line, ok, w1⟩ := result
  dsimp only at hloop ⊢
  split
  · exact hloop
  split
  · exact hloop
  · exact hloop

theorem fgetsCore_ended {w : World (Counted κ)} {n : Int} (h : 1 < n → Ended w.file) :
    (fgetsCore n w).1.1 = [] ∧ Still w (fgetsCore n w).2 := by
  unfold fgetsCore
  split
  · exact ⟨rfl, .markError w _⟩
  split
  · exact ⟨rfl, .refl w⟩
  · rename_i hn hn1
    obtain ⟨hnone, hs⟩ := fgetcCore_ended (h (by omega))
    have hroom : (n - 1).toNat = (n - 2).toNat + 1 := by omega
    rw [hroom]
    unfold fgetsLoop
    generalize fgetcCore w = result at hnone hs
    obtain ⟨byte, w1⟩ := result
    obtain rfl : byte = none := hnone
    have hline : ∀ ok : Bool, (if !ok then (([], false), w1) else if ([] : List UInt8).length = 0 ∧ w1.file.state.eof
        then (([], false), w1) else (([], true), w1) : (List UInt8 × Bool) × World (Counted κ)).1.1 = [] ∧
        Still w (if !ok then (([], false), w1) else if ([] : List UInt8).length = 0 ∧ w1.file.state.eof
        then (([], false), w1) else (([], true), w1) : (List UInt8 × Bool) × World (Counted κ)).2 := by
      intro ok
      split
      · exact ⟨rfl, hs⟩
      split
      · exact ⟨rfl, hs⟩
      · exact ⟨rfl, hs⟩
    exact hline _

theorem freadCore_settled {w : World κ} (h : Settled w.file) (size nmemb : Nat) :
    Settled (freadCore size nmemb w).2.file := by
  unfold freadCore
  split
  · exact h
  split
  · exact h
  · exact (stdioRead_settled h _).2

theorem freadCore_ended {w : World (Counted κ)} {size nmemb : Nat}
    (h : 0 < size ∧ 0 < nmemb ∧ nmemb ≤ sizeMax / size → Ended w.file) :
    (freadCore size nmemb w).1.1 = [] ∧ Still w (freadCore size nmemb w).2 := by
  unfold freadCore
  split
  · exact ⟨rfl, .refl w⟩
  split
  · exact ⟨rfl, .markError w _⟩
  · exact stdioRead_ended fun _ => h (by omega)

/-! ## Wide input -/

theorem wideReadLoop_settled {utf8 : Bool} {fuel : Nat} {state : MbState} {w : World κ} (h : Settled w.file) :
    (wideReadLoop utf8 fuel state w).2.file.mode = w.file.mode ∧ Settled (wideReadLoop utf8 fuel state w).2.file := by
  induction fuel generalizing state w with
  | zero => exact ⟨rfl, h⟩
  | succ n ih =>
    have h1 := stdioRead_settled h 1
    unfold wideReadLoop
    generalize stdioRead w 1 = result at h1
    obtain ⟨bytes, w1⟩ := result
    dsimp only at h1 ⊢
    have hrest : (if !mbsinit state then (none, Stdio.markError w1 eilseq) else (none, w1) :
        Option Wint × World κ).2.file.mode = w.file.mode ∧
        Settled (if !mbsinit state then (none, Stdio.markError w1 eilseq) else (none, w1) :
        Option Wint × World κ).2.file := by
      split <;> exact h1
    rcases bytes with _ | ⟨byte, _ | ⟨next, rest⟩⟩
    · exact hrest
    · dsimp only
      generalize mbrtowcMode (some [byte]) state utf8 = decoded
      obtain ⟨result, wc, next⟩ := decoded
      cases result with
      | eilseq => exact h1
      | incomplete =>
        obtain ⟨hm, hs⟩ := @ih next w1 h1.2
        exact ⟨hm.trans h1.1, hs⟩
      | length _ => exact h1
    · exact hrest

theorem wideReadCharacter_ended {w : World (Counted κ)} (h : Ended w.file) :
    (wideReadCharacter w).1 = none ∧ Still w (wideReadCharacter w).2 := by
  obtain ⟨hnil, hs⟩ := stdioRead_ended (n := 1) fun _ => h
  unfold wideReadCharacter wideReadLoop
  generalize stdioRead w 1 = result at hnil hs
  obtain ⟨bytes, w1⟩ := result
  obtain rfl : bytes = [] := hnil
  exact ⟨rfl, hs⟩

theorem fgetwc_ended {w : World (Counted κ)} (h : Ended w.file) (localeUtf8 : Bool) :
    (fgetwc localeUtf8 w).1 = none ∧ Still w (fgetwc localeUtf8 w).2 := by
  have hstill := wideRequireReadable_still w localeUtf8
  unfold fgetwc
  generalize wideRequireReadable w localeUtf8 = result at hstill
  obtain ⟨_ | _, w1⟩ := result
  · exact ⟨rfl, hstill⟩
  · obtain ⟨hnone, hs⟩ := wideReadCharacter_ended (hstill.ended h)
    exact ⟨hnone, hstill.trans hs⟩

theorem fgetwc_settled {w : World (Counted κ)} (h : Settled w.file) (localeUtf8 : Bool) :
    Settled (fgetwc localeUtf8 w).2.file := by
  have hstill := wideRequireReadable_still w localeUtf8
  unfold fgetwc
  generalize wideRequireReadable w localeUtf8 = result at hstill
  obtain ⟨_ | _, w1⟩ := result
  · exact hstill.settled h
  · exact (wideReadLoop_settled (hstill.settled h)).2

theorem fgetwsLoop_settled {w : World κ} (h : Settled w.file) (room length : Nat) :
    Settled (fgetwsLoop room length w).2.2.file := by
  induction room generalizing length w with
  | zero => exact h
  | succ n ih =>
    have h1 : Settled (wideReadCharacter w).2.file := (wideReadLoop_settled h).2
    unfold fgetwsLoop
    generalize wideReadCharacter w = result at h1
    obtain ⟨_ | wc, w1⟩ := result
    · exact h1
    · dsimp only
      split
      · exact h1
      · exact ih h1 _

theorem fgetws_settled {w : World (Counted κ)} (h : Settled w.file) (n : Int) (localeUtf8 : Bool) :
    Settled (fgetws n localeUtf8 w).2.file := by
  have hstill := wideRequireReadable_still w localeUtf8
  unfold fgetws
  split
  · exact h
  generalize wideRequireReadable w localeUtf8 = result at hstill
  obtain ⟨_ | _, w1⟩ := result
  · exact hstill.settled h
  · exact fgetwsLoop_settled (hstill.settled h) _ _

theorem fgetws_ended {w : World (Counted κ)} {n : Int} (h : 1 < n → Ended w.file) (localeUtf8 : Bool) :
    (fgetws n localeUtf8 w).1.1 = [] ∧ Still w (fgetws n localeUtf8 w).2 := by
  have hstill := wideRequireReadable_still w localeUtf8
  unfold fgetws
  split
  · exact ⟨rfl, .markError w _⟩
  generalize wideRequireReadable w localeUtf8 = result at hstill
  obtain ⟨_ | _, w1⟩ := result
  · exact ⟨rfl, hstill⟩
  · cases hroom : (n - 1).toNat with
    | zero => exact ⟨rfl, hstill⟩
    | succ room =>
      obtain ⟨hnone, hs⟩ := wideReadCharacter_ended (hstill.ended (h (by omega)))
      dsimp only
      unfold fgetwsLoop
      generalize wideReadCharacter w1 = result at hnone hs
      obtain ⟨wc, w2⟩ := result
      obtain rfl : wc = none := hnone
      exact ⟨rfl, hstill.trans hs⟩

/-! ## Runs -/

/-- The operations on a stream: those of an update stream, which are also what
formatted input and output are made of, and wide input. -/
inductive StreamOp where
  | basic (op : UpdateOp)
  | fgetwc (localeUtf8 : Bool)
  | fgetws (n : Int) (localeUtf8 : Bool)
  | ungetwc (wc : Wint) (localeUtf8 : Bool)

namespace StreamOp

def after (w : World κ) : StreamOp → World κ
  | .basic op => op.after w
  | .fgetwc localeUtf8 => (Stdio.fgetwc localeUtf8 w).2
  | .fgetws n localeUtf8 => (Stdio.fgetws n localeUtf8 w).2
  | .ungetwc wc localeUtf8 => (Stdio.ungetwc wc localeUtf8 w).2

/-- How many bytes or characters an operation delivers. -/
def delivered (w : World κ) : StreamOp → Nat
  | .basic (.read n) => (stdioRead w n).1.length
  | .basic .fgetc => (Stdio.fgetc w).1.toList.length
  | .basic (.fgets n) => (Stdio.fgets n w).1.1.length
  | .basic (.fread size nmemb) => (Stdio.fread size nmemb w).1.1.length
  | .fgetwc localeUtf8 => (Stdio.fgetwc localeUtf8 w).1.toList.length
  | .fgetws n localeUtf8 => (Stdio.fgetws n localeUtf8 w).1.1.length
  | _ => 0

/-- The operation asks for input: it reads, and something. -/
def Asks : StreamOp → Prop
  | .basic (.read n) => 0 < n
  | .basic .fgetc | .fgetwc _ => True
  | .basic (.fgets n) | .fgetws n _ => 1 < n
  | .basic (.fread size nmemb) => 0 < size ∧ 0 < nmemb ∧ nmemb ≤ sizeMax / size
  | _ => False

/-- The operation is a `clearerr`, a repositioning that succeeds or a pushback
that succeeds. `rewind` tells nobody how its `fseek` ended. -/
def Clears (w : World κ) : StreamOp → Prop
  | .basic .clearerr => True
  | .basic .rewind => (Stdio.fseek 0 seekSet w).1 = true
  | .basic (.fseek offset whence) => (Stdio.fseek offset whence w).1 = true
  | .basic (.pushback bytes) => (stdioPushback w bytes).1 = true
  | .basic (.ungetc c) => (Stdio.ungetc c w).1 ≠ none
  | .ungetwc wc localeUtf8 => (Stdio.ungetwc wc localeUtf8 w).1 ≠ none
  | .basic (.setvbuf buffer mode size) => NeedsSeek w.file ∧ (Stdio.setvbuf buffer mode size w).1 = true
  | _ => False

/-- At the end of file it asks no unbuffered stream for input, and is no `rewind`
whose seek fails. -/
def Minds (w : World κ) (op : StreamOp) : Prop :=
  w.file.state.eof = true →
    (op.Asks → w.file.mode.unbuffered = false) ∧ (op = .basic .rewind → op.Clears w)

end StreamOp

/-- Every operation leaves a buffered stream at its end without input. -/
theorem StreamOp.after_settled {w : World (Counted κ)} (h : Settled w.file) (op : StreamOp) :
    Settled (op.after w).file := by
  cases op with
  | fgetwc localeUtf8 => exact fgetwc_settled h localeUtf8
  | fgetws n localeUtf8 => exact fgetws_settled h n localeUtf8
  | ungetwc wc localeUtf8 =>
    rcases ungetwc_still w wc localeUtf8 with ⟨-, hs⟩ | ⟨-, he⟩
    · exact hs.settled h
    · exact settled_of_eof he
  | basic op =>
    cases op with
    | read n => exact (stdioRead_settled h n).2
    | fgetc => exact byteOp_settled h fun w h => (fgetcCore_settled h).2
    | fgets n => exact byteOp_settled h fun w h => fgetsCore_settled h n
    | fread size nmemb => exact byteOp_settled h fun w h => freadCore_settled h size nmemb
    | write data => exact (stdioWrite_still w data).settled h
    | requireWide localeUtf8 => exact (requireWide_still w localeUtf8).settled h
    | markError error => exact (Still.markError w error).settled h
    | fputc c => exact (fputc_still w c).settled h
    | fputs s => exact (fputs_still w s).settled h
    | fwrite data size nmemb => exact (fwrite_still w data size nmemb).settled h
    | fflush => exact (fflush_still w).settled h
    | flushAll => exact (flushAllStream_still w).settled h
    | ftell => exact (ftell_still w).settled h
    | clearerr => exact settled_of_eof rfl
    | rewind => exact settled_of_eof rfl
    | pushback bytes =>
      rcases stdioPushback_still w bytes with ⟨-, hs⟩ | ⟨-, he⟩
      · exact hs.settled h
      · exact settled_of_eof he
    | ungetc c =>
      rcases ungetc_still w c with ⟨-, hs⟩ | ⟨-, he⟩
      · exact hs.settled h
      · exact settled_of_eof he
    | fseek offset whence =>
      rcases fseek_still offset whence w with ⟨-, hs⟩ | ⟨-, he, -⟩
      · exact hs.settled h
      · exact settled_of_eof he
    | setvbuf buffer mode size =>
      rcases (setvbuf_file buffer mode size w).2 with ⟨-, hs⟩ | ⟨-, hd, -⟩
      · exact hs.settled h
      · exact fun _ _ => hd

omit [Kernel κ] in
theorem Still.sticks {w w' : World (Counted κ)} (h : Still w w') (he : w.file.state.eof = true) :
    w'.file.state.eof = true ∧ w'.kernel.reads = w.kernel.reads :=
  ⟨h.eof.trans he, h.reads⟩

/-- One operation at the end of the input. -/
theorem StreamOp.after_eof {w : World (Counted κ)} (h : Settled w.file) (he : w.file.state.eof = true) {op : StreamOp}
    (hm : op.Minds w) (hc : ¬op.Clears w) :
    ((op.after w).file.state.eof = true ∧ (op.after w).kernel.reads = w.kernel.reads) ∧ op.delivered w = 0 := by
  have hended : op.Asks → Ended w.file := by
    intro ha
    have hbuffered := (hm he).1 ha
    exact ⟨hbuffered, he, h hbuffered he⟩
  cases op with
  | fgetwc localeUtf8 =>
    obtain ⟨hnone, hs⟩ := fgetwc_ended (hended trivial) localeUtf8
    exact ⟨hs.sticks he, by simp [delivered, hnone]⟩
  | fgetws n localeUtf8 =>
    obtain ⟨hnil, hs⟩ := fgetws_ended hended localeUtf8
    exact ⟨hs.sticks he, by simp [delivered, hnil]⟩
  | ungetwc wc localeUtf8 =>
    rcases ungetwc_still w wc localeUtf8 with ⟨-, hs⟩ | ⟨hsome, -⟩
    · exact ⟨hs.sticks he, rfl⟩
    · exact absurd hsome hc
  | basic op =>
    cases op with
    | read n =>
      obtain ⟨hnil, hs⟩ := stdioRead_ended hended
      exact ⟨hs.sticks he, by simp [delivered, hnil]⟩
    | fgetc =>
      have hfgetc : (Stdio.fgetc w).1 = none ∧ Still w (Stdio.fgetc w).2 :=
        byteOp_ended (P := fun value => value = none) hended rfl fun w h => fgetcCore_ended (h trivial)
      exact ⟨hfgetc.2.sticks he, by simp [delivered, hfgetc.1]⟩
    | fgets n =>
      have hfgets : (Stdio.fgets n w).1.1 = [] ∧ Still w (Stdio.fgets n w).2 :=
        byteOp_ended (P := fun value : List UInt8 × Bool => value.1 = []) hended (by rfl)
          fun w h => fgetsCore_ended h
      exact ⟨hfgets.2.sticks he, by simp [delivered, hfgets.1]⟩
    | fread size nmemb =>
      have hfread : (Stdio.fread size nmemb w).1.1 = [] ∧ Still w (Stdio.fread size nmemb w).2 :=
        byteOp_ended (P := fun value : List UInt8 × Nat => value.1 = []) hended (by rfl)
          fun w h => freadCore_ended h
      exact ⟨hfread.2.sticks he, by simp [delivered, hfread.1]⟩
    | write data => exact ⟨(stdioWrite_still w data).sticks he, rfl⟩
    | requireWide localeUtf8 => exact ⟨(requireWide_still w localeUtf8).sticks he, rfl⟩
    | markError error => exact ⟨(Still.markError w error).sticks he, rfl⟩
    | fputc c => exact ⟨(fputc_still w c).sticks he, rfl⟩
    | fputs s => exact ⟨(fputs_still w s).sticks he, rfl⟩
    | fwrite data size nmemb => exact ⟨(fwrite_still w data size nmemb).sticks he, rfl⟩
    | fflush => exact ⟨(fflush_still w).sticks he, rfl⟩
    | flushAll => exact ⟨(flushAllStream_still w).sticks he, rfl⟩
    | ftell => exact ⟨(ftell_still w).sticks he, rfl⟩
    | clearerr => exact absurd trivial hc
    | rewind => exact absurd ((hm he).2 rfl) hc
    | pushback bytes =>
      rcases stdioPushback_still w bytes with ⟨-, hs⟩ | ⟨hok, -⟩
      · exact ⟨hs.sticks he, rfl⟩
      · exact absurd hok hc
    | ungetc c =>
      rcases ungetc_still w c with ⟨-, hs⟩ | ⟨hsome, -⟩
      · exact ⟨hs.sticks he, rfl⟩
      · exact absurd hsome hc
    | fseek offset whence =>
      rcases fseek_still offset whence w with ⟨-, hs⟩ | ⟨hok, -, -⟩
      · exact ⟨hs.sticks he, rfl⟩
      · exact absurd hok hc
    | setvbuf buffer mode size =>
      obtain ⟨hreads, ⟨-, hs⟩ | ⟨hok, -, ⟨hneeds, -⟩ | heof⟩⟩ := setvbuf_file buffer mode size w
      · exact ⟨hs.sticks he, rfl⟩
      · exact absurd ⟨hneeds, hok⟩ hc
      · exact ⟨⟨heof.trans he, hreads⟩, rfl⟩

/-- A stream in use, and how much its operations have delivered. -/
structure Played (κ : Type) where
  world : World (Counted κ)
  delivered : Nat

def Played.play (p : Played κ) (op : StreamOp) : Played κ := ⟨op.after p.world, p.delivered + op.delivered p.world⟩

/-- One operation that minds the end of file. -/
def Played.Step (p p' : Played κ) : Prop := ∃ op : StreamOp, op.Minds p.world ∧ p' = p.play op

/-- One that also takes back no end of file. -/
def Played.Hold (p p' : Played κ) : Prop := ∃ op : StreamOp, op.Minds p.world ∧ ¬op.Clears p.world ∧ p' = p.play op

/-- A stream whose flag is not set, as any is that has just been opened. -/
def Played.Start (p : Played κ) : Prop := p.world.file.state.eof = false

theorem reachable_settled {p : Played κ} (h : Reachable Played.Start Played.Step p) : Settled p.world.file :=
  h.invariant (I := fun p : Played κ => Settled p.world.file) (fun _ h => settled_of_eof h) fun _ _ h ⟨op, _, hp⟩ =>
    hp ▸ op.after_settled h

/-- In a run that asks no unbuffered stream at its end for input and has no
`rewind` there whose seek fails, the end of file sticks: until a `clearerr`, a
repositioning or a pushback, nothing is delivered and no raw read is made. -/
theorem eof_sticky {p p' : Played κ} (h : Reachable Played.Start Played.Step p)
    (he : p.world.file.state.eof = true) (hrun : Relation.ReflTransGen Played.Hold p p') :
    p'.world.file.state.eof = true ∧ p'.world.kernel.reads = p.world.kernel.reads ∧ p'.delivered = p.delivered := by
  have hs : Settled p'.world.file ∧ p'.world.file.state.eof = true ∧
      p'.world.kernel.reads = p.world.kernel.reads ∧ p'.delivered = p.delivered := by
    induction hrun with
    | refl => exact ⟨reachable_settled h, he, rfl, rfl⟩
    | tail _ hstep ih =>
      obtain ⟨hsettled, heof, hreads, hdelivered⟩ := ih
      obtain ⟨op, hm, hc, rfl⟩ := hstep
      obtain ⟨⟨heof', hreads'⟩, hnone⟩ := StreamOp.after_eof hsettled heof hm hc
      refine ⟨op.after_settled hsettled, heof', hreads'.trans hreads, ?_⟩
      rw [← hdelivered]
      exact congrArg (_ + ·) hnone
  exact hs.2

/-! ## A terminal -/

/-- What was typed, by raw reads: nothing at an end of file. -/
structure Terminal where
  typed : List (List UInt8)

instance : Kernel Terminal where
  read t n :=
    match t.typed with
    | [] => (.ok [], t)
    | line :: rest => (.ok (line.take n), ⟨rest⟩)
  write t data := (.ok data.length, t)
  lseek t _ _ := (.error 29, t)

/-- A stream on a terminal with an end of file and then a letter. -/
def terminalStream (unbuffered : Bool) : Played Terminal :=
  { world :=
      { file := { mode := { readable := true, unbuffered := unbuffered } }, kernel := ⟨⟨[[], [65]]⟩, 0⟩ }
    delivered := 0 }

/-- The flag is set by the first `fgetc`. Unbuffered, the second reads on and
delivers. So it does with a buffer, once a `rewind` that could not seek has
taken the flag back. -/
theorem eof_not_sticky :
    (let p := (terminalStream true).play (.basic .fgetc)
      let p' := p.play (.basic .fgetc)
      Played.Start (terminalStream true) ∧ p.world.file.state.eof = true ∧ ¬(StreamOp.basic .fgetc).Clears p.world ∧
        ¬(p'.world.kernel.reads = p.world.kernel.reads) ∧ ¬(p'.delivered = p.delivered)) ∧
    (let p := (terminalStream false).play (.basic .fgetc)
      let p' := p.play (.basic .rewind)
      let p'' := p'.play (.basic .fgetc)
      Played.Start (terminalStream false) ∧ p.world.file.state.eof = true ∧ ¬(StreamOp.basic .rewind).Clears p.world ∧
        ¬(StreamOp.basic .fgetc).Clears p'.world ∧
        ¬(p''.world.kernel.reads = p.world.kernel.reads) ∧ ¬(p''.delivered = p.delivered)) := by
  have hseek : (fseek 0 seekSet ((terminalStream false).play (.basic .fgetc)).world).1 = false := by decide
  refine ⟨⟨rfl, by decide, id, by decide, by decide⟩, ⟨rfl, by decide, fun hclears => ?_, id, by decide, by decide⟩⟩
  exact absurd (hseek.symm.trans hclears) Bool.false_ne_true

/-- The same terminal read through a buffer. -/
theorem eof_sticky_buffered :
    ∃ p p' : Played Terminal, p.world.file.state.eof = true ∧ p'.world.kernel.kernel.typed = [[65]] ∧
      p'.delivered = p.delivered := by
  have hstart : Reachable Played.Start Played.Step (terminalStream false) := .start rfl
  have h : Reachable Played.Start Played.Step ((terminalStream false).play (.basic .fgetc)) :=
    hstart.next ⟨.basic .fgetc, fun he => absurd he Bool.false_ne_true, rfl⟩
  have hrun : Relation.ReflTransGen Played.Hold ((terminalStream false).play (.basic .fgetc))
      (((terminalStream false).play (.basic .fgetc)).play (.basic (.fread 1 4))) := by
    refine .single ⟨.basic (.fread 1 4), fun _ => ⟨fun _ => by decide, fun h => ?_⟩, id, rfl⟩
    cases h
  exact ⟨_, _, by decide, by decide, (eof_sticky h (by decide) hrun).2.2⟩

end MiniLibc.Stdio
