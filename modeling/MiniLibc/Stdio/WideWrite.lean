import MiniLibc.Stdio.Failures
import MiniLibc.Stdio.ScanStream
/-!
# Wide output

The output half of `src/wchar/wide_stdio.c`, and `vfwprintf`. Each character is handed to
`stdio_write_unlocked` as the bytes of its encoding, and some of them may be accepted
before a raw write fails. Along any run the output is whole characters, but for the front
of the character a failed call stopped at, and as long as no raw write fails it is whole.
-/
open MiniLibc.Args MiniLibc.Memory MiniLibc.Runs MiniLibc.Wchar

namespace MiniLibc.Stdio

variable {κ : Type} [Kernel κ]

/-- `wide_require_writable`. -/
def wideRequireWritable (w : World κ) (localeUtf8 : Bool) : Bool × World κ :=
  match requireWide w localeUtf8 with
  | (false, w) => (false, w)
  | (true, w) => if !w.file.mode.writable then (false, markError w einval) else (true, w)

/-- `wide_write_character_unlocked`. `none` is `WEOF`. -/
def wideWriteCharacter (wc : Int) (w : World κ) : Option Wint × World κ :=
  match wcrtombMode wc {} w.file.state.wideUtf8 with
  | (none, _) => (none, markError w eilseq)
  | (some bytes, _) =>
    let (accepted, w) := stdioWrite w bytes
    if accepted ≠ bytes.length then (none, w) else (some (toWint wc), w)

/-- `fputwc`. -/
def fputwc (wc : Int) (localeUtf8 : Bool) (w : World κ) : Option Wint × World κ :=
  match wideRequireWritable w localeUtf8 with
  | (false, w) => (none, w)
  | (true, w) => wideWriteCharacter wc w

/-- The loop of `fputws`, of the characters before the terminator. -/
def fputwsLoop : List Int → World κ → Bool × World κ
  | [], w => (true, w)
  | wc :: s, w =>
    match wideWriteCharacter wc w with
    | (none, w) => (false, w)
    | (some _, w) => fputwsLoop s w

/-- `fputws`. A null string is `none`. -/
def fputws (s : Option (List Int)) (localeUtf8 : Bool) (w : World κ) : Bool × World κ :=
  match s with
  | none => (false, markError w einval)
  | some s =>
    match wideRequireWritable w localeUtf8 with
    | (false, w) => (false, w)
    | (true, w) => fputwsLoop s w

/-- The loop of `write_rendered_unlocked`. A character takes a byte at least. -/
def writeRenderedLoop (utf8 : Bool) : (fuel : Nat) → (rendered : List UInt8) → (count : Nat) → World κ →
    Option Nat × World κ
  | 0, _, count, w => (some count, w)
  | fuel + 1, rendered, count, w =>
    if rendered = [] then (some count, w)
    else
      match decodeRenderedCharacter utf8 rendered with
      | none => (none, markError w eilseq)
      | some (_, rest) =>
        let bytes := rendered.take (rendered.length - rest.length)
        let (accepted, w) := stdioWrite w bytes
        if accepted ≠ bytes.length then (none, w) else writeRenderedLoop utf8 fuel rest (count + 1) w

/-- `write_rendered_unlocked`. The count fits its `int`: the formatter counts no more
bytes than that. -/
def writeRendered (utf8 : Bool) (rendered : List UInt8) (w : World κ) : Option Nat × World κ :=
  writeRenderedLoop utf8 rendered.length rendered 0 w

section Machine

variable {α ν : Type} (malloc : Malloc ν) (next : α → Fetch → Nat × α) (arrays : Arrays)

/-- `vfwprintf`. -/
def vfwprintf (localeUtf8 : Bool) (format : Option (List Int)) (args : α) (w : World κ) (heap : ν) :
    Option (Option Nat × World κ × ν) :=
  match wideRequireWritable w localeUtf8 with
  | (false, w) => some (none, w, heap)
  | (true, writable) =>
    let utf8 := writable.file.state.wideUtf8
    match renderWide malloc next arrays format args utf8 writable.errno heap with
    | none => none
    | some ⟨none, e, heap⟩ =>
      let failed := { writable with errno := e }
      some (none, if e = eilseq then { failed with file.state.error := true } else failed, heap)
    | some ⟨some rendered, e, heap⟩ =>
      match writeRendered utf8 rendered { writable with errno := e } with
      | (none, written) => some (none, written, heap)
      | (some count, written) => some (some count, { written with errno := w.errno }, heap)

end Machine

/-! ## What a call puts out -/

/-- The bytes of a call for a text: all of it if the call succeeds, and otherwise whole
characters, and perhaps the front of the next one. -/
inductive Contribution (utf8 : Bool) : (text : List Int) → (ok : Bool) → List UInt8 → Prop where
  | whole {text : List Int} {bytes : List UInt8} : Encodings utf8 text bytes → Contribution utf8 text true bytes
  | stopped {done rest : List Int} {bytes : List UInt8} : Encodings utf8 done bytes →
      Contribution utf8 (done ++ rest) false bytes
  | torn {done rest : List Int} {bytes encoded front : List UInt8} {wc : Int} : Encodings utf8 done bytes →
      encodeValue wc utf8 = some encoded → front <+: encoded → front ≠ encoded →
      Contribution utf8 (done ++ wc :: rest) false (bytes ++ front)

theorem Contribution.nothing {utf8 : Bool} (text : List Int) : Contribution utf8 text false [] :=
  @stopped utf8 [] text [] (.nil utf8)

theorem Contribution.behind {utf8 ok : Bool} {wc : Int} {encoded : List UInt8}
    (he : encodeValue wc utf8 = some encoded) {text : List Int} {bytes : List UInt8}
    (h : Contribution utf8 text ok bytes) : Contribution utf8 (wc :: text) ok (encoded ++ bytes) := by
  cases h with
  | whole h => exact .whole (.cons he h)
  | @stopped done rest _ h => exact @stopped utf8 (wc :: done) rest _ (.cons he h)
  | @torn done rest bytes _ front _ h hwc hpre hne =>
    rw [← List.append_assoc]
    exact @torn utf8 (wc :: done) _ _ _ front _ (.cons he h) hwc hpre hne

/-- The bytes of a failed call for one character: not all of its encoding. -/
def Front (utf8 : Bool) (wc : Int) (piece : List UInt8) : Prop :=
  piece = [] ∨ ∃ encoded, encodeValue wc utf8 = some encoded ∧ piece <+: encoded ∧ piece ≠ encoded

theorem Front.contribution {utf8 : Bool} {wc : Int} {piece : List UInt8} (h : Front utf8 wc piece) (rest : List Int) :
    Contribution utf8 (wc :: rest) false piece := by
  rcases h with rfl | ⟨encoded, he, hpre, hne⟩
  · exact .nothing _
  · exact @Contribution.torn utf8 [] rest [] encoded piece wc (.nil utf8) he hpre hne

/-- Whole characters, unless a raw write on the way from one kernel to the other fails. -/
def WholeUnless (k k' : κ) (utf8 : Bool) (bytes : List UInt8) : Prop :=
  WriteFails k k' ∨ ∃ text, Encodings utf8 text bytes

theorem WholeUnless.nothing (k k' : κ) (utf8 : Bool) : WholeUnless k k' utf8 [] := .inr ⟨[], .nil utf8⟩

/-- A front is whole where no raw write fails. -/
theorem WholeUnless.front {k k' : κ} {utf8 : Bool} {piece : List UInt8} (h : WriteFails k k' ∨ piece = []) :
    WholeUnless k k' utf8 piece := by
  rcases h with h | rfl
  · exact .inl h
  · exact .nothing k k' utf8

theorem WholeUnless.character {k k₁ k' : κ} (hled : Relation.ReflTransGen RawWrite k k₁) {utf8 : Bool} {wc : Int}
    {encoded bytes : List UInt8} (he : encodeValue wc utf8 = some encoded) (h : WholeUnless k₁ k' utf8 bytes) :
    WholeUnless k k' utf8 (encoded ++ bytes) := by
  rcases h with h | ⟨text, h⟩
  · exact .inl (h.behind hled)
  · exact .inr ⟨wc :: text, .cons he h⟩

/-! ## One character -/

/-- What output leaves as it was. -/
structure SameOrientation (f g : File) : Prop where
  mode : g.mode = f.mode
  wideOriented : g.state.wideOriented = f.state.wideOriented
  wideUtf8 : g.state.wideUtf8 = f.state.wideUtf8

theorem SameOrientation.refl (f : File) : SameOrientation f f := ⟨rfl, rfl, rfl⟩

theorem SameOrientation.trans {f g h : File} (a : SameOrientation f g) (b : SameOrientation g h) :
    SameOrientation f h :=
  ⟨b.1.trans a.1, b.2.trans a.2, b.3.trans a.3⟩

theorem FlushFrame.orientation {f g : File} (h : FlushFrame f g) : SameOrientation f g := by
  obtain ⟨e, he⟩ := h.state
  exact ⟨h.mode, by rw [he], by rw [he]⟩

theorem stdioWrite_orientation {w : World κ} (h : OutputReady w.file) (data : List UInt8) :
    SameOrientation w.file (stdioWrite w data).2.file := by
  rcases stdioWrite_cases w data with ⟨-, hw⟩ | ⟨-, -, hw⟩ | ⟨hm, -, -, hw⟩
  · rw [hw]
    exact .refl _
  · rw [hw]
    exact ⟨rfl, rfl, rfl⟩
  rw [hw]
  split
  · rw [writeRaw_eq]
    rcases afterWrites_file (startWrite w) (rawWrites data.length (startWrite w).kernel data).2.1
      (rawWrites data.length (startWrite w).kernel data).2.2 with hf | hf
    · rw [hf]
      exact ⟨rfl, rfl, rfl⟩
    · rw [hf]
      exact ⟨rfl, rfl, rfl⟩
  · have hready : Ready (ensureStorage (startWrite w).file) := (h.toSound.withState _).ready hm
    obtain ⟨-, -, hsame, -⟩ := @writeLoop_rule _ _ (fun w' _ => SameOrientation w.file w'.file) (fun _ => True)
      (fun w' _ hr hi => ⟨hi.trans (stdioFlushBuffer_frame hr.writable hr.toSound).1.orientation, fun _ => trivial⟩)
      (fun w' _ bytes _ hi _ _ => hi.trans ⟨by simp [appendPending], by simp [appendPending], by simp [appendPending]⟩)
      data.length { startWrite w with file := ensureStorage (startWrite w).file } data [] hready ⟨rfl, rfl, rfl⟩
      (Nat.le_refl data.length)
    exact hsame

/-- What a step of wide output leaves: the stream in order, and its bytes behind the others. -/
structure Outputs (w w' : World (Logged κ)) (piece : List UInt8) : Prop where
  ready : OutputReady w'.file
  same : SameOrientation w.file w'.file
  output : w'.output = w.output ++ piece
  led : Relation.ReflTransGen RawWrite w.kernel w'.kernel

theorem Outputs.trans {w w₁ w₂ : World (Logged κ)} {piece piece' : List UInt8} (a : Outputs w w₁ piece)
    (b : Outputs w₁ w₂ piece') : Outputs w w₂ (piece ++ piece') :=
  ⟨b.ready, a.same.trans b.same, by rw [b.output, a.output, List.append_assoc], a.led.trans b.led⟩

theorem Outputs.refl {w : World (Logged κ)} (h : OutputReady w.file) : Outputs w w [] :=
  ⟨h, .refl _, (List.append_nil _).symm, .refl⟩

theorem markError_outputs {w : World (Logged κ)} (h : OutputReady w.file) (error : Nat) :
    Outputs w (markError w error) [] :=
  ⟨h.withState _, ⟨rfl, rfl, rfl⟩, (List.append_nil _).symm, .refl⟩

/-- One call of `stdio_write_unlocked` for the encoding of a character. -/
theorem stdioWrite_character {w : World (Logged κ)} (h : OutputReady w.file) {utf8 : Bool} {wc : Int}
    {bytes : List UInt8} (he : encodeValue wc utf8 = some bytes) :
    ∃ piece, Outputs w (stdioWrite w bytes).2 piece ∧
      ((stdioWrite w bytes).1 = bytes.length → piece = bytes) ∧
      ((stdioWrite w bytes).1 ≠ bytes.length →
        Front utf8 wc piece ∧ (WriteFails w.kernel (stdioWrite w bytes).2.kernel ∨ piece = [])) := by
  obtain ⟨hready, hle, hout⟩ := stdioWrite_output h bytes
  obtain ⟨hled, hshort⟩ := stdioWrite_led h.toSound bytes
  refine ⟨_, ⟨hready, stdioWrite_orientation h bytes, hout, hled⟩, fun hall => ?_, fun hpart => ⟨?_, ?_⟩⟩
  · rw [hall, List.take_length]
  · refine .inr ⟨bytes, he, List.take_prefix _ _, fun hall => hpart ?_⟩
    have := congrArg List.length hall
    rw [List.length_take] at this
    omega
  · refine (hshort (Nat.lt_of_le_of_ne hle hpart)).imp_right fun hnone => ?_
    rw [hnone.2, List.take_zero]

theorem wideWriteCharacter_outputs {w : World (Logged κ)} (h : OutputReady w.file) (wc : Int) :
    ∃ piece, Outputs w (wideWriteCharacter wc w).2 piece ∧
      ((wideWriteCharacter wc w).1.isSome = true → encodeValue wc w.file.state.wideUtf8 = some piece) ∧
      ((wideWriteCharacter wc w).1 = none →
        Front w.file.state.wideUtf8 wc piece ∧ (WriteFails w.kernel (wideWriteCharacter wc w).2.kernel ∨ piece = [])) := by
  unfold wideWriteCharacter wcrtombMode
  cases he : encodeValue wc w.file.state.wideUtf8 with
  | none => exact ⟨[], markError_outputs h eilseq, by simp, fun _ => ⟨.inl rfl, .inr rfl⟩⟩
  | some bytes =>
    dsimp only
    obtain ⟨piece, houtputs, hall, hpart⟩ := stdioWrite_character h he
    refine ⟨piece, ?_⟩
    split
    · rename_i hne
      exact ⟨houtputs, by simp, fun _ => hpart hne⟩
    · rename_i heq
      rw [not_not] at heq
      exact ⟨houtputs, fun _ => by rw [hall heq], by simp⟩

/-! ## A call -/

theorem fputwsLoop_outputs (s : List Int) {w : World (Logged κ)} (h : OutputReady w.file) :
    ∃ piece, Outputs w (fputwsLoop s w).2 piece ∧
      Contribution w.file.state.wideUtf8 s (fputwsLoop s w).1 piece ∧
      WholeUnless w.kernel (fputwsLoop s w).2.kernel w.file.state.wideUtf8 piece := by
  induction s generalizing w with
  | nil => exact ⟨[], .refl h, .whole (.nil _), .nothing _ _ _⟩
  | cons wc s ih =>
    obtain ⟨piece, houtputs, hsome, hnone⟩ := wideWriteCharacter_outputs h wc
    unfold fputwsLoop
    obtain ⟨⟨r, w₁⟩, hr⟩ : ∃ r, wideWriteCharacter wc w = r := ⟨_, rfl⟩
    rw [hr] at houtputs hsome hnone ⊢
    cases r with
    | none =>
      obtain ⟨hfront, hfailed⟩ := hnone rfl
      exact ⟨piece, houtputs, hfront.contribution s, .front hfailed⟩
    | some _ =>
      obtain ⟨rest, hrest, hcontribution, hwhole⟩ := ih houtputs.ready
      rw [houtputs.same.wideUtf8] at hcontribution hwhole
      exact ⟨piece ++ rest, houtputs.trans hrest, hcontribution.behind (hsome rfl),
        hwhole.character houtputs.led (hsome rfl)⟩

/-- The characters that decode, and whether all bytes do. -/
def decodedText (utf8 : Bool) : (fuel : Nat) → (rendered : List UInt8) → List Int × Bool
  | 0, _ => ([], true)
  | fuel + 1, rendered =>
    if rendered = [] then ([], true)
    else
      match decodeRenderedCharacter utf8 rendered with
      | none => ([], false)
      | some (wc, rest) =>
        let (text, whole) := decodedText utf8 fuel rest
        (wc :: text, whole)

theorem feeds_of_decodeRendered {utf8 : Bool} {rendered rest : List UInt8} {state : MbState} {wc : Int}
    (h : decodeRenderedLoop utf8 rendered state = some (wc, rest)) :
    ∃ bytes, rendered = bytes ++ rest ∧ Feeds utf8 state bytes wc := by
  induction rendered generalizing state with
  | nil => simp [decodeRenderedLoop] at h
  | cons byte rendered ih =>
    unfold decodeRenderedLoop at h
    obtain ⟨⟨result, pwc, after⟩, hd⟩ : ∃ d, mbrtowcMode (some [byte]) state utf8 = d := ⟨_, rfl⟩
    rw [hd] at h
    cases result with
    | eilseq => simp at h
    | incomplete =>
      obtain ⟨bytes, rfl, hf⟩ := ih h
      exact ⟨byte :: bytes, rfl, .more hd hf⟩
    | length n =>
      obtain ⟨rfl, rfl⟩ := Prod.mk.inj (Option.some.inj h)
      refine ⟨[byte], rfl, @Feeds.last utf8 state after byte (pwc.getD 0) n ?_⟩
      have hconsumes := mode_length (n := n) (by rw [hd])
      rw [hd] at hconsumes ⊢
      obtain ⟨c, hc⟩ : ∃ c, pwc = some c := by
        rcases hconsumes with ⟨-, hpwc, -⟩ | ⟨-, -, -, c, hpwc, -⟩
        · exact ⟨0, hpwc⟩
        · exact ⟨c, hpwc⟩
      rw [hc]
      rfl

theorem decodeRenderedCharacter_encode {utf8 : Bool} {rendered rest : List UInt8} {wc : Int}
    (h : decodeRenderedCharacter utf8 rendered = some (wc, rest)) :
    ∃ bytes, rendered = bytes ++ rest ∧ bytes ≠ [] ∧ encodeValue wc utf8 = some bytes := by
  obtain ⟨bytes, rfl, hf⟩ := feeds_of_decodeRendered h
  refine ⟨bytes, rfl, ?_, encode_of_feeds hf⟩
  cases hf with
  | last => simp
  | more => simp

theorem writeRenderedLoop_outputs {utf8 : Bool} {fuel : Nat} {rendered : List UInt8} (hfuel : rendered.length ≤ fuel)
    (count : Nat) {w : World (Logged κ)} (h : OutputReady w.file) :
    ∃ piece, Outputs w (writeRenderedLoop utf8 fuel rendered count w).2 piece ∧
      Contribution utf8 (decodedText utf8 fuel rendered).1
        (writeRenderedLoop utf8 fuel rendered count w).1.isSome piece ∧
      WholeUnless w.kernel (writeRenderedLoop utf8 fuel rendered count w).2.kernel utf8 piece ∧
      (∀ n, (writeRenderedLoop utf8 fuel rendered count w).1 = some n →
        n = count + (decodedText utf8 fuel rendered).1.length) := by
  induction fuel generalizing rendered count w with
  | zero => exact ⟨[], .refl h, .whole (.nil _), .nothing _ _ _, by simp [writeRenderedLoop, decodedText]⟩
  | succ fuel ih =>
    unfold writeRenderedLoop decodedText
    by_cases hnil : rendered = []
    · rw [if_pos hnil, if_pos hnil]
      exact ⟨[], .refl h, .whole (.nil _), .nothing _ _ _, by simp⟩
    rw [if_neg hnil, if_neg hnil]
    cases hd : decodeRenderedCharacter utf8 rendered with
    | none => exact ⟨[], markError_outputs h eilseq, .nothing _, .nothing _ _ _, by simp⟩
    | some d =>
      obtain ⟨wc, rest⟩ := d
      obtain ⟨bytes, rfl, hne, he⟩ := decodeRenderedCharacter_encode hd
      have hpos := List.length_pos_iff.2 hne
      have hbytes : (bytes ++ rest).take ((bytes ++ rest).length - rest.length) = bytes := by simp
      dsimp only
      rw [hbytes]
      obtain ⟨piece, houtputs, hall, hpart⟩ := stdioWrite_character h he
      split
      · rename_i hshort
        obtain ⟨hfront, hfailed⟩ := hpart hshort
        exact ⟨piece, houtputs, hfront.contribution _, .front hfailed, by simp⟩
      · rename_i heq
        rw [not_not] at heq
        rw [hall heq] at houtputs
        have hle : rest.length ≤ fuel := by
          rw [List.length_append] at hfuel
          omega
        obtain ⟨piece', hrest, hcontribution, hwhole, hcount⟩ := ih hle (count + 1) houtputs.ready
        refine ⟨bytes ++ piece', houtputs.trans hrest, hcontribution.behind he, hwhole.character houtputs.led he,
          fun n hn => ?_⟩
        rw [hcount n hn, List.length_cons]
        omega

/-! ## Operations -/

omit [Kernel κ] in
/-- What binding a stream for output leaves. -/
theorem wideRequireWritable_outputs {w : World (Logged κ)} (h : OutputReady w.file) (localeUtf8 : Bool) :
    OutputReady (wideRequireWritable w localeUtf8).2.file ∧
      (wideRequireWritable w localeUtf8).2.output = w.output ∧ (wideRequireWritable w localeUtf8).2.kernel = w.kernel ∧
      (w.file.state.wideOriented = true → SameOrientation w.file (wideRequireWritable w localeUtf8).2.file) ∧
      ((wideRequireWritable w localeUtf8).1 = true →
        (wideRequireWritable w localeUtf8).2.file.state.wideOriented = true) := by
  unfold wideRequireWritable requireWide
  by_cases hv : validStream w.file = true
  swap
  · rw [if_pos (by simp [hv])]
    exact ⟨h.withState _, rfl, rfl, fun _ => ⟨rfl, rfl, rfl⟩, by simp⟩
  rw [if_neg (by simp [hv])]
  split_ifs with hfresh hwide
  all_goals dsimp only
  · have hunbound : w.file.state.wideOriented ≠ true := by simpa using hfresh.2
    split
    · exact ⟨h.withState _, rfl, rfl, fun hw => absurd hw hunbound, by simp⟩
    · exact ⟨h.withState _, rfl, rfl, fun hw => absurd hw hunbound, by simp⟩
  · split
    · exact ⟨h.withState _, rfl, rfl, fun _ => ⟨rfl, rfl, rfl⟩, by simp⟩
    · exact ⟨h, rfl, rfl, fun _ => .refl _, fun _ => hwide.1⟩
  · exact ⟨h.withState _, rfl, rfl, fun _ => ⟨rfl, rfl, rfl⟩, by simp⟩

/-- What a call for a text leaves. The encoding of a stream that is still unbound is open. -/
structure Puts (w w' : World (Logged κ)) (text : List Int) (ok : Bool) (piece : List UInt8) : Prop where
  ready : OutputReady w'.file
  output : w'.output = w.output ++ piece
  bound : w.file.state.wideOriented = true → SameOrientation w.file w'.file
  led : Relation.ReflTransGen RawWrite w.kernel w'.kernel
  contribution : ∀ utf8, (w'.file.state.wideOriented = true → utf8 = w'.file.state.wideUtf8) →
    Contribution utf8 text ok piece ∧ WholeUnless w.kernel w'.kernel utf8 piece

theorem puts_refused {w w₁ : World (Logged κ)} (h : OutputReady w.file) {localeUtf8 : Bool}
    (hr : wideRequireWritable w localeUtf8 = (false, w₁)) (text : List Int) : Puts w w₁ text false [] := by
  obtain ⟨h1, hout, hkernel, hsame, -⟩ := wideRequireWritable_outputs h localeUtf8
  rw [hr] at h1 hout hkernel hsame
  refine ⟨h1, hout.trans (List.append_nil _).symm, hsame, ?_, fun utf8 _ => ⟨.nothing text, .nothing _ _ utf8⟩⟩
  rw [hkernel]

theorem puts_written {w w₁ w₂ : World (Logged κ)} (h : OutputReady w.file) {localeUtf8 ok : Bool}
    (hr : wideRequireWritable w localeUtf8 = (true, w₁)) {text : List Int} {piece : List UInt8}
    (ho : Outputs w₁ w₂ piece) (hc : Contribution w₁.file.state.wideUtf8 text ok piece)
    (hwhole : WholeUnless w₁.kernel w₂.kernel w₁.file.state.wideUtf8 piece) : Puts w w₂ text ok piece := by
  obtain ⟨-, hout, hkernel, hsame, hbound⟩ := wideRequireWritable_outputs h localeUtf8
  rw [hr] at hout hkernel hsame hbound
  refine ⟨ho.ready, by rw [ho.output, hout], fun hw => (hsame hw).trans ho.same, ?_, fun utf8 hutf8 => ?_⟩
  · rw [← hkernel]
    exact ho.led
  · obtain rfl : utf8 = w₁.file.state.wideUtf8 :=
      (hutf8 (ho.same.wideOriented.trans (hbound rfl))).trans ho.same.wideUtf8
    rw [hkernel] at hwhole
    exact ⟨hc, hwhole⟩

omit [Kernel κ] in
theorem wideRequireWritable_ready {w w₁ : World (Logged κ)} (h : OutputReady w.file) {localeUtf8 ok : Bool}
    (hr : wideRequireWritable w localeUtf8 = (ok, w₁)) : OutputReady w₁.file := by
  have := (wideRequireWritable_outputs h localeUtf8).1
  rwa [hr] at this

theorem fputwc_puts {w : World (Logged κ)} (h : OutputReady w.file) (wc : Int) (localeUtf8 : Bool) :
    ∃ piece, Puts w (fputwc wc localeUtf8 w).2 [wc] (fputwc wc localeUtf8 w).1.isSome piece := by
  unfold fputwc
  obtain ⟨⟨_ | _, w₁⟩, hr⟩ : ∃ r, wideRequireWritable w localeUtf8 = r := ⟨_, rfl⟩
  · rw [hr]
    exact ⟨[], puts_refused h hr _⟩
  · obtain ⟨piece, houtputs, hsome, hnone⟩ := wideWriteCharacter_outputs (wideRequireWritable_ready h hr) wc
    rw [hr]
    refine ⟨piece, ?_⟩
    dsimp only
    cases hw : (wideWriteCharacter wc w₁).1 with
    | none =>
      obtain ⟨hfront, hfailed⟩ := hnone hw
      exact puts_written h hr houtputs (hfront.contribution []) (.front hfailed)
    | some _ =>
      have hwhole : Encodings w₁.file.state.wideUtf8 [wc] (piece ++ []) := .cons (hsome (by rw [hw]; rfl)) (.nil _)
      rw [List.append_nil] at hwhole
      exact puts_written h hr houtputs (.whole hwhole) (.inr ⟨_, hwhole⟩)

/-- A failed `fputwc` puts out a front of its character, which is empty unless one of its
raw writes fails. -/
theorem fputwc_failed {w : World (Logged κ)} (h : OutputReady w.file) {wc : Int} {localeUtf8 : Bool}
    (hnone : (fputwc wc localeUtf8 w).1 = none) :
    ∃ front, (fputwc wc localeUtf8 w).2.output = w.output ++ front ∧
      Front (fputwc wc localeUtf8 w).2.file.state.wideUtf8 wc front ∧
      (WriteFails w.kernel (fputwc wc localeUtf8 w).2.kernel ∨ front = []) := by
  unfold fputwc at hnone ⊢
  obtain ⟨-, hout, hkernel, -⟩ := wideRequireWritable_outputs h localeUtf8
  obtain ⟨⟨_ | _, w₁⟩, hr⟩ : ∃ r, wideRequireWritable w localeUtf8 = r := ⟨_, rfl⟩
  · rw [hr] at hout ⊢
    exact ⟨[], hout.trans (List.append_nil _).symm, .inl rfl, .inr rfl⟩
  · rw [hr] at hnone hout hkernel ⊢
    obtain ⟨piece, houtputs, -, hfront⟩ := wideWriteCharacter_outputs (wideRequireWritable_ready h hr) wc
    obtain ⟨hfront, hfailed⟩ := hfront hnone
    rw [hkernel] at hfailed
    refine ⟨piece, by rw [houtputs.output, hout], ?_, hfailed⟩
    rw [houtputs.same.wideUtf8]
    exact hfront

theorem fputws_puts {w : World (Logged κ)} (h : OutputReady w.file) (s : Option (List Int)) (localeUtf8 : Bool) :
    ∃ piece, Puts w (fputws s localeUtf8 w).2 (s.getD []) (fputws s localeUtf8 w).1 piece := by
  unfold fputws
  cases s with
  | none =>
    exact ⟨[], h.withState _, (List.append_nil _).symm, fun _ => ⟨rfl, rfl, rfl⟩, .refl,
      fun utf8 _ => ⟨.nothing _, .nothing _ _ utf8⟩⟩
  | some s =>
    dsimp only
    obtain ⟨⟨_ | _, w₁⟩, hr⟩ : ∃ r, wideRequireWritable w localeUtf8 = r := ⟨_, rfl⟩
    · rw [hr]
      exact ⟨[], puts_refused h hr _⟩
    · obtain ⟨piece, houtputs, hcontribution, hwhole⟩ := fputwsLoop_outputs s (wideRequireWritable_ready h hr)
      rw [hr]
      exact ⟨piece, puts_written h hr houtputs hcontribution hwhole⟩

theorem fflush_led {w : World (Logged κ)} (h : OutputReady w.file) :
    Relation.ReflTransGen RawWrite w.kernel (fflush w).2.kernel := by
  unfold fflush
  split
  · exact .refl
  split
  · rename_i hm
    have hled := (stdioFlushBuffer_led hm h.toSound).1
    obtain ⟨⟨_ | _, w₁⟩, hf⟩ : ∃ r, stdioFlushBuffer w = r := ⟨_, rfl⟩
    · rw [hf] at hled ⊢
      exact hled
    · rw [hf] at hled ⊢
      exact hled
  · exact .refl

theorem fflush_puts {w : World (Logged κ)} (h : OutputReady w.file) :
    Puts w (fflush w).2 [] (fflush w).1 [] := by
  obtain ⟨hready, hout⟩ := fflush_output h
  refine ⟨hready, hout.trans (List.append_nil _).symm, fun _ => ?_, fflush_led h, fun utf8 _ => ⟨?_, .nothing _ _ utf8⟩⟩
  · unfold fflush
    split
    · exact ⟨rfl, rfl, rfl⟩
    split
    · rename_i hm
      have hframe := (stdioFlushBuffer_frame hm h.toSound).1.orientation
      obtain ⟨⟨_ | _, w₁⟩, hf⟩ : ∃ r, stdioFlushBuffer w = r := ⟨_, rfl⟩
      · rw [hf] at hframe ⊢
        exact hframe
      · rw [hf] at hframe ⊢
        exact hframe.trans ⟨rfl, rfl, rfl⟩
    · exact .refl _
  · cases (fflush w).1 with
    | true => exact .whole (.nil utf8)
    | false => exact .nothing []

section Machine

variable {α ν : Type} {malloc : Malloc ν} {next : α → Fetch → Nat × α} {arrays : Arrays}

/-- The characters `vfwprintf` has to write: none if the stream or the rendering fails. -/
def formattedText (malloc : Malloc ν) (next : α → Fetch → Nat × α) (arrays : Arrays) (localeUtf8 : Bool)
    (format : Option (List Int)) (args : α) (w : World κ) (heap : ν) : List Int :=
  match wideRequireWritable w localeUtf8 with
  | (false, _) => []
  | (true, w) =>
    match renderWide malloc next arrays format args w.file.state.wideUtf8 w.errno heap with
    | some ⟨some rendered, _, _⟩ => (decodedText w.file.state.wideUtf8 rendered.length rendered).1
    | _ => []

/-- `vfwprintf` writes the characters of its rendering, and counts them. -/
theorem vfwprintf_puts {w w' : World (Logged κ)} (h : OutputReady w.file) {localeUtf8 : Bool}
    {format : Option (List Int)} {args : α} {heap heap' : ν} {result : Option Nat}
    (hcall : vfwprintf malloc next arrays localeUtf8 format args w heap = some (result, w', heap')) :
    (∃ piece, Puts w w' (formattedText malloc next arrays localeUtf8 format args w heap) result.isSome piece) ∧
      ∀ n, result = some n → n = (formattedText malloc next arrays localeUtf8 format args w heap).length := by
  unfold vfwprintf at hcall
  unfold formattedText
  obtain ⟨⟨_ | _, w₁⟩, hr⟩ : ∃ r, wideRequireWritable w localeUtf8 = r := ⟨_, rfl⟩
  · rw [hr] at hcall ⊢
    obtain ⟨rfl, h⟩ := Prod.mk.inj (Option.some.inj hcall)
    obtain ⟨rfl, -⟩ := Prod.mk.inj h
    exact ⟨⟨[], puts_refused ‹_› hr _⟩, by simp⟩
  have h1 := wideRequireWritable_ready h hr
  rw [hr] at hcall ⊢
  dsimp only at hcall ⊢
  obtain ⟨r, hrender⟩ : ∃ r, renderWide malloc next arrays format args w₁.file.state.wideUtf8 w₁.errno heap = r :=
    ⟨_, rfl⟩
  rw [hrender] at hcall ⊢
  obtain _ | ⟨_ | rendered, e, heap₁⟩ := r
  · cases hcall
  · -- the rendering fails, and at most sets the error flag
    obtain ⟨rfl, h⟩ := Prod.mk.inj (Option.some.inj hcall)
    obtain ⟨rfl, -⟩ := Prod.mk.inj h
    refine ⟨⟨[], puts_written ‹_› hr ?_ (.nothing _) (.nothing _ _ _)⟩, by simp⟩
    split
    · exact ⟨h1.withState _, ⟨rfl, rfl, rfl⟩, (List.append_nil _).symm, .refl⟩
    · exact ⟨h1, ⟨rfl, rfl, rfl⟩, (List.append_nil _).symm, .refl⟩
  dsimp only at hcall ⊢
  obtain ⟨piece, houtputs, hcontribution, hwhole, hcount⟩ := @writeRenderedLoop_outputs κ _ w₁.file.state.wideUtf8
    rendered.length rendered (Nat.le_refl _) 0 { w₁ with errno := e } h1
  have hfrom : ∀ {u}, Outputs { w₁ with errno := e } u piece → Outputs w₁ u piece := fun ho => ⟨ho.1, ho.2, ho.3, ho.4⟩
  unfold writeRendered at hcall
  obtain ⟨⟨_ | count, w₂⟩, hwrite⟩ :
      ∃ r, writeRenderedLoop w₁.file.state.wideUtf8 rendered.length rendered 0 { w₁ with errno := e } = r := ⟨_, rfl⟩
  · rw [hwrite] at hcall houtputs hcontribution hwhole
    obtain ⟨rfl, h⟩ := Prod.mk.inj (Option.some.inj hcall)
    obtain ⟨rfl, -⟩ := Prod.mk.inj h
    exact ⟨⟨piece, puts_written ‹_› hr (hfrom houtputs) hcontribution hwhole⟩, by simp⟩
  · rw [hwrite] at hcall houtputs hcontribution hwhole hcount
    obtain ⟨rfl, h⟩ := Prod.mk.inj (Option.some.inj hcall)
    obtain ⟨rfl, -⟩ := Prod.mk.inj h
    refine ⟨⟨piece, puts_written ‹_› hr ⟨houtputs.1, houtputs.2, houtputs.3, houtputs.4⟩ hcontribution hwhole⟩,
      fun n hn => ?_⟩
    rw [← Option.some.inj hn, hcount count rfl, Nat.zero_add]

/-! ## Runs -/

/-- The wide output operations of a stream. -/
inductive WideOp (α : Type) where
  | fputwc (wc : Int)
  | fputws (s : Option (List Int))
  | vfwprintf (format : Option (List Int)) (args : α)
  | fflush

/-- A call that has returned: its characters, and whether it succeeded. -/
structure WideCall where
  text : List Int
  ok : Bool

/-- What an operation leaves, in a locale whose encoding is UTF-8 or not. -/
def WideOp.after (malloc : Malloc ν) (next : α → Fetch → Nat × α) (arrays : Arrays) (localeUtf8 : Bool) (w : World κ)
    (heap : ν) : WideOp α → Option (WideCall × World κ × ν)
  | .fputwc wc =>
    let (result, after) := Stdio.fputwc wc localeUtf8 w
    some (⟨[wc], result.isSome⟩, after, heap)
  | .fputws s =>
    let (ok, after) := Stdio.fputws s localeUtf8 w
    some (⟨s.getD [], ok⟩, after, heap)
  | .vfwprintf format args =>
    let text := formattedText malloc next arrays localeUtf8 format args w heap
    (Stdio.vfwprintf malloc next arrays localeUtf8 format args w heap).map fun (result, after) =>
      (⟨text, result.isSome⟩, after)
  | .fflush =>
    let (ok, after) := Stdio.fflush w
    some (⟨[], ok⟩, after, heap)

/-- A stream, the allocator, and the calls that have returned. -/
structure WideTranscript (κ ν : Type) where
  world : World (Logged κ)
  heap : ν
  calls : List WideCall

/-- Nothing written and nothing pending; any mode, buffer, capacity and orientation. -/
def WideTranscript.Start (t : WideTranscript κ ν) : Prop :=
  Sound t.world.file ∧ t.world.file.writeLength = 0 ∧ t.world.kernel.written = [] ∧ t.calls = []

/-- One operation, in whatever locale. -/
def WideTranscript.Step (malloc : Malloc ν) (next : α → Fetch → Nat × α) (arrays : Arrays) (t t' : WideTranscript κ ν) :
    Prop :=
  ∃ (localeUtf8 : Bool) (op : WideOp α) (call : WideCall),
    op.after malloc next arrays localeUtf8 t.world t.heap = some (call, t'.world, t'.heap) ∧ t'.calls = t.calls ++ [call]

theorem WideOp.after_puts {w w' : World (Logged κ)} (h : OutputReady w.file) {localeUtf8 : Bool} {heap heap' : ν}
    {op : WideOp α} {call : WideCall} (hop : op.after malloc next arrays localeUtf8 w heap = some (call, w', heap')) :
    ∃ piece, Puts w w' call.text call.ok piece := by
  cases op with
  | fputwc wc =>
    obtain ⟨rfl, hafter⟩ := Prod.mk.inj (Option.some.inj hop)
    obtain ⟨rfl, -⟩ := Prod.mk.inj hafter
    exact fputwc_puts h wc localeUtf8
  | fputws s =>
    obtain ⟨rfl, hafter⟩ := Prod.mk.inj (Option.some.inj hop)
    obtain ⟨rfl, -⟩ := Prod.mk.inj hafter
    exact fputws_puts h s localeUtf8
  | vfwprintf format args =>
    obtain ⟨⟨result, u, heap₁⟩, hcall, hafter⟩ := Option.map_eq_some_iff.1 hop
    obtain ⟨rfl, h1⟩ := Prod.mk.inj hafter
    obtain ⟨rfl, rfl⟩ := Prod.mk.inj h1
    exact (vfwprintf_puts h hcall).1
  | fflush =>
    obtain ⟨rfl, hafter⟩ := Prod.mk.inj (Option.some.inj hop)
    obtain ⟨rfl, -⟩ := Prod.mk.inj hafter
    exact ⟨[], fflush_puts h⟩

/-- A raw write has failed: every flag that watches for that is set. -/
def RawFailed (k : κ) : Prop := ∀ failed : κ → Bool, Observes failed → failed k = true

/-- What the calls of a run have put out, in the encoding of the stream or, as long as it is
unbound, in any. -/
structure Accounted (t : WideTranscript κ ν) : Prop where
  ready : OutputReady t.world.file
  pieces : ∃ pieces, t.world.output = pieces.flatten ∧
    ∀ utf8, (t.world.file.state.wideOriented = true → utf8 = t.world.file.state.wideUtf8) →
      List.Forall₂ (fun call piece => Contribution utf8 call.text call.ok piece) t.calls pieces
  whole : ∀ utf8, (t.world.file.state.wideOriented = true → utf8 = t.world.file.state.wideUtf8) →
    RawFailed t.world.kernel ∨ ∃ text, Encodings utf8 text t.world.output

theorem Accounted.step {t t' : WideTranscript κ ν} (h : Accounted t)
    (hs : WideTranscript.Step malloc next arrays t t') : Accounted t' := by
  obtain ⟨localeUtf8, op, call, hop, hcalls⟩ := hs
  obtain ⟨piece, hputs⟩ := op.after_puts h.ready hop
  obtain ⟨pieces, hout, hall⟩ := h.pieces
  -- a bound stream keeps its encoding
  have hkept : ∀ {utf8}, (t'.world.file.state.wideOriented = true → utf8 = t'.world.file.state.wideUtf8) →
      t.world.file.state.wideOriented = true → utf8 = t.world.file.state.wideUtf8 := by
    intro utf8 hutf8 hbound
    have hsame := hputs.bound hbound
    rw [hutf8 (hsame.wideOriented.trans hbound), hsame.wideUtf8]
  refine ⟨hputs.ready, ⟨pieces ++ [piece], ?_, fun utf8 hutf8 => ?_⟩, fun utf8 hutf8 => ?_⟩
  · rw [hputs.output, hout, List.flatten_append, List.flatten_singleton]
  · rw [hcalls]
    exact List.rel_append (hall utf8 (hkept hutf8)) (.cons (hputs.contribution utf8 hutf8).1 .nil)
  · rw [hputs.output]
    rcases h.whole utf8 (hkept hutf8) with hfailed | ⟨text, htext⟩
    · exact .inl fun failed ho => ho.led hputs.led (hfailed failed ho)
    rcases (hputs.contribution utf8 hutf8).2 with hfails | ⟨text', htext'⟩
    · exact .inl fun failed ho => ho.fails hfails
    · exact .inr ⟨text ++ text', htext.append htext'⟩

theorem reachable_accounted {t : WideTranscript κ ν}
    (h : Reachable WideTranscript.Start (WideTranscript.Step malloc next arrays) t) : Accounted t := by
  refine Reachable.invariant (fun t ht => ?_) (fun t t' ht hs => ht.step hs) h
  obtain ⟨hs, h0, hlog, hcalls⟩ := ht
  have hnil : t.world.output = [] := by
    unfold World.output
    rw [hlog, List.nil_append]
    exact List.eq_nil_of_length_eq_zero (by rw [pending_length, h0])
  refine ⟨{ toSound := hs, unbuffered := fun _ => h0 }, ⟨[], hnil, fun utf8 _ => by rw [hcalls]; exact .nil⟩, ?_⟩
  intro utf8 _
  rw [hnil]
  exact .inr ⟨[], .nil utf8⟩

/-- In particular in the encoding the stream has. -/
theorem Accounted.contributions {t : WideTranscript κ ν} (h : Accounted t) :
    ∃ pieces, t.world.kernel.written ++ t.world.file.pending = pieces.flatten ∧
      List.Forall₂ (fun call piece => Contribution t.world.file.state.wideUtf8 call.text call.ok piece) t.calls
        pieces := by
  obtain ⟨pieces, hout, hall⟩ := h.pieces
  exact ⟨pieces, hout, hall _ fun _ => rfl⟩

/-- In every run of wide output, over any kernel, what was delivered and what is pending are
the contributions of the calls in their order: the whole text of a call that succeeded, and of
one that failed some of its characters, and perhaps the front of the one it failed at. -/
theorem wide_output {t : WideTranscript κ ν}
    (h : Reachable WideTranscript.Start (WideTranscript.Step malloc next arrays) t) :
    ∃ pieces, t.world.kernel.written ++ t.world.file.pending = pieces.flatten ∧
      List.Forall₂ (fun call piece => Contribution t.world.file.state.wideUtf8 call.text call.ok piece) t.calls
        pieces :=
  (reachable_accounted h).contributions

/-- An unbuffered stream, nothing written, over a kernel that follows a script. -/
def unbufferedStart (script : Nat → Response) : WideTranscript Regular Unit where
  world :=
    { file := { mode := { writable := true, unbuffered := true } }
      kernel := ⟨{ contents := .empty, offset := 0, script }, []⟩ }
  heap := ()
  calls := []

theorem unbufferedStart_start (script : Nat → Response) : (unbufferedStart script).Start := by
  refine ⟨⟨?_, ?_, ?_, ?_, ?_⟩, rfl, rfl, rfl⟩
  all_goals simp [unbufferedStart]

/-- After `fputwc` of the euro sign. -/
def euroPut (script : Nat → Response) : WideTranscript Regular Unit where
  world := (fputwc 8364 true (unbufferedStart script).world).2
  heap := ()
  calls := [⟨[8364], (fputwc 8364 true (unbufferedStart script).world).1.isSome⟩]

theorem euroPut_reachable (script : Nat → Response) :
    Reachable WideTranscript.Start (WideTranscript.Step grant takeWord hi) (euroPut script) :=
  .next (.start (unbufferedStart_start script)) ⟨true, .fputwc 8364, _, rfl, rfl⟩

/-- An unbuffered stream whose kernel takes one byte of three and then fails. -/
theorem wide_output_torn :
    ∃ t : WideTranscript Regular Unit, t.calls = [⟨[8364], false⟩] ∧
      t.world.kernel.written ++ t.world.file.pending = [226] ∧
      ∃ pieces, t.world.kernel.written ++ t.world.file.pending = pieces.flatten ∧
        List.Forall₂ (fun call piece => Contribution t.world.file.state.wideUtf8 call.text call.ok piece) t.calls
          pieces := by
  have ht := euroPut_reachable fun n => if n = 0 then .short 1 else .fail 5
  exact ⟨_, rfl, by decide, wide_output ht⟩

/-- The output of a run is whole characters as long as no raw write has failed, and so is
what any call adds to it if none of its raw writes fails. A failed `fputwc` adds a front of
its character, and that is empty unless one of them fails. -/
theorem wide_output_whole {failed : κ → Bool} (ho : Observes failed) {t : WideTranscript κ ν}
    (h : Reachable WideTranscript.Start (WideTranscript.Step malloc next arrays) t) :
    (∃ pieces, t.world.kernel.written ++ t.world.file.pending = pieces.flatten ∧
      List.Forall₂ (fun call piece => Contribution t.world.file.state.wideUtf8 call.text call.ok piece) t.calls
        pieces) ∧
    (failed t.world.kernel.kernel = false →
      ∃ text, Encodings t.world.file.state.wideUtf8 text (t.world.kernel.written ++ t.world.file.pending)) ∧
    (∀ (localeUtf8 : Bool) (op : WideOp α) (call : WideCall) (w' : World (Logged κ)) (heap' : ν),
      op.after malloc next arrays localeUtf8 t.world t.heap = some (call, w', heap') →
      ∃ piece, w'.output = t.world.output ++ piece ∧ Contribution w'.file.state.wideUtf8 call.text call.ok piece ∧
        (WriteFails t.world.kernel w'.kernel ∨ ∃ text, Encodings w'.file.state.wideUtf8 text piece)) ∧
    ∀ wc localeUtf8, (fputwc wc localeUtf8 t.world).1 = none →
      ∃ front, (fputwc wc localeUtf8 t.world).2.output = t.world.output ++ front ∧
        Front (fputwc wc localeUtf8 t.world).2.file.state.wideUtf8 wc front ∧
        (WriteFails t.world.kernel (fputwc wc localeUtf8 t.world).2.kernel ∨ front = []) := by
  have ha := reachable_accounted h
  refine ⟨ha.contributions, fun hk => ?_, fun localeUtf8 op call w' heap' hop => ?_, fun wc localeUtf8 hnone => ?_⟩
  · rcases ha.whole _ fun _ => rfl with hfailed | htext
    · rw [hfailed _ (logged_observes ho)] at hk
      cases hk
    · exact htext
  · obtain ⟨piece, hputs⟩ := op.after_puts ha.ready hop
    obtain ⟨hcontribution, hwhole⟩ := hputs.contribution _ fun _ => rfl
    exact ⟨piece, hputs.output, hcontribution, hwhole⟩
  · exact fputwc_failed ha.ready hnone

/-- A regular file counts the raw writes that fail. -/
theorem regular_observes : Observes fun k : Regular => decide (k.failures ≠ 0) := by
  intro k data hd
  have hpos := List.length_pos_iff.2 hd
  obtain ⟨r, hr⟩ : ∃ r, k.script k.clock = r := ⟨_, rfl⟩
  cases r with
  | fail e => simp [Kernel.write, Regular.write, hr, Regular.failed, fails]
  | short m =>
    by_cases h0 : min m (min data.length (maxOffset - k.offset)) = 0
    · simp [Kernel.write, Regular.write, hr, h0, Regular.failed, fails]
    · simp [Kernel.write, Regular.write, hr, h0, fails]

theorem encodeValue_long {wc : Int} {bytes : List UInt8} (h : encodeValue wc true = some bytes) (hwc : 128 ≤ wc) :
    2 ≤ bytes.length := by
  obtain ⟨v, rfl⟩ := Int.eq_ofNat_of_zero_le (show 0 ≤ wc by omega)
  obtain ⟨-, hv⟩ := (encodeValue_isSome v).1 (by simp [h])
  rw [Int.toNat_natCast] at hv
  rw [encodeValue_eq hv] at h
  obtain ⟨a, n, he, hlead, -⟩ := Utf8.encode_lead (show 0x7f < v by omega) (validScalar_le hv)
  rw [← Option.some.inj h, he, List.length_cons, Utf8.tails_length]
  unfold Utf8.Leads at hlead
  omega

/-- The kernel takes one byte of three and then fails: the call fails, and its byte is
no character. -/
theorem fputwc_tears : ∃ t : WideTranscript Regular Unit,
    Reachable WideTranscript.Start (WideTranscript.Step grant takeWord hi) t ∧ t.calls = [⟨[8364], false⟩] ∧
      t.world.file.state.wideUtf8 = true ∧ t.world.kernel.written ++ t.world.file.pending = [226] ∧
      ¬ ∃ text, Encodings true text [226] := by
  refine ⟨_, euroPut_reachable fun n => if n = 0 then .short 1 else .fail 5, rfl, rfl, by decide, ?_⟩
  rintro ⟨text, h⟩
  cases text with
  | nil => cases h.nil_iff.1 rfl
  | cons wc text =>
    obtain ⟨encoded, rest, he, hbytes, -⟩ := h.uncons
    rcases encodeValue_bytes he with ⟨b, hb, -, rfl⟩ | ⟨hwc, hne, -⟩
    · obtain ⟨rfl, -⟩ := List.cons.inj hbytes
      revert hb
      decide
    · have hlong := encodeValue_long he hwc
      have hlen := congrArg List.length hbytes
      rw [List.length_append, List.length_singleton] at hlen
      omega

/-- A whole euro sign, and then one that the kernel takes one byte of. -/
theorem wide_output_whole_euro : ∃ t : WideTranscript Regular Unit,
    t.calls = [⟨[8364], true⟩] ∧ t.world.kernel.kernel.failures = 0 ∧
      (∃ text, Encodings true text (t.world.kernel.written ++ t.world.file.pending)) ∧
      (fputwc 8364 true t.world).1 = none ∧ ∃ front, (fputwc 8364 true t.world).2.output = t.world.output ++ front ∧
        Front true 8364 front ∧ (WriteFails t.world.kernel (fputwc 8364 true t.world).2.kernel ∨ front = []) := by
  obtain ⟨-, hwhole, -, hfront⟩ := wide_output_whole regular_observes
    (euroPut_reachable fun n => if n = 0 then .short 3 else if n = 1 then .short 1 else .fail 5)
  exact ⟨_, rfl, rfl, hwhole (by decide), by decide, hfront 8364 true (by decide)⟩

end Machine

end MiniLibc.Stdio
