import MiniLibc.Stdio.WideWrite
/-!
# Wide characters through a file

What wide output calls deliver, wide input calls give back: the characters of a run of
successful calls are read from the bytes they left, one by one or line by line, whatever the
raw writes and raw reads cut the encodings into.
-/
open MiniLibc.Args MiniLibc.Memory MiniLibc.Runs MiniLibc.Wchar

namespace MiniLibc.Stdio

variable {κ : Type} [Kernel κ] {S : κ → List UInt8 → Prop} {utf8 : Bool} {input : List Int}

/-- A reader: its stream, and the characters it took and did not push back. -/
structure Reader (κ : Type) where
  world : World κ
  took : List Wint

/-- One wide input call. -/
inductive Reader.Step (localeUtf8 : Bool) : Reader κ → Reader κ → Prop where
  | fgetwc {w w' : World κ} {took : List Wint} {c : Wint} : fgetwc localeUtf8 w = (some c, w') →
      Step localeUtf8 ⟨w, took⟩ ⟨w', took ++ [c]⟩
  | fgetws {w w' : World κ} {took line : List Wint} {n : Int} {ok : Bool} :
      fgetws n localeUtf8 w = ((line, ok), w') → Step localeUtf8 ⟨w, took⟩ ⟨w', took ++ line⟩
  | ungetwc {w w' : World κ} {took : List Wint} {c : Wint} : ungetwc c localeUtf8 w = (some c, w') →
      Step localeUtf8 ⟨w, took ++ [c]⟩ ⟨w', took⟩

/-! ## Steps of a cursor -/

/-- The characters behind the cursor, as they were read. -/
def StringCursor.read (s : StringCursor Int) : List Wint := s.behind.reverse.map toWint

theorem get_read {s : StringCursor Int} :
    ((wideStringSource utf8).get s).2.read = s.read ++ (s.ahead.head?.map toWint).toList := by
  obtain ⟨behind, _ | ⟨wc, ahead⟩, errno⟩ := s
  · exact (List.append_nil _).symm
  · show (wc :: behind).reverse.map toWint = behind.reverse.map toWint ++ [toWint wc]
    simp

omit [Kernel κ] in
theorem WideCursor.readable {w w₁ : World κ} {s : StringCursor Int} (h : WideCursor S utf8 input w₁ s)
    {localeUtf8 : Bool} (hr : requireWide w localeUtf8 = (true, w₁)) : wideRequireReadable w localeUtf8 = (true, w₁) := by
  obtain ⟨bytes, -, hsupplied⟩ := h.supplied
  unfold wideRequireReadable
  rw [hr]
  simp [hsupplied.readable, hsupplied.noSync]

theorem fgetwsLoop_cursor (hS : Supplies S) (room length : Nat) {w : World κ} {s : StringCursor Int}
    (h : WideCursor S utf8 input w s) :
    ∃ line ok w' s', fgetwsLoop room length w = (line, ok, w') ∧ WideCursor S utf8 input w' s' ∧
      s'.read = s.read ++ line := by
  induction room generalizing length w s with
  | zero => exact ⟨[], true, w, s, rfl, h, (List.append_nil _).symm⟩
  | succ room ih =>
    obtain ⟨w₁, hread, hw₁, -⟩ := wideReadCharacter_supplied hS h
    have hget := @get_read utf8 s
    unfold fgetwsLoop
    rw [hread]
    cases hc : s.ahead.head?.map toWint with
    | none =>
      rw [hc] at hget
      exact ⟨_, _, _, _, rfl, hw₁, hget⟩
    | some c =>
      rw [hc] at hget
      dsimp only
      split
      · exact ⟨_, _, _, _, rfl, hw₁, by rw [hget, Option.toList_some]⟩
      · obtain ⟨line, ok, w', s', hloop, hw', hline⟩ := ih (length + 1) hw₁
        rw [hloop]
        refine ⟨_, _, _, _, rfl, hw', ?_⟩
        rw [hline, hget, List.append_assoc]
        rfl

omit [Kernel κ] in
theorem WideCursor.error {w : World κ} {s : StringCursor Int} (h : WideCursor S utf8 input w s) (error : Nat) :
    WideCursor S utf8 input (markError w error) s := by
  obtain ⟨bytes, hbytes, hsupplied⟩ := h.supplied
  have hs : Supplied S { w with file.state.error := true } bytes := hsupplied.withState rfl rfl
  exact ⟨⟨bytes, hbytes, ⟨⟨hs.readable, hs.noSync, hs.buffered⟩, hs.sound, hs.rest, hs.ended⟩⟩, h.stream, h.encoding,
    h.pushback, h.whole⟩

omit [Kernel κ] in
theorem requireWide_error {w w₁ : World κ} {localeUtf8 : Bool} (h : requireWide w localeUtf8 = (true, w₁)) (error : Nat) :
    requireWide (markError w error) localeUtf8 = (true, markError w₁ error) := by
  unfold requireWide at h ⊢
  change (if (!validStream w.file) = true then _ else if (!w.file.state.byteOriented) = true ∧
    (!w.file.state.wideOriented) = true then _ else if w.file.state.wideOriented = true ∧
    (!w.file.state.byteOriented) = true then _ else _) = _
  split_ifs at h ⊢ with hv hfresh hwide
  · cases (Prod.mk.inj h).1
  · obtain rfl := (Prod.mk.inj h).2
    rfl
  · obtain rfl := (Prod.mk.inj h).2
    rfl
  · cases (Prod.mk.inj h).1

/-! ## Reading -/

/-- A reader that took the characters behind a cursor. Its first call binds the stream. -/
def Follows (S : κ → List UInt8 → Prop) (utf8 : Bool) (input : List Int) (r : Reader κ) : Prop :=
  ∃ w s, requireWide r.world utf8 = (true, w) ∧ WideCursor S utf8 input w s ∧ r.took = s.read

omit [Kernel κ] in
theorem WideCursor.follows {w : World κ} {s : StringCursor Int} (h : WideCursor S utf8 input w s) {took : List Wint}
    (ht : took = s.read) : Follows S utf8 input ⟨w, took⟩ :=
  ⟨w, s, requireWide_ready h.stream utf8, h, ht⟩

theorem Follows.fgetwc (hS : Supplies S) {r : Reader κ} (h : Follows S utf8 input r) :
    ∃ rest w s, input.map toWint = r.took ++ rest ∧ fgetwc utf8 r.world = (rest.head?, w) ∧
      WideCursor S utf8 input w s ∧ s.read = r.took ++ rest.head?.toList := by
  obtain ⟨w, s, hrequire, hcursor, htook⟩ := h
  obtain ⟨w₁, hread, hw₁, -⟩ := wideReadCharacter_supplied hS hcursor
  refine ⟨s.ahead.map toWint, w₁, _, ?_, ?_, hw₁, ?_⟩
  · rw [htook, ← hcursor.whole, StringCursor.read, StringCursor.whole, List.map_append]
  · unfold Stdio.fgetwc
    rw [hcursor.readable hrequire]
    dsimp only
    rw [hread, List.head?_map]
  · rw [get_read, htook, List.head?_map]

theorem Follows.fgetws (hS : Supplies S) {r : Reader κ} (h : Follows S utf8 input r) (n : Int) :
    ∃ line ok w, fgetws n utf8 r.world = ((line, ok), w) ∧ Follows S utf8 input ⟨w, r.took ++ line⟩ := by
  obtain ⟨w, s, hrequire, hcursor, htook⟩ := h
  unfold Stdio.fgetws
  by_cases hn : n ≤ 0
  · -- no call to bind the stream: it stays as it is, but for the error
    rw [if_pos hn]
    refine ⟨[], false, _, rfl, ?_⟩
    rw [List.append_nil]
    exact ⟨_, s, requireWide_error hrequire einval, hcursor.error einval, htook⟩
  · rw [if_neg hn, hcursor.readable hrequire]
    obtain ⟨line, ok, w', s', hloop, hw', hread⟩ := fgetwsLoop_cursor hS (n - 1).toNat 0 hcursor
    dsimp only
    rw [hloop]
    exact ⟨line, ok, w', rfl, hw'.follows (by rw [hread, htook])⟩

theorem encodings_encode {wide : List Int} {bytes : List UInt8} (h : Encodings utf8 wide bytes) {wc : Int}
    (hwc : wc ∈ wide) : ∃ encoded, encodeValue wc utf8 = some encoded := by
  induction wide generalizing bytes with
  | nil => cases hwc
  | cons c wide ih =>
    obtain ⟨encoded, rest, he, -, hrest⟩ := h.uncons
    rcases List.mem_cons.1 hwc with rfl | hwc
    · exact ⟨encoded, he⟩
    · exact ih hrest hwc

omit [Kernel κ] in
/-- The character read last, pushed back. -/
theorem Follows.ungetwc {bytes : List UInt8} (hinput : Encodings utf8 input bytes) {w w' : World κ} {took : List Wint}
    {c : Wint} (h : Follows S utf8 input ⟨w, took ++ [c]⟩) (hu : ungetwc c utf8 w = (some c, w')) :
    Follows S utf8 input ⟨w', took⟩ := by
  obtain ⟨w₁, s, hrequire, hcursor, htook⟩ := h
  obtain ⟨-, w₂, pushed, hrequire', hencode, hpush⟩ := ungetwc_some hu
  rw [hrequire] at hrequire'
  obtain rfl := (Prod.mk.inj hrequire').2
  obtain ⟨behind, ahead, errno⟩ := s
  obtain ⟨wc, behind, rfl⟩ : ∃ wc rest, behind = wc :: rest := by
    cases behind with
    | nil => simp [StringCursor.read] at htook
    | cons wc rest => exact ⟨wc, rest, rfl⟩
  have hlast : took = behind.reverse.map toWint ∧ c = toWint wc := by
    have hread : took ++ [c] = behind.reverse.map toWint ++ [toWint wc] := by simpa [StringCursor.read] using htook
    obtain ⟨h1, h2⟩ := List.append_inj' hread rfl
    exact ⟨h1, List.singleton_inj.1 h2⟩
  obtain ⟨rfl, rfl⟩ := hlast
  have hmem : wc ∈ input := by
    rw [← hcursor.whole]
    simp [StringCursor.whole]
  obtain ⟨encoded, he⟩ := encodings_encode hinput hmem
  obtain ⟨h0, hmax⟩ := encodeValue_range he
  rw [(toWchar_toWint h0 hmax).1, hcursor.encoding, he] at hencode
  obtain rfl := Option.some.inj hencode
  -- a pushback that is taken finds none pending
  obtain ⟨-, -, hnone, hpos, -⟩ := stdioPushback_true hpush
  have hempty : w₁.file.pushback = [] := by
    apply List.eq_nil_of_length_eq_zero
    rw [pushback_length]
    omega
  obtain ⟨rest, hrest, hsupplied⟩ := hcursor.supplied
  obtain ⟨w₃, hpush', hsupplied', hmarks, hback⟩ := hsupplied.push hempty encoded (List.ne_nil_of_length_pos hpos)
    (feeds_encode he).2
  rw [hpush] at hpush'
  obtain rfl := (Prod.mk.inj hpush').2
  have hcursor' : WideCursor S utf8 input w' ⟨behind, wc :: ahead, errno⟩ :=
    ⟨⟨_, .cons he hrest, hsupplied'⟩, hcursor.stream.marks hmarks, hmarks.wideUtf8.trans hcursor.encoding,
      .inr ⟨wc, ahead, rfl, by rw [hback, he]⟩, by rw [← hcursor.whole]; simp [StringCursor.whole]⟩
  exact hcursor'.follows rfl

theorem Follows.step (hS : Supplies S) {bytes : List UInt8} (hinput : Encodings utf8 input bytes) {r r' : Reader κ}
    (h : Follows S utf8 input r) (hs : Reader.Step utf8 r r') : Follows S utf8 input r' := by
  cases hs with
  | @fgetwc w w' took c hget =>
    obtain ⟨rest, w₁, s, -, hget', hcursor, hread⟩ := h.fgetwc hS
    obtain ⟨hc, rfl⟩ := Prod.mk.inj (hget.symm.trans hget')
    rw [← hc] at hread
    exact hcursor.follows hread.symm
  | @fgetws w w' took line n ok hline =>
    obtain ⟨line', ok', w₁, hline', hfollows⟩ := h.fgetws hS n
    obtain ⟨h1, rfl⟩ := Prod.mk.inj (hline.symm.trans hline')
    obtain ⟨rfl, -⟩ := Prod.mk.inj h1
    exact hfollows
  | ungetwc hu => exact h.ungetwc hinput hu

/-! ## Writing and reading -/

theorem Contribution.text {text : List Int} {bytes : List UInt8} (h : Contribution utf8 text true bytes) :
    Encodings utf8 text bytes := by
  cases h with
  | whole h => exact h

/-- The text of calls that all succeeded. -/
theorem contributions_text {calls : List WideCall} {pieces : List (List UInt8)}
    (h : List.Forall₂ (fun call piece => Contribution utf8 call.text call.ok piece) calls pieces)
    (hok : ∀ call ∈ calls, call.ok = true) : Encodings utf8 (calls.flatMap WideCall.text) pieces.flatten := by
  induction h with
  | nil => exact .nil utf8
  | @cons call piece calls pieces hc _ ih =>
    rw [hok call (List.mem_cons_self ..)] at hc
    exact hc.text.append (ih fun c hc => hok c (List.mem_cons_of_mem call hc))

section Machine

variable {κ' α ν : Type} [Kernel κ'] {malloc : Malloc ν} {next : α → Fetch → Nat × α} {arrays : Arrays}

/-- A run of wide output calls that all succeed, and whose bytes are all delivered, can be read
back: whatever wide input calls follow on a stream over those bytes, the characters taken are the
first ones written, the next `fgetwc` gives the one after them, and the end of the file comes
behind the last. -/
theorem wide_round_trip {t : WideTranscript κ' ν}
    (hwrite : Reachable WideTranscript.Start (WideTranscript.Step malloc next arrays) t)
    (hok : ∀ call ∈ t.calls, call.ok = true) (hflushed : t.world.file.pending = []) (hS : Supplies S) {w : World κ}
    (h : Supplied S w t.world.kernel.written) (hp : w.file.pushback = []) (hb : w.file.state.byteOriented = false)
    (hu : w.file.state.wideOriented = true → w.file.state.wideUtf8 = t.world.file.state.wideUtf8) {r : Reader κ}
    (hread : Reachable (· = ⟨w, []⟩) (Reader.Step t.world.file.state.wideUtf8) r) :
    ∃ rest, (t.calls.flatMap WideCall.text).map toWint = r.took ++ rest ∧
      (fgetwc t.world.file.state.wideUtf8 r.world).1 = rest.head? := by
  obtain ⟨pieces, hout, hpieces⟩ := (reachable_accounted hwrite).contributions
  have hinput := contributions_text hpieces hok
  rw [← hout, hflushed, List.append_nil] at hinput
  have hfollows : Follows S t.world.file.state.wideUtf8 (t.calls.flatMap WideCall.text) r := by
    refine Reachable.invariant (fun r hr => ?_) (fun r r' hr hs => hr.step hS hinput hs) hread
    obtain ⟨w', hrequire, hsupplied, hstream, hutf8, hpush⟩ := requireWide_supplied h hb hu
    subst hr
    refine ⟨w', { ahead := t.calls.flatMap WideCall.text }, hrequire, ?_, rfl⟩
    exact ⟨⟨_, hinput, hsupplied⟩, hstream, hutf8, .inl (hpush.trans hp), rfl⟩
  obtain ⟨rest, w', s, htext, hget, -⟩ := hfollows.fgetwc hS
  exact ⟨rest, htext, by rw [hget]⟩

/-- A kernel that takes one byte in each raw write, behind an unbuffered stream. -/
def byteByByte : WideTranscript Regular Unit where
  world :=
    { file := { mode := { writable := true, unbuffered := true } }
      kernel := ⟨{ contents := .empty, offset := 0, script := fun _ => .short 1 }, []⟩ }
  heap := ()
  calls := []

/-- A euro sign, written byte by byte and read in raw reads of two bytes at most. -/
theorem wide_round_trip_euro :
    ∃ r : Reader Drip, r.took = [8364] ∧ ∃ rest, [8364] = r.took ++ rest ∧ (fgetwc true r.world).1 = rest.head? := by
  have ht : byteByByte.Start := ⟨⟨by decide, by decide, by decide, by decide, by decide⟩, rfl, rfl, rfl⟩
  have hput : (fputwc 8364 true byteByByte.world).1.isSome = true := rfl
  have hstep : WideTranscript.Step grant takeWord hi byteByByte
      ⟨(fputwc 8364 true byteByByte.world).2, (), [⟨[8364], (fputwc 8364 true byteByByte.world).1.isSome⟩]⟩ :=
    ⟨true, .fputwc 8364, _, rfl, rfl⟩
  rw [hput] at hstep
  have hrun := Reachable.next (.start ht) hstep
  generalize hw : (fputwc 8364 true byteByByte.world).2 = written at hrun
  have hlog : written.kernel.written = [226, 130, 172] := by rw [← hw]; rfl
  have hutf8 : written.file.state.wideUtf8 = true := by rw [← hw]; rfl
  have hpending : written.file.pending = [] := by rw [← hw]; rfl
  have hsupplied : Supplied (fun (k : Drip) text => k.left = text) (dripping [226, 130, 172]) written.kernel.written := by
    rw [hlog]
    exact dripping_supplied _
  have hround {r : Reader Drip}
      (hread : Reachable (· = ⟨dripping [226, 130, 172], []⟩) (Reader.Step written.file.state.wideUtf8) r) :=
    wide_round_trip hrun (by simp) hpending drip_supplies hsupplied rfl rfl (by simp [dripping]) hread
  have htext : ([⟨[8364], true⟩] : List WideCall).flatMap WideCall.text = [8364] := rfl
  have hchar : toWint 8364 = 8364 := by decide
  rw [hutf8, htext, List.map_singleton, hchar] at hround
  obtain ⟨rest, hrest, hget⟩ := hround (.start rfl)
  obtain rfl : rest = [8364] := hrest.symm
  obtain ⟨⟨c, after⟩, hfirst⟩ : ∃ r, fgetwc true (dripping [226, 130, 172]) = r := ⟨_, rfl⟩
  rw [hfirst] at hget
  obtain rfl : c = some 8364 := hget
  exact ⟨⟨after, [8364]⟩, rfl, hround (.next (.start rfl) (.fgetwc hfirst))⟩

end Machine

end MiniLibc.Stdio
