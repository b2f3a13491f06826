import MiniLibc.Stdio.Sticky
/-!
# Lines of wide characters

`fgetws` against the bytes its stream delivers. `Reads` follows single-byte reads
and the decoder from one world to another; a call stops at the first newline, at
its limit, or where the bytes end or make no character. Which of these a result
tells apart depends on the end-of-file flag alone.
-/
open MiniLibc.Memory MiniLibc.Runs MiniLibc.Wchar

namespace MiniLibc.Stdio

variable {κ : Type} [Kernel κ]

/-! ## Single bytes -/

/-- A raw read of `n` bytes finds the end of the file. -/
def rawEnd (k : κ) (n : Nat) : Bool :=
  match Kernel.read k n with
  | (.ok [], _) => true
  | _ => false

/-- Where a read of one byte delivers nothing: it met the end of the file, and
not an error. -/
def atEnd (w : World κ) : Bool :=
  if w.file.mode.unbuffered then rawEnd w.kernel 1
  else w.file.state.eof || rawEnd w.kernel (ensureStorage w.file).bufferSize

/-- What a read of one byte leaves as it was. -/
structure ReadFrame (w w' : World κ) : Prop where
  mode : w'.file.mode = w.file.mode
  writeNeedsSync : w'.file.state.writeNeedsSync = w.file.state.writeNeedsSync
  wideUtf8 : w'.file.state.wideUtf8 = w.file.state.wideUtf8
  settled : Settled w'.file

/-- A read of one byte delivers it, and then a buffered stream was not at its
end; or it delivers nothing, and sets the flag at the end of the file. -/
structure ReadOne (w : World κ) (bytes : List UInt8) (w' : World κ) : Prop where
  frame : ReadFrame w w'
  length_le : bytes.length ≤ 1
  delivered : bytes ≠ [] → w'.file.state.eof = w.file.state.eof ∧
    (w.file.mode.unbuffered = false → w.file.state.eof = false)
  empty : bytes = [] → w'.file.state.eof = (w.file.state.eof || atEnd w)

theorem readUnbuffered_one {w : World κ} (hu : w.file.mode.unbuffered = true) :
    ReadOne w (readUnbuffered 1 w 1).1 (readUnbuffered 1 w 1).2 := by
  have hsettled : ∀ {w' : World κ}, w'.file.mode = w.file.mode → Settled w'.file := by
    intro w' hm hno
    rw [hm, hu] at hno
    cases hno
  unfold readUnbuffered
  rw [if_neg Nat.one_ne_zero]
  dsimp only
  have hend : atEnd w = rawEnd w.kernel 1 := if_pos hu
  rw [rawEnd] at hend
  generalize Kernel.read w.kernel 1 = answer at hend
  obtain ⟨e | bytes, k⟩ := answer
  · exact ⟨⟨rfl, rfl, rfl, hsettled rfl⟩, Nat.zero_le _, fun h => absurd rfl h, fun _ => by simp [hend, markError]⟩
  dsimp only
  split
  · rename_i h0
    obtain rfl := List.eq_nil_of_length_eq_zero h0
    exact ⟨⟨rfl, rfl, rfl, hsettled rfl⟩, Nat.zero_le _, fun h => absurd rfl h, fun _ => by simp [hend]⟩
  split
  · rename_i h0 h1
    refine ⟨⟨rfl, rfl, rfl, hsettled rfl⟩, Nat.zero_le _, fun h => absurd rfl h, fun _ => ?_⟩
    obtain ⟨b, rest, rfl⟩ := List.exists_cons_of_length_pos (by omega : 0 < bytes.length)
    simp [hend, markError]
  · rename_i h0 h1
    have hlen : bytes.length = 1 := by omega
    unfold readUnbuffered
    refine ⟨⟨rfl, rfl, rfl, hsettled rfl⟩, by simp [hlen], fun _ => ⟨rfl, fun h => ?_⟩, fun h => ?_⟩
    · rw [hu] at h
      cases h
    · have := congrArg List.length h
      simp [hlen] at this

/-- Taking one byte of what is already there. -/
theorem ReadOne.taken {w w' : World κ} {bytes : List UInt8} (hm : w'.file.mode = w.file.mode)
    (hs : w'.file.state.writeNeedsSync = w.file.state.writeNeedsSync)
    (hu : w'.file.state.wideUtf8 = w.file.state.wideUtf8) (he : w.file.state.eof = false)
    (he' : w'.file.state.eof = false) (hlen : bytes.length = 1) : ReadOne w bytes w' where
  frame := ⟨hm, hs, hu, settled_of_eof he'⟩
  length_le := Nat.le_of_eq hlen
  delivered _ := ⟨he'.trans he.symm, fun _ => he⟩
  empty h := by
    subst h
    cases hlen

theorem readLoop_one {w : World κ} (hu : w.file.mode.unbuffered = false) (h : Settled w.file) :
    ReadOne w (readLoop 2 { w with file := ensureStorage w.file } 1).1
      (readLoop 2 { w with file := ensureStorage w.file } 1).2 := by
  have hzero : ∀ w' : World κ, readLoop 1 w' 0 = ([], w') := fun w' => rfl
  have hend : atEnd w = (w.file.state.eof || rawEnd w.kernel (ensureStorage w.file).bufferSize) :=
    if_neg (by simp [hu])
  unfold readLoop
  rw [if_neg Nat.one_ne_zero]
  dsimp only
  split
  · rename_i hp
    have hchunk : min (w.file.pushbackLength - w.file.pushbackOffset) 1 = 1 := by
      have : w.file.pushbackOffset < w.file.pushbackLength := hp
      omega
    have he : w.file.state.eof = false := by
      by_contra he
      exact absurd hp (h hu (by simpa using he)).1
    rw [ensureStorage_pushbackOffset, ensureStorage_pushbackLength, hchunk, hzero]
    exact .taken rfl rfl rfl he he (by simp [bytesAt_length])
  split
  · rename_i hp hc
    have hchunk : min (w.file.readLength - w.file.readOffset) 1 = 1 := by
      have : w.file.readOffset < w.file.readLength := hc
      omega
    have he : w.file.state.eof = false := by
      by_contra he
      exact absurd hc (h hu (by simpa using he)).2
    rw [ensureStorage_readOffset, ensureStorage_readLength, hchunk, hzero]
    exact .taken rfl rfl rfl he he (by simp [bytesAt_length])
  split
  · rename_i hp hc he
    have he' : w.file.state.eof = true := he
    exact ⟨⟨rfl, rfl, rfl, fun _ _ => ⟨hp, hc⟩⟩, Nat.zero_le _, fun h => absurd rfl h, fun _ => by simp [he']⟩
  rename_i hp hc he
  have he' : w.file.state.eof = false := by simpa using he
  rcases refill_cases { w with file := ensureStorage w.file } with ⟨e, k, hk, hr⟩ | ⟨k, hk, hr⟩ |
    ⟨bytes, k, m, hk, hbig, hr⟩ | ⟨bytes, k, hk, hne, hle, hr⟩
  · have hraw : rawEnd w.kernel (ensureStorage w.file).bufferSize = false := by
      have hk' : Kernel.read w.kernel (ensureStorage w.file).bufferSize = (.error e, k) := hk
      rw [rawEnd, hk']
    rw [hr]
    exact ⟨⟨rfl, rfl, rfl, settled_of_eof he'⟩, Nat.zero_le _, fun h => absurd rfl h,
      fun _ => by simp [hend, hraw, he', markError]⟩
  · have hraw : rawEnd w.kernel (ensureStorage w.file).bufferSize = true := by
      have hk' : Kernel.read w.kernel (ensureStorage w.file).bufferSize = (.ok [], k) := hk
      rw [rawEnd, hk']
    rw [hr]
    exact ⟨⟨rfl, rfl, rfl, fun _ _ => ⟨hp, Nat.lt_irrefl 0⟩⟩, Nat.zero_le _, fun h => absurd rfl h,
      fun _ => by simp [hend, hraw, atEof]⟩
  · have hraw : rawEnd w.kernel (ensureStorage w.file).bufferSize = false := by
      have hk' : Kernel.read w.kernel (ensureStorage w.file).bufferSize = (.ok bytes, k) := hk
      obtain ⟨b, rest, rfl⟩ := List.exists_cons_of_length_pos (Nat.zero_lt_of_lt hbig)
      rw [rawEnd, hk']
    rw [hr]
    refine ⟨⟨setStorage_mode .., ?_, ?_, settled_of_eof ?_⟩, Nat.zero_le _, fun h => absurd rfl h, fun _ => ?_⟩
    · simp [markError]
    · simp [markError]
    · simp [markError, he']
    · simp [hend, hraw, he', markError]
  · rw [hr]
    dsimp only
    have hpos := List.length_pos_iff.2 hne
    unfold readLoop
    rw [if_neg Nat.one_ne_zero, if_neg (by simpa using hp), if_pos (by simpa using hpos)]
    have hchunk : min ((refilled (ensureStorage w.file) bytes).readLength -
        (refilled (ensureStorage w.file) bytes).readOffset) 1 = 1 := by
      simp only [refilled_readLength, refilled_readOffset]
      omega
    dsimp only
    rw [hchunk]
    refine .taken ?_ ?_ ?_ he' ?_ (by simp [readLoop, bytesAt_length]) <;> simp [readLoop, takeCached, he']

theorem stdioRead_one {w : World κ} (hm : w.file.mode.readable = true) (hs : w.file.state.writeNeedsSync = false)
    (h : Settled w.file) : ReadOne w (stdioRead w 1).1 (stdioRead w 1).2 := by
  rcases stdioRead_cases w 1 with ⟨h0, -⟩ | ⟨hbad, -, -⟩ | ⟨-, -, -, hr⟩
  · cases h0
  · simp [hm, hs] at hbad
  · rw [hr]
    split
    · rename_i hu
      exact readUnbuffered_one hu
    · rename_i hu
      exact readLoop_one (by simpa using hu) h

/-! ## Characters -/

/-- Bytes read one by one, from the decoder state at one world to the one at
another, make these characters. -/
inductive Reads (utf8 : Bool) : MbState → World κ → List Wint → MbState → World κ → Prop where
  | stop (state : MbState) (w : World κ) : Reads utf8 state w [] state w
  | more {state next state' : MbState} {w w₁ w' : World κ} {chars : List Wint} {byte : UInt8} {wc : Option Int} :
      stdioRead w 1 = ([byte], w₁) → mbrtowcMode (some [byte]) state utf8 = ⟨.incomplete, wc, next⟩ →
      Reads utf8 next w₁ chars state' w' → Reads utf8 state w chars state' w'
  | char {state next state' : MbState} {w w₁ w' : World κ} {chars : List Wint} {byte : UInt8} {wc : Option Int}
      {n : Nat} : stdioRead w 1 = ([byte], w₁) → mbrtowcMode (some [byte]) state utf8 = ⟨.length n, wc, next⟩ →
      Reads utf8 {} w₁ chars state' w' → Reads utf8 state w (toWint (wc.getD 0) :: chars) state' w'

/-- The next read of a byte meets the end of the file. -/
def Ends (w : World κ) : Prop := (stdioRead w 1).1 = [] ∧ atEnd w = true

/-- The next read of a byte meets an error. -/
def ReadFails (w : World κ) : Prop := (stdioRead w 1).1 = [] ∧ atEnd w = false

/-- The next byte makes the sequence invalid. -/
def Malformed (utf8 : Bool) (state : MbState) (w : World κ) : Prop :=
  ∃ byte w₁ wc next, stdioRead w 1 = ([byte], w₁) ∧ mbrtowcMode (some [byte]) state utf8 = ⟨.eilseq, wc, next⟩

/-- The file ends within a character. -/
def Cut (state : MbState) (w : World κ) : Prop := mbsinit state = false ∧ Ends w

/-- A read error or an encoding error. -/
def Fails (utf8 : Bool) (state : MbState) (w : World κ) : Prop := ReadFails w ∨ Malformed utf8 state w ∨ Cut state w

/-- A world that passes the guards of wide input. -/
structure WideReadable (utf8 : Bool) (w : World κ) : Prop where
  readable : w.file.mode.readable = true
  writeNeedsSync : w.file.state.writeNeedsSync = false
  wideUtf8 : w.file.state.wideUtf8 = utf8
  settled : Settled w.file

section
variable {utf8 : Bool}

theorem WideReadable.one {w : World κ} (h : WideReadable utf8 w) : ReadOne w (stdioRead w 1).1 (stdioRead w 1).2 :=
  stdioRead_one h.readable h.writeNeedsSync h.settled

theorem WideReadable.next {w w₁ : World κ} {bytes : List UInt8} (h : WideReadable utf8 w)
    (hr : stdioRead w 1 = (bytes, w₁)) : WideReadable utf8 w₁ := by
  have hframe := h.one.frame
  rw [hr] at hframe
  exact ⟨hframe.mode ▸ h.readable, hframe.writeNeedsSync.trans h.writeNeedsSync, hframe.wideUtf8.trans h.wideUtf8,
    hframe.settled⟩

/-- Characters, and then those behind them. -/
theorem Reads.append {state state' state'' : MbState} {w w' w'' : World κ} {chars rest : List Wint}
    (h : Reads utf8 state w chars state' w') (h' : Reads utf8 state' w' rest state'' w'') :
    Reads utf8 state w (chars ++ rest) state'' w'' := by
  induction h with
  | stop => exact h'
  | more hr hd _ ih => exact .more hr hd (ih h')
  | char hr hd _ ih => exact .char hr hd (ih h')

theorem Reads.patience_le {state state' : MbState} {w w' : World κ} {chars : List Wint}
    (h : Reads utf8 state w chars state' w') (hp : patience state ≤ 4) : patience state' ≤ 4 := by
  induction h with
  | stop => exact hp
  | more _ hd _ ih => exact ih ((Nat.le_of_lt (patience_lt hd)).trans hp)
  | char _ _ _ ih => exact ih (by decide)

/-- Behind delivered bytes the stream is as it was, and so is the flag. -/
theorem Reads.frame {state state' : MbState} {w w' : World κ} {chars : List Wint}
    (h : Reads utf8 state w chars state' w') (hw : WideReadable utf8 w) :
    WideReadable utf8 w' ∧ w'.file.mode = w.file.mode ∧ w'.file.state.eof = w.file.state.eof := by
  induction h with
  | stop state w => exact ⟨hw, rfl, rfl⟩
  | @more _ _ _ w w₁ _ _ byte _ hr _ _ ih | @char _ _ _ w w₁ _ _ byte _ _ hr _ _ ih =>
    have hone := hw.one
    rw [hr] at hone
    obtain ⟨hw', hm, he⟩ := ih (hw.next hr)
    exact ⟨hw', hm.trans hone.frame.mode, he.trans (hone.delivered (List.cons_ne_nil _ _)).1⟩

/-- The character loop reads a byte and goes on. -/
theorem wideReadLoop_step {state : MbState} (h : patience state ≤ 4) (w : World κ) :
    wideReadLoop utf8 4 state w =
      match stdioRead w 1 with
      | ([byte], w) =>
        match mbrtowcMode (some [byte]) state utf8 with
        | ⟨.eilseq, _, _⟩ => (none, markError w eilseq)
        | ⟨.incomplete, _, state⟩ => wideReadLoop utf8 4 state w
        | ⟨.length _, wc, _⟩ => (some (toWint (wc.getD 0)), w)
      | (_, w) => if !mbsinit state then (none, markError w eilseq) else (none, w) := by
  rw [← wideReadLoop_bound h]
  rfl

/-- A character is read, or the bytes end or make none. -/
theorem wideReadLoop_reads {state : MbState} {w : World κ} (hp : patience state ≤ 4) (hw : WideReadable utf8 w) :
    (∃ wc w₁, wideReadLoop utf8 4 state w = (some wc, w₁) ∧ Reads utf8 state w [wc] {} w₁) ∨
    ∃ state' w', (wideReadLoop utf8 4 state w).1 = none ∧ Reads utf8 state w [] state' w' ∧
      (mbsinit state' = true ∧ Ends w' ∨ Fails utf8 state' w') := by
  induction hk : patience state using Nat.strong_induction_on generalizing state w with
  | _ k ih =>
    rw [wideReadLoop_step hp]
    have hone := hw.one
    obtain ⟨⟨bytes, w₁⟩, hr⟩ : ∃ r, stdioRead w 1 = r := ⟨_, rfl⟩
    rw [hr] at hone ⊢
    match bytes, hone.length_le with
    | [], _ =>
      right
      refine ⟨state, w, ?_, .stop state w, ?_⟩
      · dsimp only
        split <;> rfl
      · have hnil : (stdioRead w 1).1 = [] := by rw [hr]
        cases hend : atEnd w with
        | false => exact .inr (.inl ⟨hnil, hend⟩)
        | true =>
          cases hinit : mbsinit state with
          | false => exact .inr (.inr (.inr ⟨hinit, hnil, hend⟩))
          | true => exact .inl ⟨rfl, hnil, hend⟩
    | [byte], _ =>
      obtain ⟨⟨result, wc, next⟩, hd⟩ : ∃ d, mbrtowcMode (some [byte]) state utf8 = d := ⟨_, rfl⟩
      dsimp only
      rw [hd]
      cases result with
      | eilseq => exact .inr ⟨state, w, rfl, .stop state w, .inr (.inr (.inl ⟨byte, w₁, wc, next, hr, hd⟩))⟩
      | length n => exact .inl ⟨_, w₁, rfl, .char hr hd (.stop {} w₁)⟩
      | incomplete =>
        have hlt := patience_lt hd
        rcases ih (patience next) (by omega) (by omega) (hw.next hr) rfl with ⟨c, w₂, h, hreads⟩ |
          ⟨state', w', h, hreads, hstop⟩
        · exact .inl ⟨c, w₂, h, .more hr hd hreads⟩
        · exact .inr ⟨state', w', h, .more hr hd hreads, hstop⟩

/-! ## Lines -/

/-- The loop of `fgetws` from within a character, with room for `room` more
behind it. -/
def lineFrom (utf8 : Bool) (state : MbState) (room length : Nat) (w : World κ) : List Wint × Bool × World κ :=
  match wideReadLoop utf8 4 state w with
  | (none, w) => ([], if w.file.state.eof then length ≠ 0 else false, w)
  | (some wc, w) =>
    if wc = 10 then ([wc], true, w)
    else
      let (line, ok, w) := fgetwsLoop room (length + 1) w
      (wc :: line, ok, w)

theorem fgetwsLoop_line {w : World κ} (hw : w.file.state.wideUtf8 = utf8) (room length : Nat) :
    fgetwsLoop (room + 1) length w = lineFrom utf8 {} room length w := by
  subst hw
  rfl

/-- Characters that are no newline are stored, and the loop goes on behind them. -/
theorem Reads.line {state state' : MbState} {w w' : World κ} {chars : List Wint} (h : Reads utf8 state w chars state' w')
    (hp : patience state ≤ 4) (hw : WideReadable utf8 w) {room : Nat} (hroom : chars.length ≤ room)
    (hnl : 10 ∉ chars) (length : Nat) :
    lineFrom utf8 state room length w =
      let (line, rest) := lineFrom utf8 state' (room - chars.length) (length + chars.length) w'
      (chars ++ line, rest) := by
  induction h generalizing room length with
  | stop state w => rfl
  | @more state next _ w w₁ _ _ byte wc hr hd _ ih =>
    have hlt := patience_lt hd
    rw [← ih (by omega) (hw.next hr) hroom hnl]
    unfold lineFrom
    rw [wideReadLoop_step hp, hr]
    dsimp only
    rw [hd]
  | @char state next _ w w₁ w' chars byte wc n hr hd _ ih =>
    obtain ⟨hne, hnl⟩ := List.ne_and_not_mem_of_not_mem_cons hnl
    obtain ⟨room, rfl⟩ : ∃ r, room = r + 1 := ⟨room - 1, by simp only [List.length_cons] at hroom; omega⟩
    have hlen : chars.length ≤ room := by simpa using hroom
    have hnext := ih (by decide) (hw.next hr) hlen hnl (length + 1)
    have hloop : lineFrom utf8 state (room + 1) length w =
        let (line, ok, w₂) := fgetwsLoop (room + 1) (length + 1) w₁
        (toWint (wc.getD 0) :: line, ok, w₂) := by
      unfold lineFrom
      rw [wideReadLoop_step hp, hr]
      dsimp only
      rw [hd]
      dsimp only
      rw [if_neg (Ne.symm hne)]
    rw [hloop, fgetwsLoop_line (hw.next hr).wideUtf8, hnext, List.length_cons, Nat.add_sub_add_right,
      Nat.add_assoc, Nat.add_comm 1]
    rfl

/-- Where no character can be read the loop stops, and the flag decides. -/
theorem line_stops {state : MbState} {w : World κ} (hp : patience state ≤ 4) (hw : WideReadable utf8 w)
    (h : Fails utf8 state w) (room length : Nat) :
    ∃ w', lineFrom utf8 state room length w = ([], if w'.file.state.eof then decide (length ≠ 0) else false, w') ∧
      (w'.file.state.eof = true ↔ Cut state w ∨ (w.file.mode.unbuffered = true ∧ w.file.state.eof = true)) := by
  have hone := hw.one
  unfold lineFrom
  rw [wideReadLoop_step hp]
  obtain ⟨⟨bytes, w₁⟩, hr⟩ : ∃ r, stdioRead w 1 = r := ⟨_, rfl⟩
  rw [hr] at hone ⊢
  have hbuffered : atEnd w = false → w.file.mode.unbuffered = false → w.file.state.eof = false := by
    intro hend hu
    rw [atEnd, hu, if_neg Bool.false_ne_true, Bool.or_eq_false_iff] at hend
    exact hend.1
  have hflag : ∀ e, w₁.file.state.eof = e → ∃ w', (match
      (if !mbsinit state then (none, markError w₁ eilseq) else (none, w₁) : Option Wint × World κ) with
      | (none, w) => (([] : List Wint), if w.file.state.eof then decide (length ≠ 0) else false, w)
      | (some wc, w) =>
        if wc = 10 then ([wc], true, w)
        else
          let (line, ok, w) := fgetwsLoop room (length + 1) w
          (wc :: line, ok, w)) = ([], if w'.file.state.eof then decide (length ≠ 0) else false, w') ∧
        w'.file.state.eof = e := by
    intro e he
    cases mbsinit state
    · exact ⟨markError w₁ eilseq, rfl, he⟩
    · exact ⟨w₁, rfl, he⟩
  rcases h with ⟨hnil, hend⟩ | ⟨byte, w₂, wc, next, hr', hd⟩ | ⟨hinit, hnil, hend⟩
  · obtain rfl : bytes = [] := by rw [hr] at hnil; exact hnil
    obtain ⟨w', hw', he⟩ := hflag _ (hone.empty rfl)
    refine ⟨w', hw', ?_⟩
    rw [he, hend, Bool.or_false]
    constructor
    · intro h
      refine .inr ⟨?_, h⟩
      by_contra hu
      rw [hbuffered hend (by simpa using hu)] at h
      cases h
    · rintro (⟨-, -, hend'⟩ | ⟨-, h⟩)
      · rw [hend] at hend'
        cases hend'
      · exact h
  · obtain ⟨rfl, rfl⟩ : bytes = [byte] ∧ w₁ = w₂ := by
      rw [hr] at hr'
      exact ⟨congrArg Prod.fst hr', congrArg Prod.snd hr'⟩
    obtain ⟨he, hbuf⟩ := hone.delivered (List.cons_ne_nil _ _)
    refine ⟨markError w₁ eilseq, ?_, ?_⟩
    · dsimp only
      rw [hd]
    · show w₁.file.state.eof = true ↔ _
      rw [he]
      constructor
      · intro h
        refine .inr ⟨?_, h⟩
        by_contra hu
        rw [hbuf (by simpa using hu)] at h
        cases h
      · rintro (⟨-, hnil, -⟩ | ⟨-, h⟩)
        · rw [hr] at hnil
          cases hnil
        · exact h
  · obtain rfl : bytes = [] := by rw [hr] at hnil; exact hnil
    obtain ⟨w', hw', he⟩ := hflag _ (hone.empty rfl)
    refine ⟨w', hw', ?_⟩
    rw [he, hend, Bool.or_true]
    exact ⟨fun _ => .inl ⟨hinit, hnil, hend⟩, fun _ => rfl⟩

/-- Why a loop stops that keeps its result: a newline, its limit, the end of the
file between characters, or a failure behind a character. -/
theorem fgetwsLoop_kept {w : World κ} (hw : WideReadable utf8 w) {room length : Nat}
    (h : (fgetwsLoop room length w).2.1 = true) :
    (fgetwsLoop room length w).1.getLast? = some 10 ∨ (fgetwsLoop room length w).1.length = room ∨
      ∃ state w', Reads utf8 {} w (fgetwsLoop room length w).1 state w' ∧ 10 ∉ (fgetwsLoop room length w).1 ∧
        (fgetwsLoop room length w).1.length < room ∧ (length ≠ 0 ∨ (fgetwsLoop room length w).1 ≠ []) ∧
        (mbsinit state = true ∧ Ends w' ∨ Fails utf8 state w') := by
  induction room generalizing length w with
  | zero => exact .inr (.inl rfl)
  | succ room ih =>
    rw [fgetwsLoop_line hw.wideUtf8, lineFrom] at h ⊢
    rcases wideReadLoop_reads (show patience {} ≤ 4 by decide) hw with ⟨wc, w₁, hloop, hreads⟩ | ⟨state, w', hloop, hreads, hstop⟩
    · rw [hloop] at h ⊢
      dsimp only at h ⊢
      split at h
      · rename_i hnl
        rw [if_pos hnl, hnl]
        exact .inl rfl
      · rename_i hnl
        rw [if_neg hnl]
        have hrest := @ih w₁ (hreads.frame hw).1 (length + 1) h
        generalize fgetwsLoop room (length + 1) w₁ = result at hrest h
        obtain ⟨rest, ok, w₂⟩ := result
        dsimp only at hrest ⊢
        rcases hrest with hlast | hlen | ⟨state, w', hr, hmem, hlt, -, hstop⟩
        · left
          rw [List.getLast?_cons, hlast]
          rfl
        · exact .inr (.inl (by rw [List.length_cons, hlen]))
        · refine .inr (.inr ⟨state, w', hreads.append hr, ?_, by simpa using hlt, .inr (List.cons_ne_nil _ _), hstop⟩)
          exact List.not_mem_cons_of_ne_of_not_mem (Ne.symm hnl) hmem
    · generalize wideReadLoop utf8 4 {} w = result at hloop h
      obtain ⟨_ | wc, w₁⟩ := result
      · dsimp only at h ⊢
        right
        right
        refine ⟨state, w', hreads, List.not_mem_nil, Nat.succ_pos room, .inl ?_, hstop⟩
        split at h
        · simpa using h
        · cases h
      · cases hloop

end

/-! ## `fgetws` -/

/-- Behind its guards, before a newline and below its limit, a call has read these
characters, and is at this world. -/
structure Reaches (n : Int) (localeUtf8 : Bool) (w : World κ) (chars : List Wint) (state : MbState) (w' : World κ) :
    Prop where
  readable : (wideRequireReadable w localeUtf8).1 = true
  reads : Reads (wideRequireReadable w localeUtf8).2.file.state.wideUtf8 {} (wideRequireReadable w localeUtf8).2 chars
    state w'
  length_lt : chars.length < (n - 1).toNat
  unbroken : 10 ∉ chars

/-- A call reports what it met: its result is null where reading fails, and a line
has characters and ends at a newline, the limit or the end of the file. -/
structure Reports (n : Int) (localeUtf8 : Bool) (w : World κ) : Prop where
  null {chars : List Wint} {state : MbState} {w' : World κ} :
    Reaches n localeUtf8 w chars state w' → Fails w'.file.state.wideUtf8 state w' → (fgetws n localeUtf8 w).1.2 = false
  line : (fgetws n localeUtf8 w).1.2 = true → (fgetws n localeUtf8 w).1.1 ≠ [] ∧
    ((fgetws n localeUtf8 w).1.1.getLast? = some 10 ∨ (fgetws n localeUtf8 w).1.1.length = (n - 1).toNat ∨
      ∃ state w', Reaches n localeUtf8 w (fgetws n localeUtf8 w).1.1 state w' ∧ mbsinit state = true ∧ Ends w')

/-- Behind characters of the line the file ends within a character; or anything
fails, on an unbuffered stream whose end-of-file flag was set before the call. -/
def Hidden (n : Int) (localeUtf8 : Bool) (w : World κ) : Prop :=
  ∃ chars state w', Reaches n localeUtf8 w chars state w' ∧ chars ≠ [] ∧
    (Cut state w' ∨
      w.file.mode.unbuffered = true ∧ w.file.state.eof = true ∧ Fails w'.file.state.wideUtf8 state w')

/-- One operation, on a stream behind any kernel. -/
def Operated (w w' : World (Counted κ)) : Prop := ∃ op : StreamOp, w' = op.after w

/-- A stream whose end-of-file flag is not set, as any is that has just been opened. -/
def FlagClear (w : World (Counted κ)) : Prop := w.file.state.eof = false

theorem operated_settled {w : World (Counted κ)} (h : Reachable FlagClear Operated w) : Settled w.file :=
  h.invariant (I := fun w : World (Counted κ) => Settled w.file) (fun _ h => settled_of_eof h)
    fun _ _ h ⟨op, hw⟩ => hw ▸ op.after_settled h

omit [Kernel κ] in
/-- Past the guards of wide input the stream can be read, and its mode and its
end-of-file flag are as before. -/
theorem wideRequireReadable_opens {w : World (Counted κ)} {localeUtf8 : Bool} (h : Settled w.file)
    (hopen : (wideRequireReadable w localeUtf8).1 = true) :
    WideReadable (wideRequireReadable w localeUtf8).2.file.state.wideUtf8 (wideRequireReadable w localeUtf8).2 := by
  have hsettled := (wideRequireReadable_still w localeUtf8).settled h
  have hguard : (wideRequireReadable w localeUtf8).2.file.mode.readable = true ∧
      (wideRequireReadable w localeUtf8).2.file.state.writeNeedsSync = false := by
    revert hopen
    unfold wideRequireReadable
    generalize requireWide w localeUtf8 = result
    obtain ⟨_ | _, w₁⟩ := result
    · intro hopen
      cases hopen
    · dsimp only
      split
      · intro hopen
        cases hopen
      · rename_i hguard
        intro _
        simpa using hguard
  exact ⟨hguard.1, hguard.2, rfl, hsettled⟩

section
variable {w w' : World (Counted κ)} {n : Int} {localeUtf8 : Bool} {chars : List Wint} {state : MbState}

/-- Where a call stands, its stream can be read, and its mode and its end-of-file
flag are those before the call. -/
theorem Reaches.frame (hs : Settled w.file) (h : Reaches n localeUtf8 w chars state w') :
    WideReadable w'.file.state.wideUtf8 w' ∧ w'.file.mode = w.file.mode ∧ w'.file.state.eof = w.file.state.eof := by
  have hstill := wideRequireReadable_still w localeUtf8
  obtain ⟨hw, hm, he⟩ := h.reads.frame (wideRequireReadable_opens hs h.readable)
  exact ⟨⟨hw.readable, hw.writeNeedsSync, rfl, hw.settled⟩, hm.trans hstill.mode, he.trans hstill.eof⟩

theorem fgetws_line (hn : 1 < n) (hopen : (wideRequireReadable w localeUtf8).1 = true) :
    (fgetws n localeUtf8 w).1 =
      let (line, ok, _) := fgetwsLoop (n - 1).toNat 0 (wideRequireReadable w localeUtf8).2
      (line, ok) := by
  unfold fgetws
  rw [if_neg (by omega)]
  generalize wideRequireReadable w localeUtf8 = result at hopen
  obtain ⟨_ | _, w₁⟩ := result
  · cases hopen
  · rfl

/-- A call that fails returns the characters before the failure, and whether there
were any if it finds the end-of-file flag set. -/
theorem Reaches.stops (hs : Settled w.file) (hn : 1 < n) (h : Reaches n localeUtf8 w chars state w')
    (hf : Fails w'.file.state.wideUtf8 state w') :
    ∃ e : Bool, (fgetws n localeUtf8 w).1.2 = (if e then decide (chars ≠ []) else false) ∧
      (e = true ↔ Cut state w' ∨ (w.file.mode.unbuffered = true ∧ w.file.state.eof = true)) := by
  obtain ⟨hw, hm, he⟩ := h.frame hs
  have hopen := wideRequireReadable_opens hs h.readable
  obtain ⟨room, hroom⟩ : ∃ room, (n - 1).toNat = room + 1 := ⟨(n - 1).toNat - 1, by omega⟩
  have hlen := h.length_lt
  have hline := h.reads.line (by decide) hopen (show chars.length ≤ room by omega) h.unbroken 0
  have hwide : w'.file.state.wideUtf8 = (wideRequireReadable w localeUtf8).2.file.state.wideUtf8 :=
    (h.reads.frame hopen).1.wideUtf8
  rw [hwide] at hf hw
  obtain ⟨w₂, hstop, hflag⟩ := line_stops (h.reads.patience_le (by decide)) hw hf (room - chars.length) (0 + chars.length)
  refine ⟨w₂.file.state.eof, ?_, ?_⟩
  · rw [fgetws_line hn h.readable, hroom, fgetwsLoop_line rfl, hline, hstop]
    simp
  · rw [hflag, hm, he]

/-- In any state a stream gets into, a call reports what it met exactly where
nothing is hidden from it. -/
theorem fgetws_exact (h : Reachable FlagClear Operated w) (hn : 1 < n) :
    Reports n localeUtf8 w ↔ ¬Hidden n localeUtf8 w := by
  have hs := operated_settled h
  constructor
  · rintro hreports ⟨chars, state, w', hreaches, hne, hhidden⟩
    have hfails : Fails w'.file.state.wideUtf8 state w' :=
      hhidden.elim (fun hcut => .inr (.inr hcut)) (fun hlate => hlate.2.2)
    obtain ⟨e, hresult, he⟩ := hreaches.stops hs hn hfails
    have hset : e = true := he.2 (hhidden.imp_right fun hlate => ⟨hlate.1, hlate.2.1⟩)
    rw [hreports.null hreaches hfails, hset, if_pos rfl, decide_eq_true hne] at hresult
    cases hresult
  · intro hopen
    have hnull : ∀ {chars : List Wint} {state : MbState} {w' : World (Counted κ)},
        Reaches n localeUtf8 w chars state w' → Fails w'.file.state.wideUtf8 state w' →
          (fgetws n localeUtf8 w).1.2 = false := by
      intro chars state w' hreaches hfails
      obtain ⟨e, hresult, he⟩ := hreaches.stops hs hn hfails
      rw [hresult]
      cases e with
      | false => rfl
      | true =>
        apply decide_eq_false
        intro hne
        exact hopen ⟨chars, state, w', hreaches, hne, (he.1 rfl).imp_right fun hlate => ⟨hlate.1, hlate.2, hfails⟩⟩
    refine ⟨hnull, fun hok => ?_⟩
    have hguard : (wideRequireReadable w localeUtf8).1 = true := by
      by_contra hguard
      revert hok
      unfold fgetws
      rw [if_neg (by omega)]
      generalize wideRequireReadable w localeUtf8 = result at hguard
      obtain ⟨_ | _, w₁⟩ := result
      · exact Bool.false_ne_true
      · exact absurd rfl hguard
    have hwide := wideRequireReadable_opens hs hguard
    have hloop := fgetws_line hn hguard
    have hkept := @fgetwsLoop_kept _ _ _ _ hwide (n - 1).toNat 0
    generalize fgetwsLoop (n - 1).toNat 0 (wideRequireReadable w localeUtf8).2 = result at hloop hkept
    obtain ⟨line, ok, w₂⟩ := result
    rw [hloop] at hok ⊢
    rcases hkept hok with hlast | hlen | ⟨state, w', hreads, hmem, hlt, hne, hstop⟩
    · refine ⟨?_, .inl hlast⟩
      rintro rfl
      cases hlast
    · refine ⟨?_, .inr (.inl hlen)⟩
      rintro rfl
      have hzero : 0 = (n - 1).toNat := hlen
      omega
    · have hreaches : Reaches n localeUtf8 w line state w' := ⟨hguard, hreads, hlt, hmem⟩
      refine ⟨hne.resolve_left (fun h0 => h0 rfl), .inr (.inr ⟨state, w', hreaches, ?_⟩)⟩
      apply hstop.resolve_right
      intro hfails
      have hframe := hreads.frame hwide
      rw [← hframe.1.wideUtf8] at hfails
      have := hnull hreaches hfails
      rw [hloop] at this
      cases hok.symm.trans this

end

/-! ## Two lines -/

/-- A buffered stream on what was typed. -/
def typing (typed : List (List UInt8)) : World (Counted Terminal) :=
  { file := { mode := { readable := true } }, kernel := ⟨⟨typed⟩, 0⟩ }

/-- A letter and the first byte of another character, and then the end of the file:
the letter is returned as a line, and the stream is in error. -/
theorem fgetws_cut :
    let w := typing [[65, 0xC3]]
    FlagClear w ∧ (fgetws 10 true w).1 = ([65], true) ∧ (fgetws 10 true w).2.file.state.error = true ∧
      ¬Reports 10 true w := by
  intro w
  refine ⟨rfl, by decide, by decide, fun hreports => ?_⟩
  let opened := (wideRequireReadable w true).2
  let first := (stdioRead opened 1).2
  let second := (stdioRead first 1).2
  have hfirst : stdioRead opened 1 = ([65], first) := rfl
  have hsecond : stdioRead first 1 = ([0xC3], second) := rfl
  have hletter : mbrtowcMode (some [65]) {} true = ⟨.length 1, some 65, {}⟩ := rfl
  have hlead : mbrtowcMode (some [0xC3]) {} true = ⟨.incomplete, none, (mbrtowcMode (some [0xC3]) {} true).state⟩ := rfl
  have hreaches : Reaches 10 true w [65] (mbrtowcMode (some [0xC3]) {} true).state second :=
    ⟨by decide, .char hfirst hletter (.more hsecond hlead (.stop _ _)), by decide, by decide⟩
  have hcut : Cut (mbrtowcMode (some [0xC3]) {} true).state second := by
    refine ⟨?_, ?_, ?_⟩ <;> decide
  have hnull := hreports.null hreaches (.inr (.inr hcut))
  revert hnull
  decide

/-- A letter and a newline. -/
theorem fgetws_exact_newline : Reports 10 true (typing [[65, 10]]) := by
  have hclear : FlagClear (typing [[65, 10]]) := rfl
  obtain ⟨first, second, hfirst, hsecond⟩ : ∃ first second,
      stdioRead (wideRequireReadable (typing [[65, 10]]) true).2 1 = ([65], first) ∧
        stdioRead first 1 = ([10], second) := ⟨_, _, rfl, rfl⟩
  have hutf8 : (wideRequireReadable (typing [[65, 10]]) true).2.file.state.wideUtf8 = true := rfl
  apply (fgetws_exact (.start hclear) (by decide)).2
  rintro ⟨chars, state, w', ⟨-, hreads, -, hunbroken⟩, hne, ⟨hinit, -⟩ | ⟨hunbuffered, -⟩⟩
  · rw [hutf8] at hreads
    cases hreads with
    | stop => exact hne rfl
    | more hr hd =>
      cases hr.symm.trans hfirst
      cases hd
    | char hr hd hrest =>
      cases hr.symm.trans hfirst
      cases hrest with
      | stop => cases hinit
      | more hr hd =>
        cases hr.symm.trans hsecond
        cases hd
      | char hr hd =>
        cases hr.symm.trans hsecond
        cases hd
        exact hunbroken (.tail _ (.head _))
  · cases hunbuffered

end MiniLibc.Stdio
