import MiniLibc.Stdio.ScanString
import MiniLibc.Stdio.Supply
import MiniLibc.Stdio.WideStore
import MiniLibc.Wchar.Boundaries
/-!
# Scanning a stream

`fscanf` over a buffered stream does what `sscanf` does over a string of the same
bytes, wherever the raw reads cut them, and `fwscanf` over the encodings of characters
what `swscanf` does over these characters.
-/
open MiniLibc.FloatParse MiniLibc.Memory MiniLibc.Wchar

namespace MiniLibc.Stdio

variable {κ ν : Type} [Kernel κ]

/-! ## The calls -/

/-- `__mini_scan_dispatch` of `scan_sync.c` around the one of `scan.c`. -/
def fscanDispatch (localeUtf8 : Bool) (fuel : Nat) (format : List UInt8) (args : ScanArgs) (memory : Mem) (w : World κ) :
    Option (Int × Scan (World κ)) :=
  match requireByte w with
  | (false, w) => some (-1, ⟨w, args, memory⟩)
  | (true, w) =>
    if !w.file.mode.readable then some (-1, ⟨markError w einval, args, memory⟩)
    else scanDispatch (fileSource localeUtf8) fuel format ⟨w, args, memory⟩

/-- `encode_wide_scan_format`, the same as `encode_wide_format`. -/
def encodeWideScanFormat (malloc : Malloc ν) (format : Option (List Int)) (utf8 : Bool) (heap : ν) :
    Except Nat (List UInt8) × ν :=
  encodeWideFormat malloc format utf8 heap

/-- `vfwscanf` around `__mini_wscan_dispatch_unlocked`. -/
def vfwscanf (malloc : Malloc ν) (localeUtf8 : Bool) (fuel : Nat) (format : Option (List Int)) (args : ScanArgs)
    (memory : Mem) (w : World κ) (heap : ν) : Option (Int × Scan (World κ) × ν) :=
  match requireWide w localeUtf8 with
  | (false, w) => some (-1, ⟨w, args, memory⟩, heap)
  | (true, w) =>
    match encodeWideScanFormat malloc format w.file.state.wideUtf8 heap with
    | (.error e, heap) => some (-1, ⟨{ w with errno := e }, args, memory⟩, heap)
    | (.ok narrow, heap) =>
      if !w.file.mode.readable then some (-1, ⟨markError w einval, args, memory⟩, heap)
      else (scanDispatch (wideFileSource w.file.state.wideUtf8) fuel narrow ⟨w, args, memory⟩).map fun (value, x) =>
        (value, x, heap)

omit [Kernel κ] in
/-- `vswscanf` of a string that is not null. -/
def vswscanf (malloc : Malloc ν) (localeUtf8 : Bool) (input : List Int) (format : Option (List Int)) (args : ScanArgs)
    (memory : Mem) (heap : ν) : Option (Int × Scan (StringCursor Int) × ν) :=
  match encodeWideScanFormat malloc format localeUtf8 heap with
  | (.error e, heap) => some (-1, ⟨{ ahead := input, errno := e }, args, memory⟩, heap)
  | (.ok narrow, heap) => (wsscanDispatch localeUtf8 input narrow args memory).map fun (value, x) => (value, x, heap)

/-! ## A scan of a string returns -/

/-- The items of a cursor. -/
def StringCursor.whole {α : Type} (s : StringCursor α) : List α := s.behind.reverse ++ s.ahead

theorem get_whole {α : Type} (value : α → Option Int) (s : StringCursor α) : (s.get value).2.whole = s.whole := by
  obtain ⟨behind, _ | ⟨c, ahead⟩, errno⟩ := s
  · rfl
  · simp [StringCursor.get, StringCursor.whole]

theorem unget_whole {α : Type} [DecidableEq α] (c : α) (s : StringCursor α) : (s.unget c).2.whole = s.whole := by
  obtain ⟨_ | ⟨b, behind⟩, ahead, errno⟩ := s
  · rfl
  · unfold StringCursor.unget
    dsimp only
    split <;> simp [StringCursor.whole]

section Returns

variable {σ τ : Type} {A : Source σ} {B : Source τ} {R : σ → τ → Prop}

/-- White space ends within the bound, in the states of a relation. -/
def SkipsWithin (A : Source σ) (R : σ → τ → Prop) (fuel : Nat) : Prop :=
  ∀ {s : σ} {t : τ}, R s t → ∀ space, (A.skipSpace space fuel s).isSome = true

theorem scanConversion_isSome {fuel : Nat} (hskip : SkipsWithin A R fuel) (spec : ScanSpec) {x : Scan σ} {y : Scan τ}
    (h : x.Matches R y) : (scanConversion A fuel spec x).isSome = true := by
  have hspace : (x.skipInputSpace A fuel).isSome = true := by
    simpa [Scan.skipInputSpace] using hskip h.input isScanSpace
  have hfloat : (scanFloating A fuel spec x).isSome = true := by
    simpa [scanFloating, FloatSource.parse] using hskip h.input fun c => asciiSpace (code c)
  unfold scanConversion
  simp only [scanInteger, scanString]
  split_ifs <;> simp [hspace, hfloat]

theorem scanRound_isSome {fuel : Nat} (hskip : SkipsWithin A R fuel) (format : List UInt8) (assignments : Nat)
    {x : Scan σ} {y : Scan τ} (h : x.Matches R y) : (scanRound A fuel format assignments x).isSome = true := by
  have hspace : (x.skipInputSpace A fuel).isSome = true := by
    simpa [Scan.skipInputSpace] using hskip h.input isScanSpace
  unfold scanRound
  split
  · simpa using hspace
  split
  · split
    · split <;> rfl
    · rfl
  · split
    · rfl
    · simpa using scanConversion_isSome hskip _ h

theorem scanLoop_isSome (sim : Simulation A B R) {fuel : Nat} (hskip : SkipsWithin A R fuel) (rounds : Nat)
    (format : List UInt8) (assignments : Nat) {x : Scan σ} {y : Scan τ} (h : x.Matches R y) :
    (scanLoop A fuel rounds format assignments x).isSome = true := by
  induction rounds generalizing format assignments x y with
  | zero => rfl
  | succ rounds ih =>
    unfold scanLoop
    split
    · rfl
    have hround := sim.scanRound fuel format assignments h
    have hsome := scanRound_isSome hskip format assignments h
    generalize scanRound A fuel format assignments x = a at hround hsome
    generalize scanRound B fuel format assignments y = b at hround
    cases hround with
    | none => cases hsome
    | some hab =>
      cases hab with
      | returned => rfl
      | next format assignments hm => exact ih format assignments hm

end Returns

/-- White space of a string ends within its length. -/
theorem skipSpace_string {α : Type} {source : FloatSource (StringCursor α)} {value : α → Option Int}
    (hget : source.get = StringCursor.get value) (space : Int → Bool) {fuel : Nat} {s : StringCursor α}
    (h : s.ahead.length < fuel) : (source.skipSpace space fuel s).isSome = true := by
  induction fuel generalizing s with
  | zero => omega
  | succ fuel ih =>
    unfold FloatSource.skipSpace
    rw [hget]
    obtain ⟨behind, _ | ⟨c, ahead⟩, errno⟩ := s
    · rfl
    · simp only [StringCursor.get]
      cases value c with
      | none => rfl
      | some v =>
        dsimp only
        split
        · exact ih (by simpa using h)
        · rfl

/-- A string and itself. -/
theorem string_same {α : Type} {A : Source (StringCursor α)} {value : α → Option Int} [DecidableEq α]
    (back : Int → α) (hget : A.get = StringCursor.get value) (hunget : A.unget = fun c => StringCursor.unget (back c))
    (herrno : A.setErrno = fun errno s => { s with errno }) (input : List α) :
    Simulation A A fun s t => s = t ∧ s.whole = input where
  get := by
    rintro s _ ⟨rfl, hs⟩
    refine ⟨rfl, rfl, ?_⟩
    rw [hget, get_whole, hs]
  unget := by
    rintro s _ c ⟨rfl, hs⟩ -
    refine ⟨rfl, rfl, ?_⟩
    rw [hunget, hget]
    simp [unget_whole, get_whole, hs]
  wide := rfl
  utf8 := rfl
  setErrno := by
    rintro s _ errno ⟨rfl, hs⟩
    refine ⟨rfl, ?_⟩
    rw [herrno]
    exact hs

theorem whole_skips {α : Type} {A : Source (StringCursor α)} {value : α → Option Int}
    (hget : A.get = StringCursor.get value) (input : List α) :
    SkipsWithin A (fun s t : StringCursor α => s = t ∧ s.whole = input) (input.length + 1) := by
  rintro s _ ⟨rfl, hs⟩ space
  refine skipSpace_string hget space ?_
  have := congrArg List.length hs
  simp [StringCursor.whole] at this
  omega

/-- `sscanf` returns. -/
theorem sscanDispatch_returns (utf8 : Bool) (input format : List UInt8) (args : ScanArgs) (memory : Mem) :
    (sscanDispatch utf8 input format args memory).isSome = true :=
  scanLoop_isSome (string_same (A := stringSource utf8) unsignedChar rfl rfl rfl input) (whole_skips rfl input) _ _ _
    ⟨⟨rfl, rfl⟩, rfl, rfl⟩

/-- `swscanf` returns. -/
theorem wsscanDispatch_returns (utf8 : Bool) (input : List Int) (format : List UInt8) (args : ScanArgs) (memory : Mem) :
    (wsscanDispatch utf8 input format args memory).isSome = true :=
  scanLoop_isSome (string_same (A := wideStringSource utf8) id rfl rfl rfl input) (whole_skips rfl input) _ _ _
    ⟨⟨rfl, rfl⟩, rfl, rfl⟩

/-! ## Bytes -/

/-- A byte stream that has the rest of a string to deliver. -/
structure ByteCursor (S : κ → List UInt8 → Prop) (input : List UInt8) (w : World κ) (s : StringCursor UInt8) : Prop where
  supplied : Supplied S w s.ahead
  stream : ByteStream w.file
  pushback : w.file.pushback.length ≤ 1
  whole : s.whole = input

theorem ByteStream.marks {f g : File} (h : ByteStream f) (hm : SameMarks f g) : ByteStream g := by
  obtain ⟨hv, hb, hw⟩ := h
  refine ⟨?_, by rw [hm.byteOriented, hb], by rw [hm.wideOriented, hw]⟩
  unfold validStream at hv ⊢
  rw [hm.mode, hv]

theorem WideStream.marks {f g : File} (h : WideStream f) (hm : SameMarks f g) : WideStream g := by
  obtain ⟨hv, hw, hb⟩ := h
  refine ⟨?_, by rw [hm.wideOriented, hw], by rw [hm.byteOriented, hb]⟩
  unfold validStream at hv ⊢
  rw [hm.mode, hv]

section Byte

variable {S : κ → List UInt8 → Prop} {input : List UInt8}

theorem fgetc_supplied (utf8 : Bool) (hS : Supplies S) {w : World κ} {s : StringCursor UInt8} (h : ByteCursor S input w s) :
    ∃ w', fgetc w = (s.ahead.head?, w') ∧ ByteCursor S input w' ((stringSource utf8).get s).2 ∧
      w'.file.pushback = [] := by
  obtain ⟨w', hread, hsupplied, hmarks, hpush⟩ := h.supplied.one hS
  have hnone : w'.file.pushback = [] := by
    rw [hpush]
    exact List.drop_eq_nil_of_le h.pushback
  refine ⟨w', ?_, ⟨?_, h.stream.marks hmarks, by simp [hnone], (get_whole _ s).trans h.whole⟩, hnone⟩
  · unfold fgetc byteOp
    rw [requireByte_ready h.stream]
    dsimp only
    unfold fgetcCore
    rw [hread]
    cases s.ahead <;> rfl
  · obtain ⟨behind, _ | ⟨c, ahead⟩, errno⟩ := s
    · exact hsupplied
    · exact hsupplied

theorem file_string (utf8 : Bool) (hS : Supplies S) :
    Simulation (fileSource utf8) (stringSource utf8) (ByteCursor (κ := κ) S input) where
  get := by
    intro w s h
    obtain ⟨w', hget, hw', -⟩ := fgetc_supplied utf8 hS h
    have hfile : (fileSource utf8).get w = (s.ahead.head?.map fun byte => (byte.toNat : Int), w') := by
      simp [fileSource, hget]
    rw [hfile]
    refine ⟨?_, hw'⟩
    obtain ⟨behind, _ | ⟨b, ahead⟩, errno⟩ := s <;> rfl
  unget := by
    intro w s c h hc
    obtain ⟨w', hget, hw', hnone⟩ := fgetc_supplied utf8 hS h
    have hfile : (fileSource utf8).get w = (s.ahead.head?.map fun byte => (byte.toNat : Int), w') := by
      simp [fileSource, hget]
    rw [hfile] at hc ⊢
    obtain ⟨behind, _ | ⟨b, ahead⟩, errno⟩ := s
    · cases hc
    obtain rfl := Option.some.inj hc
    -- both take the byte back
    have hstring : (stringSource utf8).unget (b.toNat : Int) ⟨b :: behind, ahead, errno⟩ = (true, ⟨behind, b :: ahead, errno⟩) :=
      (stringSource_unget utf8 b _).trans (StringCursor.unget_get b behind ahead errno)
    obtain ⟨w'', hpush, hsupplied, hmarks, hback⟩ := hw'.supplied.push hnone [b] (by simp) (by simp)
    have hunget : ungetc (b.toNat : Int) w' = (some b, w'') := by
      have hne : (b.toNat : Int) ≠ -1 := by omega
      unfold ungetc byteOp
      rw [requireByte_ready hw'.stream]
      dsimp only
      unfold ungetcCore
      rw [if_neg hne, unsignedChar_byte]
      dsimp only
      rw [hpush]
    show ((ungetc (b.toNat : Int) w').1.isSome = ((stringSource utf8).unget (b.toNat : Int) ⟨b :: behind, ahead, errno⟩).1) ∧
      ByteCursor S input (ungetc (b.toNat : Int) w').2 ((stringSource utf8).unget (b.toNat : Int) ⟨b :: behind, ahead, errno⟩).2
    rw [hunget, hstring]
    exact ⟨rfl, hsupplied, hw'.stream.marks hmarks, by simp [hback], h.whole⟩
  wide := rfl
  utf8 := rfl
  setErrno _ h := ⟨⟨⟨h.supplied.readable, h.supplied.noSync, h.supplied.buffered⟩, h.supplied.sound, h.supplied.rest,
    h.supplied.ended⟩, h.stream, h.pushback, h.whole⟩

omit [Kernel κ] in
/-- Changed marks leave what is to be delivered. -/
theorem Supplied.withState {w : World κ} {text : List UInt8} (h : Supplied S w text) {state : State}
    (hs : state.writeNeedsSync = w.file.state.writeNeedsSync) (he : state.eof = w.file.state.eof) :
    Supplied S { w with file.state := state } text where
  readable := h.readable
  noSync := hs.trans h.noSync
  buffered := h.buffered
  sound := h.sound.withState state
  rest := h.rest
  ended hend := h.ended (he.symm.trans hend)

omit [Kernel κ] in
theorem requireByte_supplied {w : World κ} {text : List UInt8} (h : Supplied S w text)
    (hw : w.file.state.wideOriented = false) :
    ∃ w', requireByte w = (true, w') ∧ Supplied S w' text ∧ ByteStream w'.file ∧ w'.file.pushback = w.file.pushback := by
  have hv : validStream w.file = true := by simp [validStream, h.readable]
  cases hb : w.file.state.byteOriented with
  | true => exact ⟨w, requireByte_ready ⟨hv, hb, hw⟩, h, ⟨hv, hb, hw⟩, rfl⟩
  | false =>
    refine ⟨{ w with file.state.byteOriented := true }, ?_, h.withState rfl rfl, ⟨hv, rfl, hw⟩, rfl⟩
    simp [requireByte, hv, hb, hw]

/-- A scan of the stream and a scan of the string run in step. -/
theorem fscanDispatch_supplied (hS : Supplies S) {w : World κ} (h : Supplied S w input) (hp : w.file.pushback = [])
    (hw : w.file.state.wideOriented = false) (utf8 : Bool) (format : List UInt8) (args : ScanArgs) (memory : Mem) :
    ∃ value x y consumed, fscanDispatch utf8 (input.length + 1) format args memory w = some (value, x) ∧
      sscanDispatch utf8 input format args memory = some (value, y) ∧ x.args = y.args ∧ x.memory = y.memory ∧
      input = consumed ++ y.input.ahead ∧ Supplied S x.input y.input.ahead := by
  obtain ⟨w', hrequire, hsupplied, hstream, hpush⟩ := requireByte_supplied h hw
  have hcursor : ByteCursor S input w' { ahead := input } := ⟨hsupplied, hstream, by simp [hpush, hp], rfl⟩
  have hmatches : Scan.Matches (ByteCursor S input) ⟨w', args, memory⟩ ⟨{ ahead := input }, args, memory⟩ :=
    ⟨hcursor, rfl, rfl⟩
  have hsame : Simulation (fileSource utf8) (stringSource utf8) (ByteCursor S input) := file_string utf8 hS
  have hagree := hsame.scanDispatch (input.length + 1) format hmatches
  have hreturns := sscanDispatch_returns utf8 input format args memory
  have hcall : fscanDispatch utf8 (input.length + 1) format args memory w =
      scanDispatch (fileSource utf8) (input.length + 1) format ⟨w', args, memory⟩ := by
    unfold fscanDispatch
    rw [hrequire]
    simp [hsupplied.readable]
  rw [hcall]
  unfold sscanDispatch at hreturns ⊢
  generalize scanDispatch (fileSource utf8) (input.length + 1) format ⟨w', args, memory⟩ = a at hagree ⊢
  generalize scanDispatch (stringSource utf8) (input.length + 1) format ⟨{ ahead := input }, args, memory⟩ = b
    at hagree hreturns ⊢
  cases hagree with
  | none => cases hreturns
  | @some a b hab =>
    obtain ⟨value, x⟩ := a
    obtain ⟨_, y⟩ := b
    obtain ⟨rfl, hm⟩ : value = _ ∧ x.Matches (ByteCursor S input) y := hab
    exact ⟨value, x, y, y.input.behind.reverse, rfl, rfl, hm.args, hm.memory, hm.input.whole.symm, hm.input.supplied⟩

/-- `fscanf` over a stream that has the bytes of a string to deliver, in raw reads of any
lengths: it returns what `sscanf` returns, assigns the same, and leaves in the stream what
`sscanf` leaves of the string. -/
theorem fscanf_sscanf (hS : Supplies S) {w : World κ} (h : Supplied S w input) (hp : w.file.pushback = [])
    (hw : w.file.state.wideOriented = false) (utf8 : Bool) (format : List UInt8) (args : ScanArgs) (memory : Mem) :
    ∃ value x y consumed, fscanDispatch utf8 (input.length + 1) format args memory w = some (value, x) ∧
      sscanDispatch utf8 input format args memory = some (value, y) ∧ x.args = y.args ∧ x.memory = y.memory ∧
      input = consumed ++ y.input.ahead ∧ Supplied S x.input y.input.ahead :=
  fscanDispatch_supplied hS h hp hw utf8 format args memory

end Byte

theorem fscanf_sscanf_drip : ∃ value x y consumed,
    fscanDispatch true 5 [37, 100, 120] ⟨[64], 0, 0, by decide⟩ (fun _ => 0) (dripping [32, 52, 50, 122]) = some (value, x) ∧
      sscanDispatch true [32, 52, 50, 122] [37, 100, 120] ⟨[64], 0, 0, by decide⟩ (fun _ => 0) = some (value, y) ∧
      x.args = y.args ∧ x.memory = y.memory ∧ [32, 52, 50, 122] = consumed ++ y.input.ahead ∧
      Supplied (fun k text => k.left = text) x.input y.input.ahead :=
  fscanf_sscanf drip_supplies (dripping_supplied _) rfl rfl true _ _ _

/-! ## Wide characters -/

/-- A wide stream that has the encodings of the rest of a string to deliver. -/
structure WideCursor (S : κ → List UInt8 → Prop) (utf8 : Bool) (input : List Int) (w : World κ) (s : StringCursor Int) :
    Prop where
  supplied : ∃ bytes, Encodings utf8 s.ahead bytes ∧ Supplied S w bytes
  stream : WideStream w.file
  encoding : w.file.state.wideUtf8 = utf8
  pushback : w.file.pushback = [] ∨ ∃ wc rest, s.ahead = wc :: rest ∧ encodeValue wc utf8 = some w.file.pushback
  whole : s.whole = input

section Wide

variable {S : κ → List UInt8 → Prop} {utf8 : Bool}

/-- The bytes of a character are read one by one. -/
theorem wideReadLoop_supplied (hS : Supplies S) {state : MbState} {bytes : List UInt8} {v : Int}
    (hf : Feeds utf8 state bytes v) {w : World κ} {text : List UInt8} (h : Supplied S w (bytes ++ text)) {fuel : Nat}
    (hfuel : bytes.length ≤ fuel) :
    ∃ w', wideReadLoop utf8 fuel state w = (some (toWint v), w') ∧ Supplied S w' text ∧ SameMarks w.file w'.file ∧
      w'.file.pushback = w.file.pushback.drop bytes.length := by
  induction hf generalizing w fuel with
  | @last state final b v n hd =>
    obtain ⟨fuel, rfl⟩ : ∃ k, fuel = k + 1 := ⟨fuel - 1, by simp at hfuel; omega⟩
    obtain ⟨w', hread, hw', hmarks, hpush⟩ := h.one hS
    refine ⟨w', ?_, hw', hmarks, hpush⟩
    unfold wideReadLoop
    rw [hread]
    simp only [List.singleton_append, List.take_succ_cons, List.take_zero]
    rw [hd]
    rfl
  | @more state next b rest v pwc hd hf ih =>
    obtain ⟨fuel, rfl⟩ : ∃ k, fuel = k + 1 := ⟨fuel - 1, by simp at hfuel; omega⟩
    obtain ⟨w1, hread, hw1, hmarks1, hpush1⟩ := h.one hS
    obtain ⟨w', hloop, hw', hmarks, hpush⟩ := ih hw1 (by simp at hfuel; omega)
    refine ⟨w', ?_, hw', hmarks1.trans hmarks, ?_⟩
    · unfold wideReadLoop
      rw [hread]
      simp only [List.cons_append, List.take_succ_cons, List.take_zero]
      rw [hd]
      exact hloop
    · rw [hpush, hpush1, List.drop_drop, List.length_cons, Nat.add_comm]

/-- What is encoded is no `WEOF`, and survives the casts. -/
theorem encodeValue_range {wc : Int} {bytes : List UInt8} (h : encodeValue wc utf8 = some bytes) :
    0 ≤ wc ∧ wc ≤ 0x10ffff := by
  have hpos : 0 ≤ wc := by
    by_contra hneg
    unfold encodeValue at h
    rw [if_pos (by omega)] at h
    cases h
  refine ⟨hpos, ?_⟩
  cases utf8 with
  | true =>
    have hv := ((encodeValue_isSome wc).1 (by simp [h])).2
    have := validScalar_le hv
    omega
  | false =>
    unfold encodeValue at h
    rw [if_neg (by omega)] at h
    dsimp only at h
    rw [if_pos (by rfl)] at h
    split at h
    · cases h
    · rename_i hmax
      unfold cMbMax at hmax
      omega

theorem toWchar_toWint {wc : Int} (h0 : 0 ≤ wc) (h : wc ≤ 0x10ffff) : toWchar (toWint wc) = wc ∧ toWint wc ≠ weof := by
  obtain ⟨n, rfl⟩ := Int.eq_ofNat_of_zero_le h0
  have hlt : n < 2 ^ 32 := by omega
  have hword : (toWint (n : Int)).toNat = n := by
    unfold toWint
    rw [Int.emod_eq_of_lt h0 (by omega), Int.toNat_natCast, UInt32.toNat_ofNat']
    exact Nat.mod_eq_of_lt hlt
  constructor
  · unfold toWchar
    rw [hword]
    exact Int.bmod_eq_of_le (by omega) (by omega)
  · intro heof
    have := congrArg UInt32.toNat heof
    rw [hword] at this
    have hmax : weof.toNat = 0xffffffff := rfl
    omega

theorem wideReadCharacter_supplied (hS : Supplies S) {input : List Int} {w : World κ} {s : StringCursor Int}
    (h : WideCursor S utf8 input w s) :
    ∃ w', wideReadCharacter w = (s.ahead.head?.map toWint, w') ∧
      WideCursor S utf8 input w' ((wideStringSource utf8).get s).2 ∧ w'.file.pushback = [] := by
  obtain ⟨bytes, hbytes, hsupplied⟩ := h.supplied
  have hwhole : ((wideStringSource utf8).get s).2.whole = input := (get_whole _ s).trans h.whole
  obtain ⟨behind, _ | ⟨wc, ahead⟩, errno⟩ := s
  · obtain rfl := hbytes.nil_iff.1 rfl
    obtain ⟨w', hread, hw', hmarks, hpush⟩ := hsupplied.at_end hS
    refine ⟨w', ?_, ⟨⟨[], .nil utf8, hw'⟩, h.stream.marks hmarks, hmarks.wideUtf8.trans h.encoding, .inl hpush, hwhole⟩, hpush⟩
    unfold wideReadCharacter wideReadLoop
    rw [hread]
    rfl
  · obtain ⟨encoded, rest, he, rfl, hrest⟩ := hbytes.uncons
    obtain ⟨hf, hlen⟩ := feeds_encode he
    obtain ⟨w', hread, hw', hmarks, hpush⟩ := wideReadLoop_supplied hS hf hsupplied hlen
    have hnone : w'.file.pushback = [] := by
      rw [hpush]
      rcases h.pushback with hp | ⟨wc', rest', hahead, hp⟩
      · rw [hp, List.drop_nil]
      · obtain ⟨rfl, rfl⟩ := List.cons.inj hahead
        obtain rfl := Option.some.inj (he.symm.trans hp)
        exact List.drop_length
    refine ⟨w', ?_, ⟨⟨rest, hrest, hw'⟩, h.stream.marks hmarks, hmarks.wideUtf8.trans h.encoding, .inl hnone, hwhole⟩, hnone⟩
    unfold wideReadCharacter
    rw [h.encoding]
    exact hread

theorem wideFile_string (hS : Supplies S) (input : List Int) :
    Simulation (wideFileSource utf8) (wideStringSource utf8) (WideCursor (κ := κ) S utf8 input) where
  get := by
    intro w s h
    obtain ⟨w', hget, hw', -⟩ := wideReadCharacter_supplied hS h
    have hfile : (wideFileSource utf8).get w = ((s.ahead.head?.map toWint).map toWchar, w') := by
      simp [wideFileSource, hget]
    rw [hfile]
    refine ⟨?_, hw'⟩
    obtain ⟨bytes, hbytes, -⟩ := h.supplied
    obtain ⟨behind, _ | ⟨wc, ahead⟩, errno⟩ := s
    · rfl
    obtain ⟨encoded, rest, he, -, -⟩ := hbytes.uncons
    obtain ⟨h0, hmax⟩ := encodeValue_range he
    have hne : wc ≠ -1 := by omega
    show some (toWchar (toWint wc)) = if wc = -1 then none else some wc
    rw [(toWchar_toWint h0 hmax).1, if_neg hne]
  unget := by
    intro w s c h hc
    obtain ⟨w', hget, hw', hnone⟩ := wideReadCharacter_supplied hS h
    have hfile : (wideFileSource utf8).get w = ((s.ahead.head?.map toWint).map toWchar, w') := by
      simp [wideFileSource, hget]
    rw [hfile] at hc ⊢
    obtain ⟨bytes, hbytes, -⟩ := h.supplied
    obtain ⟨behind, _ | ⟨wc, ahead⟩, errno⟩ := s
    · cases hc
    obtain ⟨encoded, rest, he, -, -⟩ := hbytes.uncons
    obtain ⟨h0, hmax⟩ := encodeValue_range he
    obtain ⟨hcast, hweof⟩ := toWchar_toWint h0 hmax
    obtain rfl : wc = c := by
      rw [← hcast]
      exact Option.some.inj hc
    -- the stream takes the whole encoding back
    have hne : encoded ≠ [] := by
      rcases encodeValue_bytes he with ⟨b, -, -, rfl⟩ | ⟨-, hne, -⟩
      · simp
      · exact hne
    obtain ⟨bytes', hbytes', hsupplied'⟩ := hw'.supplied
    obtain ⟨w'', hpush, hsupplied, hmarks, hback⟩ := hsupplied'.push hnone encoded hne (feeds_encode he).2
    have hunget : wideUngetCharacter (toWint wc) w' = (some (toWint wc), w'') := by
      unfold wideUngetCharacter wcrtombMode
      rw [if_neg hweof, hcast, hw'.encoding, he]
      dsimp only
      rw [hpush]
    have hstring : (wideStringSource utf8).unget wc ⟨wc :: behind, ahead, errno⟩ = (true, ⟨behind, wc :: ahead, errno⟩) :=
      StringCursor.unget_get wc behind ahead errno
    show ((wideUngetCharacter (toWint wc) w').1.isSome =
        ((wideStringSource utf8).unget wc ⟨wc :: behind, ahead, errno⟩).1) ∧
      WideCursor S utf8 input (wideUngetCharacter (toWint wc) w').2
        ((wideStringSource utf8).unget wc ⟨wc :: behind, ahead, errno⟩).2
    rw [hunget, hstring]
    exact ⟨rfl, ⟨encoded ++ bytes', .cons he hbytes', hsupplied⟩, hw'.stream.marks hmarks,
      hmarks.wideUtf8.trans hw'.encoding, .inr ⟨wc, ahead, rfl, by rw [hback, he]⟩, h.whole⟩
  wide := rfl
  utf8 := rfl
  setErrno _ h := by
    obtain ⟨bytes, hbytes, hs⟩ := h.supplied
    exact ⟨⟨bytes, hbytes, ⟨⟨hs.readable, hs.noSync, hs.buffered⟩, hs.sound, hs.rest, hs.ended⟩⟩, h.stream, h.encoding,
      h.pushback, h.whole⟩

omit [Kernel κ] in
theorem requireWide_supplied {w : World κ} {text : List UInt8} (h : Supplied S w text)
    (hb : w.file.state.byteOriented = false) {localeUtf8 : Bool}
    (hu : w.file.state.wideOriented = true → w.file.state.wideUtf8 = localeUtf8) :
    ∃ w', requireWide w localeUtf8 = (true, w') ∧ Supplied S w' text ∧ WideStream w'.file ∧
      w'.file.state.wideUtf8 = localeUtf8 ∧ w'.file.pushback = w.file.pushback := by
  have hv : validStream w.file = true := by simp [validStream, h.readable]
  cases hw : w.file.state.wideOriented with
  | true => exact ⟨w, requireWide_ready ⟨hv, hw, hb⟩ _, h, ⟨hv, hw, hb⟩, hu hw, rfl⟩
  | false =>
    refine ⟨{ w with file.state.wideOriented := true, file.state.wideUtf8 := localeUtf8 }, ?_, h.withState rfl rfl,
      ⟨hv, rfl, hb⟩, rfl, rfl⟩
    simp [requireWide, hv, hb, hw]

/-- The wide scans run in step too. -/
theorem vfwscanf_supplied (hS : Supplies S) {w : World κ} {input : List Int} {bytes : List UInt8}
    (hbytes : Encodings utf8 input bytes) (h : Supplied S w bytes) (hp : w.file.pushback = [])
    (hb : w.file.state.byteOriented = false) (hu : w.file.state.wideOriented = true → w.file.state.wideUtf8 = utf8)
    (malloc : Malloc ν) (format : Option (List Int)) (args : ScanArgs) (memory : Mem) (heap : ν) :
    ∃ value x y heap' consumed rest,
      vfwscanf malloc utf8 (input.length + 1) format args memory w heap = some (value, x, heap') ∧
      vswscanf malloc utf8 input format args memory heap = some (value, y, heap') ∧ x.args = y.args ∧
      x.memory = y.memory ∧ input = consumed ++ y.input.ahead ∧ Encodings utf8 y.input.ahead rest ∧
      Supplied S x.input rest := by
  obtain ⟨w', hrequire, hsupplied, hstream, hutf8, hpush⟩ := requireWide_supplied h hb hu
  unfold vfwscanf vswscanf
  rw [hrequire]
  dsimp only
  rw [hutf8]
  obtain ⟨⟨e | narrow, heap'⟩, hencode⟩ : ∃ r, encodeWideScanFormat malloc format utf8 heap = r := ⟨_, rfl⟩
  · rw [hencode]
    exact ⟨-1, _, _, heap', [], bytes, rfl, rfl, rfl, rfl, rfl, hbytes, ⟨⟨hsupplied.readable, hsupplied.noSync,
      hsupplied.buffered⟩, hsupplied.sound, hsupplied.rest, hsupplied.ended⟩⟩
  rw [hencode]
  dsimp only
  rw [if_neg (by simp [hsupplied.readable])]
  have hcursor : WideCursor S utf8 input w' { ahead := input } :=
    ⟨⟨bytes, hbytes, hsupplied⟩, hstream, hutf8, .inl (hpush.trans hp), rfl⟩
  have hmatches : Scan.Matches (WideCursor S utf8 input) ⟨w', args, memory⟩ ⟨{ ahead := input }, args, memory⟩ :=
    ⟨hcursor, rfl, rfl⟩
  have hagree := (wideFile_string hS input).scanDispatch (input.length + 1) narrow hmatches
  have hreturns := wsscanDispatch_returns utf8 input narrow args memory
  unfold wsscanDispatch at hreturns ⊢
  generalize scanDispatch (wideFileSource utf8) (input.length + 1) narrow ⟨w', args, memory⟩ = a at hagree ⊢
  generalize scanDispatch (wideStringSource utf8) (input.length + 1) narrow ⟨{ ahead := input }, args, memory⟩ = b
    at hagree hreturns ⊢
  cases hagree with
  | none => cases hreturns
  | @some a b hab =>
    obtain ⟨value, x⟩ := a
    obtain ⟨_, y⟩ := b
    obtain ⟨rfl, hm⟩ : value = _ ∧ x.Matches (WideCursor S utf8 input) y := hab
    obtain ⟨rest, hrest, hleft⟩ := hm.input.supplied
    exact ⟨value, x, y, heap', y.input.behind.reverse, rest, rfl, rfl, hm.args, hm.memory, hm.input.whole.symm, hrest, hleft⟩

/-- `fwscanf` over a stream that has the encodings of a string to deliver, in raw reads of
any lengths: it returns what `swscanf` returns over the string, assigns the same, and leaves
in the stream the encodings of what `swscanf` leaves. -/
theorem fwscanf_swscanf (hS : Supplies S) {w : World κ} {input : List Int} {bytes : List UInt8}
    (hbytes : Encodings utf8 input bytes) (h : Supplied S w bytes) (hp : w.file.pushback = [])
    (hb : w.file.state.byteOriented = false) (hu : w.file.state.wideOriented = true → w.file.state.wideUtf8 = utf8)
    (malloc : Malloc ν) (format : Option (List Int)) (args : ScanArgs) (memory : Mem) (heap : ν) :
    ∃ value x y heap' consumed rest,
      vfwscanf malloc utf8 (input.length + 1) format args memory w heap = some (value, x, heap') ∧
      vswscanf malloc utf8 input format args memory heap = some (value, y, heap') ∧ x.args = y.args ∧
      x.memory = y.memory ∧ input = consumed ++ y.input.ahead ∧ Encodings utf8 y.input.ahead rest ∧
      Supplied S x.input rest :=
  vfwscanf_supplied hS hbytes h hp hb hu malloc format args memory heap

end Wide

theorem fwscanf_swscanf_drip : ∃ value x y heap' consumed rest,
    vfwscanf grant true 3 (some [37, 108, 115]) ⟨[64], 0, 0, by decide⟩ (fun _ => 0) (dripping [195, 169, 33]) () =
        some (value, x, heap') ∧
      vswscanf grant true [233, 33] (some [37, 108, 115]) ⟨[64], 0, 0, by decide⟩ (fun _ => 0) () = some (value, y, heap') ∧
      x.args = y.args ∧ x.memory = y.memory ∧ [233, 33] = consumed ++ y.input.ahead ∧
      Encodings true y.input.ahead rest ∧ Supplied (fun k text => k.left = text) x.input rest := by
  have hletter : encodeValue 233 true = some [195, 169] := by decide
  have hascii : ∀ b ∈ ([33] : List UInt8), b.toNat < 128 := by simp
  have hbytes : Encodings true [233, 33] [195, 169, 33] := .cons hletter (encodings_ascii true hascii)
  exact fwscanf_swscanf drip_supplies hbytes (dripping_supplied _) rfl rfl (fun h => by cases h) grant _ _ _ _

/-- Scanning a stream and scanning a string agree: the byte scans over the same bytes, and the
wide scans over the same characters in one encoding. -/
theorem scanf_agree {S : κ → List UInt8 → Prop} (hS : Supplies S) (utf8 : Bool) (args : ScanArgs) (memory : Mem) :
    (∀ (w : World κ) (input format : List UInt8), Supplied S w input → w.file.pushback = [] →
      w.file.state.wideOriented = false →
      ∃ value x y consumed, fscanDispatch utf8 (input.length + 1) format args memory w = some (value, x) ∧
        sscanDispatch utf8 input format args memory = some (value, y) ∧ x.args = y.args ∧ x.memory = y.memory ∧
        input = consumed ++ y.input.ahead ∧ Supplied S x.input y.input.ahead) ∧
    ∀ (w : World κ) (input : List Int) (bytes : List UInt8) (malloc : Malloc ν) (format : Option (List Int)) (heap : ν),
      Encodings utf8 input bytes → Supplied S w bytes → w.file.pushback = [] → w.file.state.byteOriented = false →
      (w.file.state.wideOriented = true → w.file.state.wideUtf8 = utf8) →
      ∃ value x y heap' consumed rest,
        vfwscanf malloc utf8 (input.length + 1) format args memory w heap = some (value, x, heap') ∧
        vswscanf malloc utf8 input format args memory heap = some (value, y, heap') ∧ x.args = y.args ∧
        x.memory = y.memory ∧ input = consumed ++ y.input.ahead ∧ Encodings utf8 y.input.ahead rest ∧
        Supplied S x.input rest := by
  constructor
  · intro w input format h hp hw
    exact fscanDispatch_supplied hS h hp hw utf8 format args memory
  · intro w input bytes malloc format heap hbytes h hp hb hu
    exact vfwscanf_supplied hS hbytes h hp hb hu malloc format args memory heap

/-- `" 42z"` as bytes, and `"é!"` as characters, a byte a raw read. -/
theorem scanf_agree_drip :
    (∃ value x y consumed,
      fscanDispatch true 5 [37, 100] ⟨[64], 0, 0, by decide⟩ (fun _ => 0) (dripping [32, 52, 50, 122]) = some (value, x) ∧
        sscanDispatch true [32, 52, 50, 122] [37, 100] ⟨[64], 0, 0, by decide⟩ (fun _ => 0) = some (value, y) ∧
        x.args = y.args ∧ x.memory = y.memory ∧ [32, 52, 50, 122] = consumed ++ y.input.ahead ∧
        Supplied (fun k text => k.left = text) x.input y.input.ahead) ∧
    ∃ value x y heap' consumed rest,
      vfwscanf grant true 3 (some [37, 108, 115]) ⟨[64], 0, 0, by decide⟩ (fun _ => 0) (dripping [195, 169, 33]) () =
          some (value, x, heap') ∧
        vswscanf grant true [233, 33] (some [37, 108, 115]) ⟨[64], 0, 0, by decide⟩ (fun _ => 0) () =
          some (value, y, heap') ∧
        x.args = y.args ∧ x.memory = y.memory ∧ [233, 33] = consumed ++ y.input.ahead ∧
        Encodings true y.input.ahead rest ∧ Supplied (fun k text => k.left = text) x.input rest := by
  have hletter : encodeValue 233 true = some [195, 169] := by decide
  have hascii : ∀ b ∈ ([33] : List UInt8), b.toNat < 128 := by simp
  have hbytes : Encodings true [233, 33] [195, 169, 33] := .cons hletter (encodings_ascii true hascii)
  obtain ⟨hbyte, hwide⟩ := @scanf_agree _ Unit _ _ drip_supplies true ⟨[64], 0, 0, by decide⟩ fun _ => 0
  constructor
  · exact hbyte (dripping [32, 52, 50, 122]) [32, 52, 50, 122] [37, 100] (dripping_supplied _) rfl rfl
  · exact hwide (dripping [195, 169, 33]) [233, 33] [195, 169, 33] grant (some [37, 108, 115]) () hbytes
      (dripping_supplied _) rfl rfl fun h => by cases h

end MiniLibc.Stdio
