import MiniLibc.Stdio.WideRendering
/-!
# Into a wide buffer

`vswprintf` decodes what it rendered and stores as much of it as fits, in characters.
-/
open MiniLibc.Args MiniLibc.Memory MiniLibc.Wchar

namespace MiniLibc.Stdio

variable {utf8 : Bool}

/-! ## The stored text -/

theorem decodeRenderedLoop_feeds {state : MbState} {bytes : List UInt8} {v : Int} (h : Feeds utf8 state bytes v)
    (rest : List UInt8) : decodeRenderedLoop utf8 (bytes ++ rest) state = some (v, rest) := by
  induction h with
  | last hd =>
    rw [List.singleton_append, decodeRenderedLoop, hd]
    rfl
  | more hd _ ih =>
    rw [List.cons_append, decodeRenderedLoop, hd]
    exact ih

theorem decodeRenderedCharacter_encoding {wc : Int} {bytes : List UInt8} (h : encodeValue wc utf8 = some bytes)
    (rest : List UInt8) : decodeRenderedCharacter utf8 (bytes ++ rest) = some (wc, rest) :=
  decodeRenderedLoop_feeds (feeds_encode h).1 rest

/-- A buffer whose front is a text. -/
def overwrite (start : Nat → Int) (text : List Int) (i : Nat) : Int := text.getD i (start i)

theorem overwrite_next (start : Nat → Int) (text : List Int) (c : Int) :
    Function.update (overwrite start text) text.length c = overwrite start (text ++ [c]) := by
  funext i
  unfold overwrite
  rcases Nat.lt_trichotomy i text.length with hlt | rfl | hgt
  · rw [Function.update_of_ne (by omega), List.getD_append _ _ _ _ hlt]
  · rw [Function.update_self, List.getD_append_right _ _ _ _ (Nat.le_refl _), Nat.sub_self]
    rfl
  · rw [Function.update_of_ne (by omega), List.getD_eq_default _ _ (by omega),
      List.getD_eq_default _ _ (by rw [List.length_append, List.length_singleton]; omega)]

/-- The loop counts every character, and stores those in front of the terminator. -/
theorem storeRenderedLoop_stores {size fuel : Nat} {rendered : List UInt8} {wide : List Int} (start : Nat → Int)
    (count : Nat) (front : List Int) (hf : rendered.length ≤ fuel) (hw : Encodings utf8 wide rendered)
    (hs : front.length < size) :
    storeRenderedLoop utf8 size fuel rendered count front.length (overwrite start front) =
      (true, count + wide.length, (front ++ wide.take (size - 1 - front.length)).length,
        overwrite start (front ++ wide.take (size - 1 - front.length))) := by
  induction wide generalizing fuel rendered count front with
  | nil =>
    obtain rfl := hw.nil_iff.1 rfl
    rw [List.take_nil, List.append_nil]
    cases fuel <;> rfl
  | cons wc wide ih =>
    have hne : rendered ≠ [] := fun h => absurd (hw.nil_iff.2 h) (List.cons_ne_nil _ _)
    have hlen := List.length_pos_iff.2 hne
    obtain ⟨fuel, rfl⟩ : ∃ n, fuel = n + 1 := ⟨fuel - 1, by omega⟩
    obtain ⟨encoded, rest, he, rfl, hrest⟩ := hw.uncons
    have hshort : rest.length ≤ fuel := by
      have : 0 < encoded.length := by
        have := (encodings_one he).length_le
        rwa [List.length_singleton] at this
      rw [List.length_append] at hf
      omega
    rw [storeRenderedLoop, if_neg hne, decodeRenderedCharacter_encoding he]
    dsimp only
    by_cases hroom : front.length + 1 < size
    · have hlength : front.length + 1 = (front ++ [wc]).length := by
        rw [List.length_append, List.length_singleton]
      obtain ⟨room, hsplit⟩ : ∃ room, size - 1 - front.length = room + 1 := ⟨size - 1 - front.length - 1, by omega⟩
      have hrest' := ih (count + 1) (front ++ [wc]) hshort hrest (by rw [← hlength]; exact hroom)
      rw [if_pos ⟨by omega, hroom⟩, overwrite_next, hlength, hrest', hsplit, List.take_succ_cons, ← hlength,
        show size - 1 - (front.length + 1) = room by omega, List.append_assoc, List.singleton_append, List.length_cons]
      rw [Nat.add_assoc, Nat.add_comm 1]
    · have hfull : size - 1 - front.length = 0 := by omega
      have hrest' := ih (count + 1) front hshort hrest hs
      rw [if_neg (fun h => hroom h.2), hrest', hfull, List.take_zero, List.take_zero, List.length_cons]
      rw [Nat.add_assoc, Nat.add_comm 1]

/-- `store_rendered_wide` of whole characters. -/
theorem storeRenderedWide_stores {size : Nat} (hs : 0 < size) {rendered : List UInt8} {wide : List Int}
    (hw : Encodings utf8 wide rendered) (buffer : Nat → Int) (errno : Nat) :
    storeRenderedWide buffer size rendered utf8 errno =
      ⟨if wide.length < size then some wide.length else none, overwrite buffer (wide.take (size - 1) ++ [0]),
        if wide.length < size then errno else erange⟩ := by
  have hloop := storeRenderedLoop_stores buffer 0 [] (Nat.le_refl _) hw hs
  have hstart : overwrite buffer [] = buffer := rfl
  rw [hstart, List.length_nil, Nat.zero_add, Nat.sub_zero, List.nil_append] at hloop
  unfold storeRenderedWide
  rw [hloop]
  dsimp only
  rw [if_neg (show ¬(!true) = true by decide), if_pos (show size ≠ 0 by omega), overwrite_next]
  by_cases hlt : wide.length < size
  · rw [if_neg (by omega), if_pos hlt, if_pos hlt]
  · rw [if_pos (by omega), if_neg hlt, if_neg hlt]

/-! ## The rendering -/

theorem formatLengthLoop_encodings {format : List Int} {narrow : List UInt8} (h : Encodings utf8 format narrow)
    {length : Nat} (hfits : length + narrow.length < sizeMax) :
    formatLengthLoop utf8 format length = .ok (length + narrow.length) := by
  induction format generalizing narrow length with
  | nil =>
    rw [h.nil_iff.1 rfl]
    rfl
  | cons wc format ih =>
    obtain ⟨encoded, rest, he, rfl, hrest⟩ := h.uncons
    rw [List.length_append] at hfits
    rw [formatLengthLoop, show encodeWideValue wc utf8 = some encoded from he]
    dsimp only
    rw [if_neg (by omega), ih hrest (by omega), List.length_append, Nat.add_assoc]

theorem formatBytesLoop_encodings {format : List Int} {narrow : List UInt8} (h : Encodings utf8 format narrow) :
    formatBytesLoop utf8 format = some narrow := by
  induction format generalizing narrow with
  | nil =>
    rw [h.nil_iff.1 rfl]
    rfl
  | cons wc format ih =>
    obtain ⟨encoded, rest, he, rfl, hrest⟩ := h.uncons
    rw [formatBytesLoop, show encodeWideValue wc utf8 = some encoded from he]
    dsimp only
    rw [ih hrest]
    rfl

section Machine

variable {α ν : Type} {next : α → Fetch → Nat × α} {arrays : Arrays} {malloc : Malloc ν}

/-- What a call asks `malloc` for, granted. -/
structure Granted (malloc : Malloc ν) (narrow text : List UInt8) (heap heap' : ν) : Prop where
  fits : narrow.length < sizeMax
  blocks : ∃ format between rendered, malloc heap (narrow.length + 1) = (some format, between) ∧
    malloc between (text.length + 1) = (some rendered, heap')

/-- The two passes of `render_wide` give the text of the format. -/
theorem renderWide_text {format : List Int} {narrow text : List UInt8} {args : α} {heap heap' : ν} (errno : Nat)
    (hformat : Encodings utf8 format narrow) (h : formatText next arrays ⟨utf8, true⟩ narrow args = some (some text))
    (hle : text.length ≤ printfIntMax) (hg : Granted malloc narrow text heap heap') :
    ∃ e, renderWide malloc next arrays (some format) args utf8 errno heap = some ⟨some text, e, heap'⟩ := by
  obtain ⟨hfits, block, between, block', hfirst, hsecond⟩ := hg
  have hcount : countOf (some text) = some text.length := countOf_some.2 ⟨hle, text, rfl, rfl⟩
  obtain ⟨sink, hpass, -⟩ := @snprintfDispatch_text _ next arrays _ _ _ _ h none 0 errno (.inl rfl)
  obtain ⟨sink', hpass', hstored⟩ := @snprintfDispatch_text _ next arrays _ _ _ _ h (some block') (text.length + 1)
    sink.errno (.inr (Option.some_ne_none _))
  rw [hcount] at hpass hpass'
  have hencode : encodeWideFormat malloc (some format) utf8 heap = (.ok narrow, between) := by
    have hlength : formatLengthLoop utf8 format 0 = .ok (0 + narrow.length) :=
      formatLengthLoop_encodings hformat (by omega)
    rw [Nat.zero_add] at hlength
    unfold encodeWideFormat
    dsimp only
    rw [hlength]
    dsimp only
    rw [hfirst]
    dsimp only
    rw [formatBytesLoop_encodings hformat]
  refine ⟨sink'.errno, ?_⟩
  unfold renderWide
  rw [hencode]
  dsimp only
  unfold renderNarrow vsnprintfWideMode
  rw [hpass]
  dsimp only
  rw [hsecond]
  dsimp only
  rw [hpass']
  dsimp only
  rw [if_neg (fun h => h rfl), (hstored hle (Nat.lt_succ_self _)).1]

/-- `vswprintf` of a format that renders: it succeeds exactly if the text in wide
characters is shorter than the buffer, and else stores as many as fit. -/
theorem vswprintf_stores {format : List Int} (h0 : 0 ∉ format) {narrow text : List UInt8} {args : α} {heap heap' : ν}
    (hformat : Encodings utf8 format narrow) (h : formatText next arrays ⟨utf8, true⟩ narrow args = some (some text))
    (hle : text.length ≤ printfIntMax) (hg : Granted malloc narrow text heap heap') (buffer : Nat → Int) {size : Nat}
    (hs : 0 < size) (errno : Nat) :
    ∃ wide stored, WideRendering next arrays utf8 format args wide ∧ Encodings utf8 wide text ∧
      vswprintf malloc next arrays utf8 (some buffer) size errno (some format) args heap = some (stored, heap') ∧
      (wide.length < size → stored = ⟨some wide.length, overwrite buffer (wide ++ [0]), errno⟩) ∧
      (size ≤ wide.length → stored = ⟨none, overwrite buffer (wide.take (size - 1) ++ [0]), erange⟩) := by
  obtain ⟨wide, hwide, hencoded⟩ := formatTextLoop_wide (Nat.le_refl _) hformat h0 h hle
  obtain ⟨e, hrender⟩ := renderWide_text errno hformat h hle hg
  have hstore := storeRenderedWide_stores hs hencoded buffer e
  have hcall : vswprintf malloc next arrays utf8 (some buffer) size errno (some format) args heap =
      some (if (storeRenderedWide buffer size text utf8 e).result.isSome then
          { storeRenderedWide buffer size text utf8 e with errno }
        else storeRenderedWide buffer size text utf8 e, heap') := by
    unfold vswprintf
    rw [if_neg (fun h => Option.some_ne_none _ h.2), hrender]
    rfl
  refine ⟨wide, _, hwide, hencoded, hcall, fun hlt => ?_, fun hge => ?_⟩
  · rw [hstore, if_pos hlt, List.take_of_length_le (by omega)]
    rfl
  · have hfull : ¬wide.length < size := by omega
    rw [hstore, if_neg hfull, if_neg hfull]
    rfl

/-- A `malloc` that grants what it is asked for. -/
def grant (heap : Unit) (_ : Nat) : Option Mem × Unit := (some fun _ => 0, heap)

theorem vswprintf_stores_euro : ∃ wide stored, WideRendering takeWord hi true [233, 37, 51, 108, 99] [8364] wide ∧
    Encodings true wide [195, 169, 32, 32, 226, 130, 172] ∧
    vswprintf grant takeWord hi true (some fun _ => 7) 4 0 (some [233, 37, 51, 108, 99]) [8364] () = some (stored, ()) ∧
    (wide.length < 4 → stored = ⟨some wide.length, overwrite (fun _ => 7) (wide ++ [0]), 0⟩) ∧
    (4 ≤ wide.length → stored = ⟨none, overwrite (fun _ => 7) (wide.take (4 - 1) ++ [0]), erange⟩) := by
  have hletter : encodeValue 233 true = some [195, 169] := by decide
  have hascii : ∀ b ∈ ([37, 51, 108, 99] : List UInt8), b.toNat < 128 := by simp
  have hformat : Encodings true [233, 37, 51, 108, 99] [195, 169, 37, 51, 108, 99] :=
    .cons hletter (encodings_ascii true hascii)
  have htext : formatText takeWord hi ⟨true, true⟩ [195, 169, 37, 51, 108, 99] [8364] =
      some (some [195, 169, 32, 32, 226, 130, 172]) := by decide
  have hgranted : Granted grant [195, 169, 37, 51, 108, 99] [195, 169, 32, 32, 226, 130, 172] () () :=
    ⟨by decide, _, _, _, rfl, rfl⟩
  exact vswprintf_stores (by decide) hformat htext (by decide) hgranted (fun _ => 7) (by decide) 0

end Machine

end MiniLibc.Stdio
