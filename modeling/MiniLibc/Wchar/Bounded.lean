import MiniLibc.Lib.Resume
import MiniLibc.Wchar.Sizing
/-!
# Bounded conversion

Successive calls of `mbsrtowcs` or `wcsrtombs` with a state object, each from
the source pointer the last one left, store what one call with room for
everything stores.
-/
open MiniLibc.Resume

namespace MiniLibc.Wchar

/-- How a conversion ended: with an error or not, `*src` and the state. -/
structure Ended (α : Type) where
  error : Bool
  src : Option (List α)
  state : MbState
deriving DecidableEq, Repr

/-- What a caller with a state object makes of a call: it is done after an error
and when the source pointer is null, and otherwise may go on. -/
def StringConverted.call {α β : Type} (r : StringConverted α β States) :
    List β × (Ended α ⊕ (List α × MbState)) :=
  match r.result, r.src with
  | .eilseq, src => (r.stored, .inl ⟨true, src, selectState r.state⟩)
  | _, none => (r.stored, .inl ⟨false, none, selectState r.state⟩)
  | _, some rest => (r.stored, .inr (rest, selectState r.state))

/-- A call of `mbsrtowcs` with a destination for `len` characters. -/
def mbsrtowcsCall (utf8 : Bool) (len : Nat) (s : List UInt8 × MbState) :
    List Int × (Ended UInt8 ⊕ (List UInt8 × MbState)) :=
  (mbsrtowcs utf8 false s.1 len ⟨{}, some s.2⟩).call

/-- A call of `wcsrtombs` with a destination for `len` bytes. -/
def wcsrtombsCall (utf8 : Bool) (len : Nat) (s : List Int × MbState) :
    List UInt8 × (Ended Int ⊕ (List Int × MbState)) :=
  (wcsrtombs utf8 false s.1 len ⟨{}, some s.2⟩).call

/-! ## Multibyte to wide -/

/-- Everything a string decodes to. -/
def decodeAll (utf8 : Bool) : (fuel : Nat) → (cursor : List UInt8) → MbState → List Int × Ended UInt8
  | 0, cursor, state => ([], ⟨true, some cursor, state⟩)
  | fuel + 1, cursor, state =>
    let d := mbrtowcMode (some (sourceWindow cursor (if utf8 then 4 else 1))) state utf8
    match d.result with
    | .eilseq => ([], ⟨true, some cursor, d.state⟩)
    | .incomplete => ([], ⟨true, some cursor, d.state⟩)
    | .length 0 => ([0], ⟨false, none, d.state⟩)
    | .length (n + 1) =>
      let (out, e) := decodeAll utf8 fuel (cursor.drop (n + 1)) d.state
      (d.pwc.getD 0 :: out, e)

/-- A character takes a byte. -/
theorem window_cons {utf8 : Bool} {cursor : List UInt8} {state : MbState} {n : Nat}
    (h : (mbrtowcMode (some (sourceWindow cursor (if utf8 then 4 else 1))) state utf8).result = .length n) :
    cursor ≠ [] := by
  rintro rfl
  cases utf8 <;> cases h

theorem decodeAll_fuel {utf8 : Bool} {fuel : Nat} {cursor : List UInt8} (h : cursor.length ≤ fuel) (state : MbState) :
    decodeAll utf8 fuel cursor state = decodeAll utf8 cursor.length cursor state := by
  have key : ∀ (n fuel : Nat) (cursor : List UInt8) (state : MbState), cursor.length ≤ n → cursor.length ≤ fuel →
      decodeAll utf8 fuel cursor state = decodeAll utf8 n cursor state := by
    have hnil : ∀ (m : Nat) (state : MbState), decodeAll utf8 m [] state = ([], ⟨true, some [], state⟩) := by
      intro m state
      cases m with
      | zero => rfl
      | succ m => cases utf8 <;> rfl
    intro n
    induction n with
    | zero =>
      intro fuel cursor state hn _
      obtain rfl := List.eq_nil_of_length_eq_zero (Nat.le_zero.1 hn)
      rw [hnil, hnil]
    | succ n ih =>
      intro fuel cursor state hn hf
      cases fuel with
      | zero =>
        obtain rfl := List.eq_nil_of_length_eq_zero (Nat.le_zero.1 hf)
        rw [hnil, hnil]
      | succ fuel =>
        simp only [decodeAll]
        split
        · rfl
        · rfl
        · rfl
        · rw [ih fuel]
          · rw [List.length_drop]; omega
          · rw [List.length_drop]; omega
  exact key cursor.length fuel cursor state (Nat.le_refl _) h

/-- A bounded run ends as the whole run does, or stores the front of what it
stores and leaves the rest of the source. -/
theorem mbsrtowcsLoop_split {utf8 : Bool} {len fuel : Nat} {cursor : List UInt8} (hf : cursor.length ≤ fuel)
    (count : Nat) (state : MbState) :
    let r := mbsrtowcsLoop utf8 false len fuel cursor count state
    (r.result = .eilseq ∧ decodeAll utf8 fuel cursor state = (r.stored, ⟨true, r.src, r.state⟩)) ∨
      ((∃ n, r.result = .length n) ∧ r.src = none ∧
        decodeAll utf8 fuel cursor state = (r.stored, ⟨false, none, r.state⟩)) ∨
      ∃ rest, (∃ n, r.result = .length n) ∧ r.src = some rest ∧ rest.length + r.stored.length ≤ cursor.length ∧
        len ≤ count + r.stored.length ∧
        decodeAll utf8 fuel cursor state =
          (r.stored ++ (decodeAll utf8 rest.length rest r.state).1, (decodeAll utf8 rest.length rest r.state).2) := by
  induction fuel generalizing cursor count state with
  | zero => exact .inl ⟨rfl, rfl⟩
  | succ fuel ih =>
    dsimp only
    unfold mbsrtowcsLoop
    by_cases hfull : (!false) = true ∧ count ≥ len
    · rw [if_pos hfull]
      refine .inr (.inr ⟨cursor, ⟨_, rfl⟩, rfl, Nat.le_refl _, hfull.2, ?_⟩)
      rw [decodeAll_fuel hf]
      rfl
    rw [if_neg hfull, decodeAll]
    dsimp only
    have hcons := fun n => @window_cons utf8 cursor state n
    generalize mbrtowcMode (some (sourceWindow cursor (if utf8 then 4 else 1))) state utf8 = d at hcons
    obtain ⟨result, pwc, next⟩ := d
    dsimp only at hcons ⊢
    cases result with
    | eilseq | incomplete => exact .inl ⟨rfl, rfl⟩
    | length n =>
      cases n with
      | zero => exact .inr (.inl ⟨⟨_, rfl⟩, rfl, rfl⟩)
      | succ n =>
        have hpos := List.length_pos_of_ne_nil (hcons _ rfl)
        have hdrop : (cursor.drop (n + 1)).length = cursor.length - (n + 1) := List.length_drop
        rcases @ih (cursor.drop (n + 1)) (by omega) (count + 1) next with
          ⟨h1, h2⟩ | ⟨h1, h2, h3⟩ | ⟨rest, h1, h2, h3, h4, h5⟩
        · left
          dsimp only
          rw [h2]
          exact ⟨h1, rfl⟩
        · right; left
          dsimp only
          rw [h3]
          exact ⟨h1, h2, rfl⟩
        · right; right
          dsimp only
          rw [h5]
          refine ⟨rest, h1, h2, ?_, ?_, rfl⟩
          · rw [List.length_cons]; omega
          · rw [List.length_cons]; omega

theorem mbsrtowcsCall_cases (utf8 : Bool) (len : Nat) (s : List UInt8 × MbState) :
    (∃ out e, mbsrtowcsCall utf8 len s = (out, .inl e) ∧ decodeAll utf8 s.1.length s.1 s.2 = (out, e)) ∨
      ∃ out rest state, mbsrtowcsCall utf8 len s = (out, .inr (rest, state)) ∧
        rest.length + out.length ≤ s.1.length ∧ len ≤ out.length ∧
        decodeAll utf8 s.1.length s.1 s.2 =
          (out ++ (decodeAll utf8 rest.length rest state).1, (decodeAll utf8 rest.length rest state).2) := by
  obtain ⟨cursor, state⟩ := s
  have hsplit := @mbsrtowcsLoop_split utf8 len _ cursor (Nat.le_refl _) 0 state
  unfold mbsrtowcsCall StringConverted.call mbsrtowcs
  rw [if_neg Bool.false_ne_true]
  dsimp only [selectState, Option.getD_some] at hsplit ⊢
  generalize mbsrtowcsLoop utf8 false len cursor.length cursor 0 state = r at hsplit
  obtain ⟨result, stored, src, next⟩ := r
  rcases hsplit with ⟨h1, h2⟩ | ⟨⟨n, h1⟩, h2, h3⟩ | ⟨rest, ⟨n, h1⟩, h2, h3, h4, h5⟩
  · dsimp only at h1 h2
    subst h1
    exact .inl ⟨_, _, rfl, h2⟩
  · dsimp only at h1 h2 h3
    subst h1 h2
    exact .inl ⟨_, _, rfl, h3⟩
  · dsimp only at h1 h2 h3 h4 h5
    subst h1 h2
    rw [Nat.zero_add] at h4
    exact .inr ⟨stored, rest, next, rfl, h3, h4, h5⟩

theorem mbsrtowcs_resumes (utf8 : Bool) :
    Resumes (fun _ => True) (mbsrtowcsCall utf8) fun s => decodeAll utf8 s.1.length s.1 s.2 where
  ends _ h := by
    rcases mbsrtowcsCall_cases utf8 _ _ with ⟨out, e, hc, hd⟩ | ⟨out, rest, state, hc, -⟩
    · rw [hc] at h
      obtain ⟨rfl, he⟩ := Prod.mk.inj h
      rw [hd, Sum.inl.inj he]
    · rw [hc] at h
      cases h
  goesOn _ h := by
    rcases mbsrtowcsCall_cases utf8 _ _ with ⟨out, e, hc, -⟩ | ⟨out, rest, state, hc, -, -, hd⟩
    · rw [hc] at h
      cases h
    · rw [hc] at h
      obtain ⟨rfl, he⟩ := Prod.mk.inj h
      rw [hd, ← Sum.inr.inj he]
      exact ⟨trivial, rfl⟩

/-- The source pointer is null just where the terminator was stored. -/
theorem mbsrtowcsLoop_null {utf8 : Bool} {len fuel : Nat} {cursor : List UInt8} {count : Nat} {state : MbState} :
    (mbsrtowcsLoop utf8 false len fuel cursor count state).src = none ↔
      0 ∈ (mbsrtowcsLoop utf8 false len fuel cursor count state).stored := by
  have hno : ∀ c : List UInt8, some c = none ↔ (0 : Int) ∈ ([] : List Int) := fun c => by simp
  induction fuel generalizing cursor count state with
  | zero => exact hno cursor
  | succ fuel ih =>
    unfold mbsrtowcsLoop
    split
    · exact hno cursor
    dsimp only
    have hlength := fun n => @mode_length (sourceWindow cursor (if utf8 then 4 else 1)) n state utf8
    generalize mbrtowcMode (some (sourceWindow cursor (if utf8 then 4 else 1))) state utf8 = d at hlength
    obtain ⟨result, pwc, next⟩ := d
    dsimp only at hlength ⊢
    cases result with
    | eilseq | incomplete => exact hno cursor
    | length n =>
      cases n with
      | zero => exact ⟨fun _ => List.mem_singleton.2 rfl, fun _ => rfl⟩
      | succ n =>
        rcases hlength _ rfl with ⟨h0, -⟩ | ⟨-, -, -, c, hp, hc⟩
        · exact absurd h0 (Nat.succ_ne_zero n)
        · dsimp only at hp ⊢
          rw [hp, Option.getD_some, List.mem_cons]
          exact ih.trans ⟨.inr, fun h => h.resolve_left (Ne.symm hc)⟩

/-! ## Wide to multibyte -/

/-- Everything a wide string encodes to. -/
def encodeAll (utf8 : Bool) : (cursor : List Int) → MbState → List UInt8 × Ended Int
  | [], state => ([], ⟨false, some [], state⟩)
  | wc :: rest, state =>
    match wcrtombMode wc state utf8 with
    | (none, state) => ([], ⟨true, some (wc :: rest), state⟩)
    | (some encoded, state) =>
      if wc = 0 then ([0], ⟨false, none, state⟩)
      else
        let (out, e) := encodeAll utf8 rest state
        (encoded ++ out, e)

/-- The bytes of whole characters. -/
def Encodings (utf8 : Bool) (wide : List Int) (bytes : List UInt8) : Prop :=
  ∃ pieces, List.Forall₂ (fun wc piece => encodeValue wc utf8 = some piece) wide pieces ∧ bytes = pieces.flatten

theorem Encodings.nil (utf8 : Bool) : Encodings utf8 [] [] := ⟨[], .nil, rfl⟩

theorem Encodings.cons {utf8 : Bool} {wc : Int} {encoded : List UInt8} (h : encodeValue wc utf8 = some encoded)
    {wide : List Int} {bytes : List UInt8} (hw : Encodings utf8 wide bytes) :
    Encodings utf8 (wc :: wide) (encoded ++ bytes) := by
  obtain ⟨pieces, hp, rfl⟩ := hw
  exact ⟨encoded :: pieces, .cons h hp, rfl⟩

theorem Encodings.uncons {utf8 : Bool} {wc : Int} {wide : List Int} {bytes : List UInt8}
    (h : Encodings utf8 (wc :: wide) bytes) :
    ∃ encoded rest, encodeValue wc utf8 = some encoded ∧ bytes = encoded ++ rest ∧ Encodings utf8 wide rest := by
  obtain ⟨pieces, hp, rfl⟩ := h
  cases hp with
  | cons hwc hrest => exact ⟨_, _, hwc, rfl, _, hrest, rfl⟩

theorem encodeValue_zero (utf8 : Bool) : encodeValue 0 utf8 = some [0] := by cases utf8 <;> rfl

/-- What a bounded run does to a source that holds a terminator. It stores whole
characters, and ends as the whole run does or leaves the rest of the source. -/
theorem wcsrtombsLoop_split {utf8 : Bool} {len : Nat} {cursor : List Int} (h0 : 0 ∈ cursor) (count : Nat)
    (state : MbState) :
    let r := wcsrtombsLoop utf8 false len cursor count state
    ∃ consumed, Encodings utf8 consumed r.stored ∧ (r.src = none ↔ 0 ∈ consumed) ∧
      ((r.result = .eilseq ∧ (∃ rest, cursor = consumed ++ rest ∧ r.src = some rest) ∧
          encodeAll utf8 cursor state = (r.stored, ⟨true, r.src, r.state⟩)) ∨
        ((∃ n, r.result = .length n) ∧ r.src = none ∧ consumed <+: cursor ∧
          encodeAll utf8 cursor state = (r.stored, ⟨false, none, r.state⟩)) ∨
        ∃ rest, (∃ n, r.result = .length n) ∧ r.src = some rest ∧ cursor = consumed ++ rest ∧
          (4 ≤ len - count → consumed ≠ []) ∧ len < count + 4 * cursor.length ∧
          encodeAll utf8 cursor state =
            (r.stored ++ (encodeAll utf8 rest r.state).1, (encodeAll utf8 rest r.state).2)) := by
  induction cursor generalizing count state with
  | nil => exact absurd h0 List.not_mem_nil
  | cons wc cursor ih =>
    dsimp only
    unfold wcsrtombsLoop
    rw [encodeAll]
    obtain ⟨e, he⟩ : ∃ e, encodeValue wc utf8 = e := ⟨_, rfl⟩
    unfold wcrtombMode
    rw [he]
    cases e with
    | none => exact ⟨[], .nil utf8, by simp, .inl ⟨rfl, ⟨_, rfl, rfl⟩, rfl⟩⟩
    | some encoded =>
      have hlen := (feeds_encode he).2
      -- The encoder's state is reset before the room is looked at.
      have hreset : ∀ s, encodeAll utf8 (wc :: cursor) s = encodeAll utf8 (wc :: cursor) {} := fun _ => rfl
      dsimp only
      by_cases hz : wc = 0
      · rw [if_pos hz, if_pos hz]
        by_cases hfull : (!false) = true ∧ count ≥ len
        · rw [if_pos hfull]
          refine ⟨[], .nil utf8, by simp, .inr (.inr ⟨_, ⟨_, rfl⟩, rfl, rfl, fun h4 => ?_, ?_, ?_⟩)⟩
          · have := hfull.2
            omega
          · have := hfull.2
            rw [List.length_cons]
            omega
          · rw [encodeAll, wcrtombMode, he]
            dsimp only
            rw [if_pos hz]
            rfl
        · rw [if_neg hfull]
          refine ⟨[0], ?_, by simp, .inr (.inl ⟨⟨_, rfl⟩, rfl, ?_, rfl⟩)⟩
          · exact (Encodings.nil utf8).cons (encodeValue_zero utf8)
          · rw [hz]
            exact List.cons_prefix_cons.2 ⟨rfl, List.nil_prefix⟩
      rw [if_neg hz, if_neg hz]
      by_cases hfull : (!false) = true ∧ encoded.length > len - count
      · rw [if_pos hfull]
        have hroom := hfull.2
        refine ⟨[], .nil utf8, by simp, .inr (.inr ⟨_, ⟨_, rfl⟩, rfl, rfl, fun h4 => by omega, ?_, ?_⟩)⟩
        · rw [List.length_cons]
          omega
        · rw [encodeAll, wcrtombMode, he]
          dsimp only
          rw [if_neg hz]
          rfl
      rw [if_neg hfull]
      have hmem : 0 ∈ cursor := (List.mem_cons.1 h0).resolve_left fun h => hz h.symm
      have hzero : ∀ consumed : List Int, 0 ∈ consumed ↔ 0 ∈ wc :: consumed := fun consumed =>
        ⟨List.mem_cons_of_mem _, fun hm => (List.mem_cons.1 hm).resolve_left fun h => hz h.symm⟩
      obtain ⟨consumed, h1, h2, h3⟩ := ih hmem (count + encoded.length) {}
      refine ⟨wc :: consumed, h1.cons he, h2.trans (hzero consumed), ?_⟩
      rcases h3 with ⟨g1, ⟨rest, g2, g3⟩, g4⟩ | ⟨g1, g2, g3, g4⟩ | ⟨rest, g1, g2, g3, g4, g5, g6⟩
      · left
        rw [g4]
        exact ⟨g1, ⟨rest, by rw [g2]; rfl, g3⟩, rfl⟩
      · right; left
        rw [g4]
        exact ⟨g1, g2, List.cons_prefix_cons.2 ⟨rfl, g3⟩, rfl⟩
      · right; right
        rw [g6]
        refine ⟨rest, g1, g2, by rw [g3]; rfl, fun _ => List.cons_ne_nil _ _, ?_, ?_⟩
        · rw [List.length_cons]
          omega
        · rw [List.append_assoc]

theorem wcsrtombsCall_cases (utf8 : Bool) (len : Nat) {s : List Int × MbState} (h0 : 0 ∈ s.1) :
    (∃ out e, wcsrtombsCall utf8 len s = (out, .inl e) ∧ encodeAll utf8 s.1 s.2 = (out, e)) ∨
      ∃ out rest state, wcsrtombsCall utf8 len s = (out, .inr (rest, state)) ∧ 0 ∈ rest ∧
        (4 ≤ len → rest.length < s.1.length) ∧ len < 4 * s.1.length ∧
        encodeAll utf8 s.1 s.2 = (out ++ (encodeAll utf8 rest state).1, (encodeAll utf8 rest state).2) := by
  obtain ⟨cursor, state⟩ := s
  have hsplit := @wcsrtombsLoop_split utf8 len cursor h0 0 state
  unfold wcsrtombsCall StringConverted.call wcsrtombs
  rw [if_neg Bool.false_ne_true]
  dsimp only [selectState, Option.getD_some] at hsplit ⊢
  generalize wcsrtombsLoop utf8 false len cursor 0 state = r at hsplit
  obtain ⟨result, stored, src, next⟩ := r
  obtain ⟨consumed, -, hnull, hsplit⟩ := hsplit
  rcases hsplit with ⟨h1, -, h2⟩ | ⟨⟨n, h1⟩, h2, -, h3⟩ | ⟨rest, ⟨n, h1⟩, h2, h3, h4, h5, h6⟩
  · dsimp only at h1 h2
    subst h1
    exact .inl ⟨_, _, rfl, h2⟩
  · dsimp only at h1 h2 h3
    subst h1 h2
    exact .inl ⟨_, _, rfl, h3⟩
  · dsimp only at h1 h2 h3 h4 h5 h6 hnull
    subst h1 h2
    have hno : 0 ∉ consumed := fun hm => by simp [hm] at hnull
    refine .inr ⟨stored, rest, next, rfl, ?_, fun hl => ?_, ?_, h6⟩
    · rw [h3] at h0
      exact (List.mem_append.1 h0).resolve_left hno
    · have := List.length_pos_of_ne_nil (h4 hl)
      rw [h3, List.length_append]
      omega
    · rwa [Nat.zero_add] at h5

theorem wcsrtombs_resumes (utf8 : Bool) :
    Resumes (fun s : List Int × MbState => 0 ∈ s.1) (wcsrtombsCall utf8) fun s => encodeAll utf8 s.1 s.2 where
  ends hp h := by
    rcases wcsrtombsCall_cases utf8 _ hp with ⟨out, e, hc, hd⟩ | ⟨out, rest, state, hc, -⟩
    · rw [hc] at h
      obtain ⟨rfl, he⟩ := Prod.mk.inj h
      rw [hd, Sum.inl.inj he]
    · rw [hc] at h
      cases h
  goesOn hp h := by
    rcases wcsrtombsCall_cases utf8 _ hp with ⟨out, e, hc, -⟩ | ⟨out, rest, state, hc, hm, -, -, hd⟩
    · rw [hc] at h
      cases h
    · rw [hc] at h
      obtain ⟨rfl, he⟩ := Prod.mk.inj h
      rw [hd, ← Sum.inr.inj he]
      exact ⟨hm, rfl⟩

/-! ## There and back -/

/-- A character that decodes from the initial state is the one these bytes encode. -/
theorem encode_of_decode {bytes : List UInt8} {utf8 : Bool} {n : Nat} {c : Int}
    (h : (mbrtowcMode (some bytes) {} utf8).result = .length (n + 1))
    (hc : (mbrtowcMode (some bytes) {} utf8).pwc = some c) :
    encodeValue c utf8 = some (bytes.take (n + 1)) ∧ (mbrtowcMode (some bytes) {} utf8).state = {} := by
  cases utf8 with
  | true =>
    have hc0 : c ≠ 0 := by
      rcases mode_length h with ⟨h0, -⟩ | ⟨-, -, -, c', hp, hne⟩
      · exact absurd h0 (Nat.succ_ne_zero n)
      · obtain rfl := Option.some.inj (hc.symm.trans hp)
        exact hne
    obtain ⟨v, rfl, hv, he, -⟩ := @encode_of_reports bytes c (n + 1) ⟨hc, .inl ⟨hc0, h⟩⟩
    rw [encodeValue_eq hv, he]
    refine ⟨rfl, ?_⟩
    have hd := decode_encode hv (bytes.drop (n + 1))
    rw [he, List.take_append_drop] at hd
    rw [hd]
  | false =>
    cases bytes with
    | nil => cases h
    | cons b rest =>
      simp only [mbrtowcMode, if_neg Bool.false_ne_true] at h hc ⊢
      rw [if_neg (by decide)] at h hc ⊢
      split at h
      · contradiction
      rename_i hmax
      rw [if_neg hmax] at hc ⊢
      obtain rfl := Option.some.inj hc
      have hn : n = 0 := by
        have := Converted.length.inj h
        split at this <;> omega
      subst hn
      refine ⟨?_, rfl⟩
      have hneg : ¬ ((b.toNat : Int) < 0) := by omega
      unfold encodeValue
      rw [if_neg hneg]
      dsimp only
      rw [if_pos (by rfl), Int.toNat_natCast, if_neg hmax, UInt8.ofNat_toNat]
      rfl

/-- The front of the input encodes a character: this is the character decoded. -/
theorem decode_of_encode {wc : Int} {utf8 : Bool} {encoded : List UInt8} (h : encodeValue wc utf8 = some encoded)
    (rest : List UInt8) :
    mbrtowcMode (some (encoded ++ rest)) {} utf8 =
      ⟨.length (if wc = 0 then 0 else encoded.length), some wc, {}⟩ := by
  cases utf8 with
  | true =>
    obtain ⟨hpos, hv⟩ := (encodeValue_isSome wc).1 (by rw [h]; rfl)
    obtain ⟨v, rfl⟩ := Int.eq_ofNat_of_zero_le hpos
    rw [Int.toNat_natCast] at hv
    rw [encodeValue_eq hv] at h
    obtain rfl := Option.some.inj h
    rw [decode_encode hv]
    simp only [Int.natCast_eq_zero]
  | false =>
    unfold encodeValue at h
    split at h
    · cases h
    rename_i hpos
    obtain ⟨v, rfl⟩ := Int.eq_ofNat_of_zero_le (not_lt.1 hpos)
    rw [Int.toNat_natCast] at h
    dsimp only at h
    rw [if_pos (by rfl)] at h
    split at h
    · cases h
    rename_i hmax
    obtain rfl := Option.some.inj h
    have hv : (UInt8.ofNat v).toNat = v := by
      unfold cMbMax at hmax
      exact Utf8.toNat_ofNat (by omega)
    simp only [mbrtowcMode, List.singleton_append, if_neg Bool.false_ne_true]
    rw [if_neg (by decide), hv, if_neg hmax]
    simp only [List.length_singleton, Int.natCast_eq_zero]

/-- A well-formed string is its terminator, or a character in front of such a string. -/
theorem Encodings.first {utf8 : Bool} {chars : List Int} {src : List UInt8} (hw : Encodings utf8 chars src)
    (ht : Terminated src) :
    (chars = [0] ∧ src = [0]) ∨
      ∃ wc chars' encoded rest, chars = wc :: chars' ∧ src = encoded ++ rest ∧ wc ≠ 0 ∧
        encodeValue wc utf8 = some encoded ∧ 0 < encoded.length ∧ Encodings utf8 chars' rest ∧ Terminated rest := by
  have hbytes : ∀ {wc encoded}, encodeValue wc utf8 = some encoded →
      Consumes encoded (mbrtowcMode (some encoded) {} utf8) (if wc = 0 then 0 else encoded.length) := by
    intro wc encoded he
    have hdecode := decode_of_encode he []
    rw [List.append_nil] at hdecode
    exact mode_length (by rw [hdecode])
  cases chars with
  | nil =>
    obtain ⟨s, rfl, -⟩ := ht
    obtain ⟨pieces, hp, hnil⟩ := hw
    cases hp
    exact absurd hnil (List.append_ne_nil_of_right_ne_nil s (List.cons_ne_nil 0 []))
  | cons wc chars =>
    obtain ⟨encoded, rest, he, rfl, hrest⟩ := hw.uncons
    rcases eq_or_ne wc 0 with rfl | hne
    · obtain rfl := Option.some.inj ((encodeValue_zero utf8).symm.trans he)
      obtain rfl := ht.nul
      obtain ⟨pieces, hp, hnil⟩ := hrest
      cases hp with
      | nil => exact .inl ⟨rfl, rfl⟩
      | cons hwc _ =>
        obtain ⟨rfl, -⟩ := List.append_eq_nil_iff.1 hnil.symm
        rcases hbytes hwc with ⟨-, -, -, tail, h⟩ | ⟨h0, hle, -⟩
        · cases h
        · exact absurd (h0.trans_le hle) (Nat.lt_irrefl 0)
    · have hconsumes := hbytes he
      rw [if_neg hne] at hconsumes
      rcases hconsumes with ⟨h0, -, -, tail, h⟩ | ⟨hpos, -, hno, -⟩
      · rw [h] at h0
        cases h0
      · rw [List.take_length] at hno
        have hdrop := ht.drop (n := encoded.length) (by rw [List.length_append]; omega)
        rw [List.take_left, List.drop_left] at hdrop
        exact .inr ⟨wc, chars, encoded, rest, rfl, rfl, hne, he, hpos, hrest, hdrop hno⟩

/-- With room for them `mbsrtowcs` stores the characters of a well-formed string. -/
theorem mbsrtowcsLoop_encodings {utf8 : Bool} {len fuel : Nat} {chars : List Int} {src : List UInt8}
    (hw : Encodings utf8 chars src) (ht : Terminated src) (hf : src.length ≤ fuel) {count : Nat}
    (hlen : count + chars.length ≤ len) :
    mbsrtowcsLoop utf8 false len fuel src count {} = ⟨.length (count + chars.length - 1), chars, none, {}⟩ := by
  induction fuel generalizing src chars count with
  | zero =>
    obtain rfl := List.eq_nil_of_length_eq_zero (Nat.le_zero.1 hf)
    exact absurd ht.mem List.not_mem_nil
  | succ fuel ih =>
    have hmode := (mode_window ht.mem (.inl rfl) utf8).2
    unfold mbsrtowcsLoop
    rcases hw.first ht with ⟨rfl, rfl⟩ | ⟨wc, chars', encoded, rest, rfl, rfl, hne, he, hpos, hw', ht'⟩
    · rw [List.length_singleton] at hlen
      have hdecode := decode_of_encode (encodeValue_zero utf8) []
      rw [List.append_nil] at hdecode
      rw [if_neg (by omega), hmode, hdecode]
      rfl
    · rw [List.length_cons] at hlen
      rw [List.length_append] at hf
      obtain ⟨n, hn⟩ : ∃ n, encoded.length = n + 1 := ⟨encoded.length - 1, by omega⟩
      have hnext := @ih chars' rest hw' ht' (by omega) (count + 1) (by omega)
      rw [if_neg (by omega), hmode, decode_of_encode he, if_neg hne, hn]
      dsimp only
      rw [← hn, List.drop_left, hnext, Option.getD_some, List.length_cons, Nat.add_right_comm, Nat.add_assoc]

/-- With room for it `wcsrtombs` stores the string that these characters encode. -/
theorem wcsrtombsLoop_encodings {utf8 : Bool} {len : Nat} {chars : List Int} {src : List UInt8}
    (hw : Encodings utf8 chars src) (ht : Terminated src) {count : Nat} (hlen : count + src.length ≤ len) :
    wcsrtombsLoop utf8 false len chars count {} = ⟨.length (count + src.length - 1), src, none, {}⟩ := by
  induction chars generalizing src count with
  | nil =>
    rcases hw.first ht with ⟨h, -⟩ | ⟨wc, chars', encoded, rest, h, -⟩
    · cases h
    · cases h
  | cons wc chars ih =>
    unfold wcsrtombsLoop wcrtombMode
    rcases hw.first ht with ⟨h, rfl⟩ | ⟨wc', chars', encoded, rest, h, rfl, hne, he, hpos, hw', ht'⟩
    · obtain ⟨rfl, rfl⟩ := List.cons.inj h
      rw [List.length_singleton] at hlen
      rw [encodeValue_zero]
      dsimp only
      rw [if_pos rfl, if_neg (by omega)]
      rfl
    · obtain ⟨rfl, rfl⟩ := List.cons.inj h
      rw [List.length_append] at hlen
      have hnext := @ih rest hw' ht' (count + encoded.length) (by omega)
      rw [he]
      dsimp only
      rw [if_neg hne, if_neg (by omega), hnext, List.length_append, Nat.add_assoc]

/-! ## The count -/

/-- The count is what was stored, less the terminator. -/
def StringConverted.Counted {α β τ : Type} (r : StringConverted α β τ) (count : Nat) : Prop :=
  ∀ n, r.result = .length n → n + (if r.src = none then 1 else 0) = count + r.stored.length

theorem mbsrtowcsLoop_counted {utf8 sizing : Bool} {len fuel : Nat} {cursor : List UInt8} {count : Nat}
    {state : MbState} : (mbsrtowcsLoop utf8 sizing len fuel cursor count state).Counted count := by
  induction fuel generalizing cursor count state with
  | zero => exact fun n hn => by cases hn
  | succ fuel ih =>
    unfold mbsrtowcsLoop
    split
    · intro n hn
      obtain rfl := Converted.length.inj hn
      rfl
    dsimp only
    generalize mbrtowcMode (some (sourceWindow cursor (if utf8 then 4 else 1))) state utf8 = d
    obtain ⟨result, pwc, next⟩ := d
    cases result with
    | eilseq | incomplete => exact fun n hn => by cases hn
    | length k =>
      intro n hn
      cases k with
      | zero =>
        obtain rfl := Converted.length.inj hn
        rfl
      | succ k =>
        have hcount := ih n hn
        dsimp only at hcount ⊢
        rw [hcount, List.length_cons]
        omega

theorem wcsrtombsLoop_counted {utf8 sizing : Bool} {len : Nat} {cursor : List Int} {count : Nat} {state : MbState} :
    (wcsrtombsLoop utf8 sizing len cursor count state).Counted count := by
  induction cursor generalizing count state with
  | nil =>
    intro n hn
    obtain rfl := Converted.length.inj hn
    rfl
  | cons wc rest ih =>
    unfold wcsrtombsLoop wcrtombMode
    cases encodeValue wc utf8 with
    | none => exact fun n hn => by cases hn
    | some encoded =>
      dsimp only
      split
      · split
        · intro n hn
          obtain rfl := Converted.length.inj hn
          rfl
        · intro n hn
          obtain rfl := Converted.length.inj hn
          rfl
      split
      · intro n hn
        obtain rfl := Converted.length.inj hn
        rfl
      · intro n hn
        have hcount := ih n hn
        dsimp only at hcount ⊢
        rw [hcount, List.length_append]
        omega

/-! ## The contract -/

/-- A well-formed string comes back from `mbstowcs` and `wcstombs`. -/
theorem wcstombs_mbstowcs {utf8 : Bool} {chars : List Int} {src : List UInt8} (ht : Terminated src)
    (hw : Encodings utf8 chars src) {len len' : Nat} (hlen : chars.length ≤ len) (hlen' : src.length ≤ len') :
    mbstowcs utf8 src len = (.length (chars.length - 1), chars) ∧
      wcstombs utf8 (mbstowcs utf8 src len).2 len' = (.length (src.length - 1), src) := by
  have hread : mbsrtowcsLoop utf8 false len src.length src 0 {} = _ :=
    mbsrtowcsLoop_encodings hw ht (Nat.le_refl _) (by omega)
  have hwrite : wcsrtombsLoop utf8 false len' chars 0 {} = _ := wcsrtombsLoop_encodings hw ht (by omega)
  rw [Nat.zero_add] at hread hwrite
  have hstored : mbstowcs utf8 src len = (.length (chars.length - 1), chars) := by
    simp [mbstowcs, mbsrtowcs, selectState, hread]
  refine ⟨hstored, ?_⟩
  rw [hstored]
  simp [wcstombs, wcsrtombs, selectState, hwrite]

/-- Bounded conversion resumes exactly, with every encoding and from every state.
- Successive calls of `mbsrtowcs` that end store, together, what one call with
  room for everything stores, and end as it does: with the same error at the same
  source position or a null pointer, and in the same state. Enough calls with
  room for a character end.
- So do those of `wcsrtombs`, with room for four bytes, and each of them stores
  whole characters: those its source pointer has passed.
- The source pointer is null just where the terminator was stored, and the count
  is what was stored without it.
- Of a string of encoded characters `mbstowcs` stores these characters, and
  `wcstombs` of them gives the string back. -/
theorem conversion_resumes (utf8 : Bool) :
    (∀ (src : List UInt8) (state : MbState) (limits : List Nat), Terminated src →
      (∀ outs e, successive (mbsrtowcsCall utf8) limits (src, state) = (outs, .inl e) →
        ∀ len, src.length < len → mbsrtowcsCall utf8 len (src, state) = (outs.flatten, .inl e)) ∧
      ((∀ n ∈ limits, 1 ≤ n) → src.length < limits.length →
        ∃ outs e, successive (mbsrtowcsCall utf8) limits (src, state) = (outs, .inl e))) ∧
    (∀ (src : List Int) (state : MbState) (limits : List Nat), Terminated src →
      (∀ outs e, successive (wcsrtombsCall utf8) limits (src, state) = (outs, .inl e) →
        ∀ len, 4 * src.length < len → wcsrtombsCall utf8 len (src, state) = (outs.flatten, .inl e)) ∧
      ((∀ n ∈ limits, 4 ≤ n) → src.length < limits.length →
        ∃ outs e, successive (wcsrtombsCall utf8) limits (src, state) = (outs, .inl e))) ∧
    (∀ (src : List UInt8) (state : MbState) (len : Nat),
      let r := mbsrtowcs utf8 false src len ⟨{}, some state⟩
      (r.src = none ↔ 0 ∈ r.stored) ∧ r.Counted 0) ∧
    (∀ (src : List Int) (state : MbState) (len : Nat), Terminated src →
      let r := wcsrtombs utf8 false src len ⟨{}, some state⟩
      r.Counted 0 ∧ ∃ consumed, Encodings utf8 consumed r.stored ∧ (r.src = none ↔ 0 ∈ consumed) ∧
        consumed <+: src ∧ ∀ rest, r.src = some rest → src = consumed ++ rest) ∧
    (∀ (chars : List Int) (src : List UInt8) (len len' : Nat), Terminated src → Encodings utf8 chars src →
      chars.length ≤ len → src.length ≤ len' →
      mbstowcs utf8 src len = (.length (chars.length - 1), chars) ∧
        wcstombs utf8 (mbstowcs utf8 src len).2 len' = (.length (src.length - 1), src)) := by
  refine ⟨fun src state limits ht => ⟨fun outs e h len hlen => ?_, fun hgood hlen => ?_⟩,
    fun src state limits ht => ⟨fun outs e h len hlen => ?_, fun hgood hlen => ?_⟩,
    fun src state len => ⟨mbsrtowcsLoop_null, mbsrtowcsLoop_counted⟩, fun src state len ht => ?_,
    fun chars src len len' ht hw hlen hlen' => wcstombs_mbstowcs ht hw hlen hlen'⟩
  · have hwhole := (mbsrtowcs_resumes utf8).successive trivial h
    rcases mbsrtowcsCall_cases utf8 len (src, state) with ⟨out, e', hc, hd⟩ | ⟨out, rest, state', -, h1, h2, -⟩
    · rw [hc]
      obtain ⟨rfl, rfl⟩ := Prod.mk.inj (hd.symm.trans hwhole)
      rfl
    · dsimp only at h1
      omega
  · apply @Resumes.successive_ends _ _ _ _ _ _ (mbsrtowcs_resumes utf8) (fun n => 1 ≤ n) (fun s => s.1.length) ?_ _
      hgood _ trivial hlen
    intro n s out s' hn _ hc
    rcases mbsrtowcsCall_cases utf8 n s with ⟨out, e', hc', -⟩ | ⟨out, rest, state', hc', h1, h2, -⟩
    · rw [hc'] at hc
      cases hc
    · rw [hc'] at hc
      obtain rfl := Sum.inr.inj (Prod.mk.inj hc).2
      dsimp only
      omega
  · have hmem : 0 ∈ src := by
      obtain ⟨s, rfl, -⟩ := ht
      exact List.mem_append_right _ (List.mem_singleton.2 rfl)
    have hwhole := (wcsrtombs_resumes utf8).successive hmem h
    rcases @wcsrtombsCall_cases utf8 len (src, state) hmem with ⟨out, e', hc, hd⟩ | ⟨out, rest, state', -, -, -, h3, -⟩
    · rw [hc]
      obtain ⟨rfl, rfl⟩ := Prod.mk.inj (hd.symm.trans hwhole)
      rfl
    · dsimp only at h3
      omega
  · have hmem : 0 ∈ src := by
      obtain ⟨s, rfl, -⟩ := ht
      exact List.mem_append_right _ (List.mem_singleton.2 rfl)
    apply @Resumes.successive_ends _ _ _ _ _ _ (wcsrtombs_resumes utf8) (fun n => 4 ≤ n) (fun s => s.1.length) ?_ _
      hgood _ hmem hlen
    intro n s out s' hn hp hc
    rcases wcsrtombsCall_cases utf8 n hp with ⟨out, e', hc', -⟩ | ⟨out, rest, state', hc', -, h2, -⟩
    · rw [hc'] at hc
      cases hc
    · rw [hc'] at hc
      obtain rfl := Sum.inr.inj (Prod.mk.inj hc).2
      exact h2 hn
  · refine ⟨wcsrtombsLoop_counted, ?_⟩
    have hmem : 0 ∈ src := by
      obtain ⟨s, rfl, -⟩ := ht
      exact List.mem_append_right _ (List.mem_singleton.2 rfl)
    obtain ⟨consumed, h1, h2, h3⟩ := @wcsrtombsLoop_split utf8 len src hmem 0 state
    refine ⟨consumed, h1, h2, ?_⟩
    rcases h3 with ⟨-, ⟨rest, g1, g2⟩, -⟩ | ⟨-, g1, g2, -⟩ | ⟨rest, -, g1, g2, -⟩
    · exact ⟨⟨rest, g1.symm⟩, fun rest' hr => by rw [g1, Option.some.inj (g2.symm.trans hr)]⟩
    · exact ⟨g2, fun rest' hr => by cases g1.symm.trans hr⟩
    · exact ⟨⟨rest, g2.symm⟩, fun rest' hr => by rw [g2, Option.some.inj (g1.symm.trans hr)]⟩

/-- "éA" in three calls with room for one character each, and there and back. -/
theorem conversion_resumes_two :
    mbsrtowcsCall true 8 ([0xc3, 0xa9, 65, 0], {}) = ([0xe9, 65, 0], .inl ⟨false, none, {}⟩) ∧
      mbstowcs true [0xc3, 0xa9, 65, 0] 3 = (.length 2, [0xe9, 65, 0]) ∧
      wcstombs true (mbstowcs true [0xc3, 0xa9, 65, 0] 3).2 4 = (.length 3, [0xc3, 0xa9, 65, 0]) := by
  have ht : Terminated [(0xc3 : UInt8), 0xa9, 65, 0] := ⟨[0xc3, 0xa9, 65], rfl, by decide⟩
  have hw : Encodings true [0xe9, 65, 0] [0xc3, 0xa9, 65, 0] :=
    ⟨[[0xc3, 0xa9], [65], [0]], .cons rfl (.cons rfl (.cons rfl .nil)), rfl⟩
  exact ⟨((conversion_resumes true).1 [0xc3, 0xa9, 65, 0] {} [1, 1, 1] ht).1
      [[0xe9], [65], [0]] ⟨false, none, {}⟩ (by decide) 8 (by decide),
    (conversion_resumes true).2.2.2.2 _ _ 3 4 ht hw (by decide) (by decide)⟩

end MiniLibc.Wchar
