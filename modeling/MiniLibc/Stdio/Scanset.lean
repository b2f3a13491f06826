import MiniLibc.Stdio.ScanFormat
/-!
# Scansets

The two matchers of `src/stdio/scan.c`, and the set that the text of a scanset
denotes. `Member` reads a text from left to right; both matchers decide it.
-/
open MiniLibc.Wchar

namespace MiniLibc.Stdio

/-! ## The matchers -/

/-- The loop of `scanset_contains_bytes`, which matches a byte anywhere in the text. -/
def matchBytes (byte : UInt8) : List UInt8 → Bool
  | [] => false
  | [first] => byte = first
  | [first, next] => byte = first || matchBytes byte [next]
  | first :: dash :: last :: rest =>
    if dash = '-'.toUInt8 ∧ first ≤ last then (first ≤ byte && byte ≤ last) || matchBytes byte rest
    else byte = first || matchBytes byte (dash :: last :: rest)

/-- `scanset_contains_bytes`. -/
def scansetContainsBytes (spec : ScanSpec) (c : Int) : Bool :=
  if c < 0 ∨ c > 0xff then spec.setNegated
  else
    let matched := matchBytes (.ofNat c.toNat) spec.set
    if spec.setNegated then !matched else matched

/-- `decode_scanset_codepoint`: `some none` at the end of the set, and `none` for its
`-1`. -/
def decodeScansetCodepoint (utf8 : Bool) (cursor : List UInt8) : Option (Option (Int × List UInt8)) :=
  match cursor with
  | [] => some none
  | c :: rest =>
    if !utf8 then some (some (c.toNat, rest))
    else
      match decodeFormatLiteral true (c :: rest) with
      | none => none
      | some decoded => some (some decoded)

theorem decodeLiteralLoop_shorter {utf8 : Bool} {fuel : Nat} {state : MbState} {p rest : List UInt8} {value : Int}
    (h : decodeLiteralLoop utf8 fuel state p = some (value, rest)) : rest.length < p.length := by
  induction fuel generalizing state p with
  | zero => cases h
  | succ fuel ih =>
    unfold decodeLiteralLoop at h
    split at h
    · cases h
    rename_i hne
    obtain ⟨c, p, rfl⟩ := List.exists_cons_of_ne_nil (show p ≠ [] by rintro rfl; exact hne rfl)
    split at h
    · cases h
    · have := ih h
      rw [List.drop_succ_cons, List.drop_zero] at this
      exact Nat.lt_succ_of_lt this
    · cases h
      exact Nat.lt_succ_self _

theorem decodeScansetCodepoint_shorter {utf8 : Bool} {cursor rest : List UInt8} {value : Int}
    (h : decodeScansetCodepoint utf8 cursor = some (some (value, rest))) : rest.length < cursor.length := by
  unfold decodeScansetCodepoint at h
  split at h
  · cases h
  split at h
  · cases h
    exact Nat.lt_succ_self _
  split at h
  · cases h
  · rename_i hd
    cases h
    exact decodeLiteralLoop_shorter hd

/-- The loop of `scanset_contains_wide`. `none` is `-1`. -/
def matchWide (utf8 : Bool) (c : Int) (p : List UInt8) (matched : Bool) : Option Bool :=
  if p = [] then some matched
  else
    match _h : decodeScansetCodepoint utf8 p with
    | none | some none => none
    | some (some (first, afterFirst)) =>
      let single := matchWide utf8 c afterFirst (matched || c = first)
      match _hd : decodeScansetCodepoint utf8 afterFirst with
      | none => none
      | some none => single
      | some (some (dash, afterDash)) =>
        if dash = '-'.toNat then
          match _hl : decodeScansetCodepoint utf8 afterDash with
          | none => none
          | some none => single
          | some (some (last, afterLast)) =>
            if first ≤ last then matchWide utf8 c afterLast (matched || (first ≤ c ∧ c ≤ last)) else single
        else single
termination_by p.length
decreasing_by
  · exact decodeScansetCodepoint_shorter _h
  · exact ((decodeScansetCodepoint_shorter _hl).trans (decodeScansetCodepoint_shorter _hd)).trans
      (decodeScansetCodepoint_shorter _h)

/-- `scanset_contains_wide`. `none` is `-1`. -/
def scansetContainsWide (utf8 : Bool) (spec : ScanSpec) (c : Int) : Option Bool :=
  (matchWide utf8 c spec.set false).map fun matched => if spec.setNegated then !matched else matched

/-! ## The set a text denotes -/

/-- A text that starts with a range. -/
def StartsRange (text : List UInt8) : Prop := ∃ x y rest, text = x :: '-'.toUInt8 :: y :: rest ∧ x ≤ y

/-- A character of the set, read from left to right: of a range `x-y`, or a byte that
starts none. -/
inductive Member (c : Int) : List UInt8 → Prop where
  | range {x y : UInt8} {rest : List UInt8} : x ≤ y → x.toNat ≤ c → c ≤ y.toNat →
      Member c (x :: '-'.toUInt8 :: y :: rest)
  | behindRange {x y : UInt8} {rest : List UInt8} : x ≤ y → Member c rest → Member c (x :: '-'.toUInt8 :: y :: rest)
  | single {x : UInt8} {rest : List UInt8} : ¬StartsRange (x :: rest) → c = x.toNat → Member c (x :: rest)
  | behindSingle {x : UInt8} {rest : List UInt8} : ¬StartsRange (x :: rest) → Member c rest → Member c (x :: rest)

/-- A scanset behind its bracket: a circumflex that negates it, its text, in which a
closing bracket can only come first, and the closing bracket. -/
structure ScansetText (p : List UInt8) (negated : Bool) (set rest : List UInt8) : Prop where
  split : p = (if negated then ['^'.toUInt8] else []) ++ (set ++ ']'.toUInt8 :: rest)
  head : ∃ first text, set = first :: text ∧ (∀ c ∈ text, c ≠ 0 ∧ c ≠ ']'.toUInt8) ∧ first ≠ 0 ∧
    (negated = false → first ≠ '^'.toUInt8)

theorem member_nil (c : Int) : ¬Member c [] := nofun

theorem member_range {c : Int} {x y : UInt8} {rest : List UInt8} (h : x ≤ y) :
    Member c (x :: '-'.toUInt8 :: y :: rest) ↔ (x.toNat ≤ c ∧ c ≤ y.toNat) ∨ Member c rest := by
  have hstarts : StartsRange (x :: '-'.toUInt8 :: y :: rest) := ⟨x, y, rest, rfl, h⟩
  constructor
  · intro hm
    cases hm with
    | range _ hlo hhi => exact .inl ⟨hlo, hhi⟩
    | behindRange _ hm => exact .inr hm
    | single hno _ => exact absurd hstarts hno
    | behindSingle hno _ => exact absurd hstarts hno
  · rintro (⟨hlo, hhi⟩ | hm)
    · exact .range h hlo hhi
    · exact .behindRange h hm

theorem member_single {c : Int} {x : UInt8} {rest : List UInt8} (h : ¬StartsRange (x :: rest)) :
    Member c (x :: rest) ↔ c = x.toNat ∨ Member c rest := by
  constructor
  · intro hm
    cases hm with
    | range hle _ _ => exact absurd ⟨_, _, _, rfl, hle⟩ h
    | behindRange hle _ => exact absurd ⟨_, _, _, rfl, hle⟩ h
    | single _ hc => exact .inl hc
    | behindSingle _ hm => exact .inr hm
  · rintro (hc | hm)
    · exact .single h hc
    · exact .behindSingle h hm

/-- The members are bytes. -/
theorem Member.byte {c : Int} {set : List UInt8} (h : Member c set) : 0 ≤ c ∧ c ≤ 0xff := by
  induction h with
  | @range x y _ _ hlo hhi =>
    have := y.toNat_lt
    omega
  | behindRange _ _ ih => exact ih
  | @single x _ _ hc =>
    have := x.toNat_lt
    omega
  | behindSingle _ _ ih => exact ih

theorem startsRange_iff {first dash last : UInt8} {rest : List UInt8} :
    StartsRange (first :: dash :: last :: rest) ↔ dash = '-'.toUInt8 ∧ first ≤ last := by
  constructor
  · rintro ⟨x, y, rest', heq, hle⟩
    cases heq
    exact ⟨rfl, hle⟩
  · rintro ⟨rfl, hle⟩
    exact ⟨first, last, rest, rfl, hle⟩

theorem not_startsRange_short {set : List UInt8} (h : set.length < 3) : ¬StartsRange set := by
  rintro ⟨x, y, rest, rfl, -⟩
  simp only [List.length_cons] at h
  omega

/-- The loop over bytes decides the set. -/
theorem matchBytes_iff (byte : UInt8) (set : List UInt8) : matchBytes byte set = true ↔ Member byte.toNat set := by
  have heq : ∀ x : UInt8, (byte = x) ↔ ((byte.toNat : Int) = x.toNat) := by
    intro x
    rw [Int.natCast_inj, UInt8.toNat_inj]
  fun_induction matchBytes byte set with
  | case1 => simp [member_nil]
  | case2 first => rw [member_single (not_startsRange_short (by simp))]; simp [member_nil, heq]
  | case3 first next ih =>
    rw [member_single (not_startsRange_short (by simp))]
    simp [heq, ih]
  | case4 first dash last rest h ih =>
    obtain ⟨rfl, hle⟩ := h
    rw [member_range hle]
    simp [UInt8.le_iff_toNat_le, ih]
  | case5 first dash last rest h ih =>
    rw [member_single (fun hs => h (startsRange_iff.1 hs))]
    simp [heq, ih]

/-- One byte of a text is one character: any in the C locale, an ASCII one in UTF-8. -/
def OneByte (utf8 : Bool) (set : List UInt8) : Prop := utf8 = true → ∀ b ∈ set, b ≠ 0 ∧ b.toNat < 0x80

theorem OneByte.tail {utf8 : Bool} {b : UInt8} {set : List UInt8} (h : OneByte utf8 (b :: set)) : OneByte utf8 set :=
  fun hu c hc => h hu c (List.mem_cons_of_mem b hc)

theorem decode_oneByte {utf8 : Bool} {b : UInt8} {set : List UInt8} (h : OneByte utf8 (b :: set)) :
    decodeScansetCodepoint utf8 (b :: set) = some (some ((b.toNat : Int), set)) := by
  unfold decodeScansetCodepoint
  cases utf8 with
  | false => rfl
  | true =>
    obtain ⟨hne, hlt⟩ := h rfl b List.mem_cons_self
    have hne' : b.toNat ≠ 0 := fun h0 => hne (UInt8.toNat_inj.1 h0)
    have hdecode : mbrtowcMode (some [b]) {} true = ⟨.length 1, some b.toNat, {}⟩ := by
      show mbrtowcLoop 0 [b] {} = _
      unfold mbrtowcLoop
      dsimp only
      rw [if_pos (show stateRemaining {} = 0 from rfl), if_neg hne', if_pos (by omega)]
    have hloop : decodeFormatLiteral true (b :: set) = some ((b.toNat : Int), set) := by
      unfold decodeFormatLiteral decodeLiteralLoop
      rw [if_neg (by exact hne)]
      rw [show byteAt (b :: set) = b from rfl, hdecode]
      rfl
    dsimp only
    rw [hloop]
    rfl

/-- At a byte the loop looks two further on. -/
theorem matchWide_cons {utf8 : Bool} {c : Int} {first : UInt8} {rest : List UInt8} (h : OneByte utf8 (first :: rest))
    (matched : Bool) :
    matchWide utf8 c (first :: rest) matched =
      match rest with
      | dash :: last :: rest' =>
        if dash = '-'.toUInt8 ∧ first ≤ last then
          matchWide utf8 c rest' (matched || ((first.toNat : Int) ≤ c ∧ c ≤ last.toNat))
        else matchWide utf8 c rest (matched || c = first.toNat)
      | _ => matchWide utf8 c rest (matched || c = first.toNat) := by
  have hdash : ∀ dash : UInt8, ((dash.toNat : Int) = '-'.toNat) ↔ dash = '-'.toUInt8 := by
    intro dash
    rw [Int.natCast_inj, ← UInt8.toNat_inj]
    rfl
  have hle : ∀ last : UInt8, ((first.toNat : Int) ≤ last.toNat) ↔ first ≤ last := by
    intro last
    rw [Int.ofNat_le, UInt8.le_iff_toNat_le]
  rw [matchWide, if_neg (List.cons_ne_nil _ _)]
  split
  · rename_i heq
    cases (decode_oneByte h).symm.trans heq
  · rename_i heq
    cases (decode_oneByte h).symm.trans heq
  rename_i heq
  cases (decode_oneByte h).symm.trans heq
  dsimp only
  match rest, h.tail with
  | [], _ =>
    split
    · rename_i heq
      cases heq
    · rfl
    · rename_i heq
      cases heq
  | [dash], h₁ =>
    split
    · rename_i heq
      cases (decode_oneByte h₁).symm.trans heq
    · rfl
    rename_i heq
    cases (decode_oneByte h₁).symm.trans heq
    split
    · split
      · rename_i heq
        cases heq
      · rfl
      · rename_i heq
        cases heq
    · rfl
  | dash :: last :: rest', h₁ =>
    split
    · rename_i heq
      cases (decode_oneByte h₁).symm.trans heq
    · rename_i heq
      cases (decode_oneByte h₁).symm.trans heq
    rename_i heq
    cases (decode_oneByte h₁).symm.trans heq
    dsimp only
    split
    · rename_i hd
      split
      · rename_i heq
        cases (decode_oneByte h₁.tail).symm.trans heq
      · rename_i heq
        cases (decode_oneByte h₁.tail).symm.trans heq
      rename_i heq
      cases (decode_oneByte h₁.tail).symm.trans heq
      by_cases hrange : first ≤ last
      · rw [if_pos ((hle last).2 hrange), if_pos ⟨(hdash dash).1 hd, hrange⟩]
      · rw [if_neg (fun hlast => hrange ((hle last).1 hlast)), if_neg (fun hboth => hrange hboth.2)]
    · rename_i hd
      rw [if_neg (fun hboth => hd ((hdash dash).2 hboth.1))]

/-- The loop over characters decides the set. -/
theorem matchWide_iff {utf8 : Bool} (c : Int) {set : List UInt8} (h : OneByte utf8 set) (matched : Bool) :
    ∃ found, matchWide utf8 c set matched = some found ∧ (found = true ↔ matched = true ∨ Member c set) := by
  induction hn : set.length using Nat.strong_induction_on generalizing set matched with
  | _ n ih =>
    subst hn
    match set, h with
    | [], _ => exact ⟨matched, by rw [matchWide, if_pos rfl], by simp [member_nil]⟩
    | first :: rest, h =>
      have hsingle : ¬StartsRange (first :: rest) → ∃ found, matchWide utf8 c rest (matched || c = first.toNat) = some found ∧
          (found = true ↔ matched = true ∨ Member c (first :: rest)) := by
        intro hno
        obtain ⟨found, hfound, hiff⟩ := ih rest.length (Nat.lt_succ_self _) h.tail (matched || c = first.toNat) rfl
        refine ⟨found, hfound, ?_⟩
        rw [hiff, member_single hno]
        simp [or_assoc]
      rw [matchWide_cons h]
      match rest, h with
      | [], _ => exact hsingle (not_startsRange_short (by simp))
      | [next], _ => exact hsingle (not_startsRange_short (by simp))
      | dash :: last :: rest', h =>
        dsimp only
        by_cases hrange : dash = '-'.toUInt8 ∧ first ≤ last
        · rw [if_pos hrange]
          obtain ⟨rfl, hle⟩ := hrange
          obtain ⟨found, hfound, hiff⟩ := ih rest'.length (by simp only [List.length_cons]; omega) h.tail.tail.tail
            (matched || ((first.toNat : Int) ≤ c ∧ c ≤ last.toNat)) rfl
          refine ⟨found, hfound, ?_⟩
          rw [hiff, member_range hle]
          simp [or_assoc]
        · rw [if_neg hrange]
          exact hsingle fun hs => hrange (startsRange_iff.1 hs)

/-! ## The parser and the matchers -/

theorem byteAt_cons {p : List UInt8} {c : UInt8} (hc : c ≠ 0) (h : byteAt p = c) : p = c :: p.drop 1 := by
  cases p with
  | nil => exact absurd h.symm hc
  | cons d p => exact congrArg (· :: p) h

/-- Behind the circumflex: a closing bracket that comes first is a member. -/
theorem parseSetText_spec {q set rest : List UInt8} (h : parseSetText q = some (set, rest)) :
    q = set ++ ']'.toUInt8 :: rest ∧
      ∃ head tail, set = head :: tail ∧ (∀ c ∈ tail, c ≠ 0 ∧ c ≠ ']'.toUInt8) ∧ head ≠ 0 ∧ head = byteAt q := by
  unfold parseSetText at h
  dsimp only at h
  generalize hfirst : (if byteAt q = ']'.toUInt8 then q.take 1 else []) = first at h
  by_cases hclose : byteAt ((q.drop first.length).dropWhile insideSet) = ']'.toUInt8
  · rw [if_pos hclose] at h
    cases h
    generalize htext : (q.drop first.length).takeWhile insideSet = text
    have hall : ∀ c ∈ text, c ≠ 0 ∧ c ≠ ']'.toUInt8 := by
      intro c hc
      rw [← htext] at hc
      have hinside := List.mem_takeWhile_imp hc
      exact of_decide_eq_true hinside
    have hsplit : q.drop first.length = text ++ ']'.toUInt8 :: ((q.drop first.length).dropWhile insideSet).drop 1 := by
      rw [← byteAt_cons (by decide) hclose, ← htext]
      exact List.takeWhile_append_dropWhile.symm
    by_cases hbracket : byteAt q = ']'.toUInt8
    · have hq := byteAt_cons (by decide) hbracket
      have hone : first = [']'.toUInt8] := by
        rw [← hfirst, if_pos hbracket, hq]
        rfl
      subst hone
      refine ⟨?_, _, _, rfl, hall, by decide, hbracket.symm⟩
      rw [List.append_assoc, ← hsplit]
      exact hq
    · obtain rfl : first = [] := by
        rw [← hfirst, if_neg hbracket]
      refine ⟨hsplit, ?_⟩
      cases text with
      | nil => exact absurd (congrArg byteAt hsplit) hbracket
      | cons head tail =>
        refine ⟨head, tail, rfl, fun c hc => hall c (List.mem_cons_of_mem _ hc), (hall head List.mem_cons_self).1, ?_⟩
        exact (congrArg byteAt hsplit).symm
  · rw [if_neg hclose] at h
    cases h

/-- The parser takes a text apart as it is written. -/
theorem parseScanset_text {p set rest : List UInt8} {negated : Bool}
    (h : parseScanset p = some (negated, set, rest)) : ScansetText p negated set rest := by
  unfold parseScanset at h
  dsimp only at h
  cases hset : parseSetText (if decide (byteAt p = '^'.toUInt8) = true then p.drop 1 else p) with
  | none =>
    rw [hset] at h
    cases h
  | some parsed =>
    rw [hset] at h
    cases h
    obtain ⟨hsplit, head, tail, hhead, hall, hne, heq⟩ := parseSetText_spec hset
    by_cases hneg : byteAt p = '^'.toUInt8
    · rw [decide_eq_true hneg, if_pos rfl] at hsplit
      refine ⟨?_, head, tail, hhead, hall, hne, fun hno => ?_⟩
      · rw [decide_eq_true hneg, if_pos rfl, ← hsplit]
        exact byteAt_cons (by decide) hneg
      · rw [decide_eq_true hneg] at hno
        cases hno
    · rw [decide_eq_false hneg, if_neg Bool.false_ne_true] at hsplit heq
      refine ⟨?_, head, tail, hhead, hall, hne, fun _ => heq ▸ hneg⟩
      rw [decide_eq_false hneg, if_neg Bool.false_ne_true]
      exact hsplit

/-- Both matchers, on the set that the text denotes. -/
theorem scanset_exact {utf8 : Bool} {p rest : List UInt8} {spec : ScanSpec}
    (hparse : parseScanset p = some (spec.setNegated, spec.set, rest))
    (hascii : utf8 = true → ∀ b ∈ spec.set, b.toNat < 0x80) (c : Int) :
    ScansetText p spec.setNegated spec.set rest ∧
      (scansetContainsBytes spec c = true ↔ (spec.setNegated = true ↔ ¬Member c spec.set)) ∧
      scansetContainsWide utf8 spec c = some (scansetContainsBytes spec c) := by
  have htext := parseScanset_text hparse
  have hone : OneByte utf8 spec.set := by
    obtain ⟨first, text, hset, hall, hne, -⟩ := htext.head
    intro hu b hb
    refine ⟨?_, hascii hu b hb⟩
    rw [hset] at hb
    rcases List.mem_cons.1 hb with rfl | hb
    · exact hne
    · exact (hall b hb).1
  have hnegate : ∀ found : Bool, (found = true ↔ Member c spec.set) →
      ((if spec.setNegated then !found else found) = true ↔ (spec.setNegated = true ↔ ¬Member c spec.set)) := by
    intro found hfound
    rw [← hfound]
    cases spec.setNegated <;> cases found <;> simp
  have hbytes : scansetContainsBytes spec c = true ↔ (spec.setNegated = true ↔ ¬Member c spec.set) := by
    unfold scansetContainsBytes
    split
    · rename_i hout
      have hno : ¬Member c spec.set := by
        intro hm
        have := hm.byte
        omega
      simp [hno]
    · rename_i hin
      have hc : ((UInt8.ofNat c.toNat).toNat : Int) = c := by
        rw [UInt8.toNat_ofNat']
        omega
      apply hnegate
      rw [matchBytes_iff, hc]
  refine ⟨htext, hbytes, ?_⟩
  obtain ⟨found, hfound, hiff⟩ := matchWide_iff c hone false
  have hwide := hnegate found (hiff.trans (by simp))
  unfold scansetContainsWide
  rw [hfound]
  show some _ = some _
  congr 1
  rw [Bool.eq_iff_iff, hwide, hbytes]

/-- `%[^]z-a0-9-]`: a closing bracket, a descending triple, a range and a hyphen. -/
theorem scanset_exact_mixed :
    let spec : ScanSpec := { setNegated := true, set := [93, 122, 45, 97, 48, 45, 57, 45] }
    scansetContainsBytes spec 109 = true ∧ scansetContainsWide true spec 109 = some true ∧
      scansetContainsBytes spec 53 = false ∧ scansetContainsWide true spec 53 = some false := by
  intro spec
  have hparse : parseScanset [94, 93, 122, 45, 97, 48, 45, 57, 45, 93, 100] = some (spec.setNegated, spec.set, [100]) := by
    decide
  have hascii : true = true → ∀ b ∈ spec.set, b.toNat < 0x80 := fun _ => by simp [spec]
  have hm : scansetContainsBytes spec 109 = true := by decide
  have h5 : scansetContainsBytes spec 53 = false := by decide
  refine ⟨hm, ?_, h5, ?_⟩
  · rw [(scanset_exact hparse hascii _).2.2, hm]
  · rw [(scanset_exact hparse hascii _).2.2, h5]

end MiniLibc.Stdio
