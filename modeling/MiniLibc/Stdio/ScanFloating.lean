import MiniLibc.Internal.FloatPolicy
import MiniLibc.Stdio.ScanInteger
/-!
# Scanning a floating number

The parser over a string, within a width that does not cut it, reads what the parser
of lists reads under the policy of the scanner. So a scan of a string and `strtod`
of it differ only where the policies do.
-/
open MiniLibc.FloatParse MiniLibc.LongestMatch

namespace MiniLibc.Stdio

theorem code_nat (c : Nat) : code (c : Int) = c := Int.toNat_natCast c

/-! ## The loops -/

section Walk

variable {β : Type}

/-- A loop over the characters of a list. -/
def walk (step : β → Int → Option β) (acc : β) : List Nat → β × List Nat
  | [] => (acc, [])
  | c :: rest =>
    match step acc c with
    | none => (acc, c :: rest)
    | some acc => walk step acc rest

theorem exponentLoop_walk (e : Exponent) (digits : Nat) (input : List Nat) :
    walk exponentStep (e, digits) input =
      (((exponentLoop e digits input).1, (exponentLoop e digits input).2.1), (exponentLoop e digits input).2.2) := by
  induction input generalizing e digits with
  | nil => rfl
  | cons c rest ih =>
    unfold walk exponentLoop exponentStep
    rw [code_nat]
    cases asciiDigit c with
    | none => rfl
    | some digit => exact ih _ _

theorem digitLoop_walk (radix : Radix) (a : Digits) (digits : Nat) (afterPoint : Bool) (input : List Nat) :
    ∃ point, walk radix.step ⟨a, digits, afterPoint⟩ input =
      (⟨(digitLoop radix.digitOf radix.digitLimit radix.base a digits afterPoint input).1,
        (digitLoop radix.digitOf radix.digitLimit radix.base a digits afterPoint input).2.1, point⟩,
        (digitLoop radix.digitOf radix.digitLimit radix.base a digits afterPoint input).2.2) := by
  induction input generalizing a digits afterPoint with
  | nil => exact ⟨afterPoint, rfl⟩
  | cons c rest ih =>
    unfold walk digitLoop Radix.step
    rw [code_nat]
    cases radix.digitOf c with
    | some digit => exact ih _ _ _
    | none =>
      dsimp only
      by_cases hpoint : c = '.'.toNat ∧ (!afterPoint) = true
      · rw [if_pos hpoint, if_pos hpoint]
        exact ih _ _ _
      · rw [if_neg hpoint, if_neg hpoint]
        exact ⟨afterPoint, rfl⟩

theorem dropWhile_walk (input : List Nat) : walk payloadStep () input = ((), input.dropWhile nanPayloadChar) := by
  induction input with
  | nil => rfl
  | cons c rest ih =>
    unfold walk payloadStep
    rw [code_nat]
    by_cases hc : nanPayloadChar c = true
    · rw [if_pos hc, List.dropWhile_cons_of_pos hc]
      exact ih
    · rw [if_neg hc, List.dropWhile_cons_of_neg hc]

end Walk

/-! ## The reader of a list -/

section Reader

variable {utf8 : Bool} {β : Type}

/-- A reader whose width does not cut the list. -/
def Ample (r : Reader (List Nat)) : Prop := r.input.length ≤ r.remaining

theorem get_nil {n : Nat} : Reader.get (listSource utf8).toFloatSource ⟨[], n⟩ = (none, ⟨[], n⟩) := by
  unfold Reader.get
  split <;> rfl

theorem get_cons {c : Nat} {rest : List Nat} {n : Nat} (h : Ample ⟨c :: rest, n⟩) :
    Reader.get (listSource utf8).toFloatSource ⟨c :: rest, n⟩ = (some (c : Int), ⟨rest, n - 1⟩) ∧ Ample ⟨rest, n - 1⟩ := by
  unfold Ample at h ⊢
  dsimp only [List.length_cons] at h ⊢
  refine ⟨?_, by omega⟩
  unfold Reader.get
  dsimp only
  rw [if_neg (by omega)]
  rfl

/-- The character behind a part is given back. -/
theorem leave_list (status : Status) (c : Option Nat) {r : Reader (List Nat)} (h : Ample r) :
    ∃ r', r.leave (listSource utf8).toFloatSource status (c.map Nat.cast) = (status, r') ∧
      r'.input = c.toList ++ r.input ∧ Ample r' := by
  cases c with
  | none => exact ⟨r, rfl, rfl, h⟩
  | some c => exact ⟨⟨c :: r.input, r.remaining + 1⟩, rfl, rfl, Nat.succ_le_succ h⟩

/-- A loop of the parser over a list. The character it stopped at is still to be given back. -/
theorem readWhile_list (step : β → Int → Option β) (acc : β) (c : Option Nat) {l : List Nat} {n : Nat}
    (hn : l.length ≤ n) (hc : c = none → l = []) :
    ∃ c' r, readWhile (listSource utf8).toFloatSource step acc (c.map Nat.cast) l n =
        ((walk step acc (c.toList ++ l)).1, c'.map Nat.cast, r) ∧
      (walk step acc (c.toList ++ l)).2 = c'.toList ++ r.input ∧ Ample r ∧ (c' = none → r.input = []) := by
  induction l generalizing acc c n with
  | nil =>
    cases c with
    | none => exact ⟨none, ⟨[], n⟩, by unfold readWhile; rfl, rfl, hn, fun _ => rfl⟩
    | some c =>
      unfold readWhile walk
      dsimp only [Option.map_some, Option.bind_some, Option.toList_some, List.singleton_append]
      cases step acc c with
      | none => exact ⟨some c, ⟨[], n⟩, rfl, rfl, hn, by rintro ⟨⟩⟩
      | some acc =>
        refine ⟨none, ⟨[], n⟩, ?_, rfl, hn, fun _ => rfl⟩
        cases n <;> rfl
  | cons d l ih =>
    cases c with
    | none => exact absurd (hc rfl) (List.cons_ne_nil _ _)
    | some c =>
      unfold readWhile
      rw [Option.toList_some, List.singleton_append, walk]
      dsimp only [Option.map_some, Option.bind_some]
      cases step acc c with
      | none => exact ⟨some c, ⟨d :: l, n⟩, rfl, rfl, hn, by rintro ⟨⟩⟩
      | some acc =>
        rw [List.length_cons] at hn
        obtain ⟨n, rfl⟩ : ∃ k, n = k + 1 := ⟨n - 1, by omega⟩
        exact ih acc (some d) (by omega) (by rintro ⟨⟩)

/-! ## The parts -/

theorem matchRequired_list (text : List Char) {r : Reader (List Nat)} (h : Ample r) :
    ∃ r', r.matchRequired (listSource utf8).toFloatSource text = ((matchRequired text r.input).1, r') ∧
      r'.input = (matchRequired text r.input).2 ∧ Ample r' := by
  induction text generalizing r with
  | nil =>
    refine ⟨r, ?_, ?_, h⟩
    · unfold Reader.matchRequired matchRequired
      rfl
    · unfold matchRequired
      rfl
  | cons t text ih =>
    obtain ⟨input, n⟩ := r
    unfold Reader.matchRequired
    cases input with
    | nil =>
      rw [get_nil]
      exact ⟨⟨[], n⟩, rfl, rfl, h⟩
    | cons c rest =>
      obtain ⟨hget, hample⟩ := @get_cons utf8 c rest n h
      rw [hget]
      simp only [code_nat]
      unfold matchRequired
      by_cases hc : asciiEqualCi c t = true
      · rw [if_pos hc, if_pos hc]
        exact ih hample
      · rw [if_neg hc, if_neg hc]
        exact leave_list .matchFail (some c) hample

theorem parseExponent_list (m : Nat) {r : Reader (List Nat)} (h : Ample r) :
    ∃ r', r.parseExponent (listSource utf8).toFloatSource =
        ((parseExponent .scan m r.input).1, (parseExponent .scan m r.input).2.1, r') ∧
      r'.input = (parseExponent .scan m r.input).2.2 ∧ Ample r' := by
  obtain ⟨input, n⟩ := r
  unfold Reader.parseExponent parseExponent
  cases input with
  | nil =>
    rw [get_nil]
    exact ⟨⟨[], n⟩, rfl, rfl, h⟩
  | cons c rest =>
    obtain ⟨hget, hample⟩ := @get_cons utf8 c rest n h
    rw [hget]
    simp only [code_nat]
    -- What is read behind the sign.
    obtain ⟨c', r', hsecond, hbehind, hample', hnone⟩ : ∃ (c' : Option Nat) (r' : Reader (List Nat)),
        (if isSign c = true then Reader.get (listSource utf8).toFloatSource ⟨rest, n - 1⟩ else (some (c : Int), ⟨rest, n - 1⟩)) =
          (c'.map Nat.cast, r') ∧ (if isSign c = true then rest else c :: rest) = c'.toList ++ r'.input ∧ Ample r' ∧
        (c' = none → r'.input = []) := by
      by_cases hc : isSign c = true
      · rw [if_pos hc, if_pos hc]
        cases rest with
        | nil => exact ⟨none, ⟨[], n - 1⟩, get_nil, rfl, hample, fun _ => rfl⟩
        | cons d rest =>
          obtain ⟨hget', hample'⟩ := @get_cons utf8 d rest (n - 1) hample
          exact ⟨some d, ⟨rest, n - 1 - 1⟩, hget', rfl, hample', nofun⟩
      · rw [if_neg hc, if_neg hc]
        exact ⟨some c, ⟨rest, n - 1⟩, rfl, rfl, hample, nofun⟩
    rw [hsecond, hbehind]
    generalize hnegative : ({ negative := c = '-'.toNat } : Exponent) = e
    cases c' with
    | none =>
      rw [hnone rfl]
      exact ⟨r', rfl, hnone rfl, hample'⟩
    | some d =>
      obtain ⟨c'', r'', hloop, hrest, hample'', -⟩ :=
        @readWhile_list utf8 _ exponentStep (e, 0) (some d) r'.input r'.remaining hample' nofun
      unfold Reader.loop
      obtain ⟨e', digits, rest', hresult⟩ : ∃ e' digits rest',
          exponentLoop e 0 ((some d).toList ++ r'.input) = (e', digits, rest') := ⟨_, _, _, rfl⟩
      rw [exponentLoop_walk, hresult] at hloop hrest
      dsimp only [Option.map_some] at hloop ⊢
      simp only [hloop, hresult]
      dsimp only at hrest
      obtain ⟨r3, hleave, hinput, hample3⟩ :=
        @leave_list utf8 (if digits = 0 then .matchFail else .success) c'' r'' hample''
      rw [hleave]
      by_cases h0 : digits = 0
      · rw [if_pos h0, if_pos h0]
        exact ⟨r3, rfl, hinput.trans hrest.symm, hample3⟩
      · rw [if_neg h0, if_neg h0]
        exact ⟨r3, rfl, hinput.trans hrest.symm, hample3⟩

/-- A parse over a list and the parse of the list have the same result and leave the same. -/
structure ReadsLike (p : Read (List Nat)) (parsed : Parsed) : Prop where
  status : p.status = parsed.status
  result : p.result = parsed.result
  rest : p.reader.input = parsed.rest

theorem radix_list (radix : Radix) (negative convert : Bool) (c : Option Nat) {r : Reader (List Nat)} (h : Ample r)
    (hc : c = none → r.input = []) :
    ReadsLike (radix.read (listSource utf8).toFloatSource negative convert (c.map Nat.cast) r)
      (radix.parse .scan negative convert (c.toList ++ r.input)) := by
  obtain ⟨c', r', hloop, hrest, hample, hnone⟩ :=
    @readWhile_list utf8 _ radix.step {} c r.input r.remaining h hc
  obtain ⟨a, digits, rest, hresult⟩ : ∃ a digits rest,
      digitLoop radix.digitOf radix.digitLimit radix.base {} 0 false (c.toList ++ r.input) = (a, digits, rest) := ⟨_, _, _, rfl⟩
  obtain ⟨point, hwalk⟩ := digitLoop_walk radix {} 0 false (c.toList ++ r.input)
  rw [hresult] at hwalk
  rw [hwalk] at hloop hrest
  dsimp only at hloop hrest
  unfold Radix.read Radix.parse Reader.loop
  simp only [hloop, hresult]
  by_cases h0 : digits = 0
  · rw [if_pos h0, if_pos h0]
    obtain ⟨r'', hleave, hinput, -⟩ := @leave_list utf8 .matchFail c' r' hample
    rw [hleave]
    exact ⟨rfl, rfl, hinput.trans hrest.symm⟩
  rw [if_neg h0, if_neg h0]
  have hfinish : ∀ (e : Exponent) {r'' : Reader (List Nat)} {left : List Nat}, r''.input = left → ReadsLike
      (if Status.success ≠ .success then ⟨.success, none, r''⟩
        else if convert then ⟨(radix.convert negative a e).status, some (radix.convert negative a e).value, r''⟩
        else ⟨.success, none, r''⟩)
      (if convert then ⟨(radix.convert negative a e).status, some (radix.convert negative a e).value, left⟩
        else ⟨.success, none, left⟩) := by
    intro e r'' left hleft
    rw [if_neg (not_not.2 rfl)]
    cases convert
    · exact ⟨rfl, rfl, hleft⟩
    · exact ⟨rfl, rfl, hleft⟩
  cases c' with
  | none =>
    rw [hrest, hnone rfl]
    exact hfinish {} (hnone rfl)
  | some d =>
    rw [hrest]
    simp only [Option.map_some, Option.any_some, code_nat, Option.toList_some, List.singleton_append]
    by_cases hd : asciiEqualCi d radix.marker = true
    · rw [if_pos hd, if_pos hd]
      obtain ⟨r'', hexponent, hinput, -⟩ := @parseExponent_list utf8 d r' hample
      rw [hexponent]
      dsimp only
      by_cases hs : (parseExponent .scan d r'.input).1 = .success
      · rw [if_pos hs, hs]
        exact hfinish _ hinput
      · rw [if_neg hs, if_pos hs]
        exact ⟨rfl, rfl, hinput⟩
    · rw [if_neg hd, if_neg hd]
      obtain ⟨r'', hleave, hinput, -⟩ := @leave_list utf8 .success (some d) r' hample
      rw [Option.map_some] at hleave
      rw [hleave]
      exact hfinish {} hinput

theorem special_list (convert : Bool) (value : Binary64) {r : Reader (List Nat)} {left : List Nat} (h : r.input = left) :
    ReadsLike (specialRead convert value (.success, r)) (special convert value left) := by
  refine ⟨rfl, ?_, h⟩
  cases convert <;> rfl

theorem failed_list (convert : Bool) (value : Binary64) {status : Status} (hs : status ≠ .success) {r : Reader (List Nat)}
    {left : List Nat} (h : r.input = left) : ReadsLike (specialRead convert value (status, r)) ⟨status, none, left⟩ :=
  ⟨rfl, if_neg fun hno => hs hno.2, h⟩

/-- A required word was read, or the match failed. -/
theorem matchRequired_status (text : List Char) (input : List Nat) :
    (matchRequired text input).1 = .success ∨ (matchRequired text input).1 = .matchFail := by
  rcases matchRequired_cases text input with ⟨_, rest, -, -, hr⟩ | ⟨⟨rest, hr⟩, -⟩
  · exact .inl (congrArg Prod.fst hr)
  · exact .inr (congrArg Prod.fst hr)

theorem parseInfinity_list (negative convert : Bool) {r : Reader (List Nat)} (h : Ample r) :
    ReadsLike (r.parseInfinity (listSource utf8).toFloatSource negative convert)
      (parseInfinity .scan negative convert r.input) := by
  obtain ⟨⟨input, n⟩, hread, hinput, hample⟩ := @matchRequired_list utf8 ['n', 'f'] r h
  have hstatus := matchRequired_status ['n', 'f'] r.input
  unfold Reader.parseInfinity parseInfinity
  rw [hread]
  generalize matchRequired ['n', 'f'] r.input = result at hinput hstatus ⊢
  obtain ⟨status, rest⟩ := result
  dsimp only at hinput hstatus
  subst hinput
  rcases hstatus with rfl | rfl
  · cases input with
    | nil =>
      dsimp only
      rw [get_nil]
      exact special_list convert _ rfl
    | cons c rest =>
      obtain ⟨hget, hample'⟩ := @get_cons utf8 c rest n hample
      dsimp only
      rw [hget]
      simp only [code_nat]
      by_cases hi : asciiEqualCi c 'i' = true
      · rw [if_pos hi, if_pos hi]
        obtain ⟨r', hread', hinput', -⟩ := @matchRequired_list utf8 ['n', 'i', 't', 'y'] ⟨rest, n - 1⟩ hample'
        have hstatus' := matchRequired_status ['n', 'i', 't', 'y'] rest
        rw [hread']
        dsimp only at hinput' ⊢
        generalize matchRequired ['n', 'i', 't', 'y'] rest = result at hinput' hstatus' ⊢
        obtain ⟨status, rest'⟩ := result
        dsimp only at hinput' hstatus'
        rcases hstatus' with rfl | rfl
        · exact special_list convert _ hinput'
        · exact @failed_list convert _ .matchFail nofun _ _ hinput'
      · rw [if_neg hi, if_neg hi]
        obtain ⟨r', hleave, hinput', -⟩ := @leave_list utf8 .success (some c) ⟨rest, n - 1⟩ hample'
        rw [Option.map_some] at hleave
        rw [hleave]
        exact special_list convert _ hinput'
  · exact ⟨rfl, rfl, rfl⟩

theorem parseNan_list (negative convert : Bool) {r : Reader (List Nat)} (h : Ample r) :
    ReadsLike (r.parseNan (listSource utf8).toFloatSource negative convert) (parseNan .scan negative convert r.input) := by
  obtain ⟨⟨input, n⟩, hread, hinput, hample⟩ := @matchRequired_list utf8 ['a', 'n'] r h
  have hstatus := matchRequired_status ['a', 'n'] r.input
  unfold Reader.parseNan parseNan
  rw [hread]
  generalize matchRequired ['a', 'n'] r.input = result at hinput hstatus ⊢
  obtain ⟨status, rest⟩ := result
  dsimp only at hinput hstatus
  subst hinput
  rcases hstatus with rfl | rfl
  · cases input with
    | nil =>
      dsimp only
      rw [get_nil]
      exact special_list convert _ rfl
    | cons c rest =>
      obtain ⟨hget, hample'⟩ := @get_cons utf8 c rest n hample
      dsimp only
      rw [hget]
      simp only [code_nat]
      by_cases hp : c = '('.toNat
      · rw [if_pos hp, if_pos hp]
        -- The first character in the parentheses.
        obtain ⟨d, r', hfirst, hrest, hample'', hnone⟩ : ∃ (d : Option Nat) (r' : Reader (List Nat)),
            Reader.get (listSource utf8).toFloatSource ⟨rest, n - 1⟩ = (d.map Nat.cast, r') ∧
              rest = d.toList ++ r'.input ∧ Ample r' ∧ (d = none → r'.input = []) := by
          cases rest with
          | nil => exact ⟨none, _, get_nil, rfl, hample', fun _ => rfl⟩
          | cons d rest =>
            obtain ⟨hget', hample''⟩ := @get_cons utf8 d rest (n - 1) hample'
            exact ⟨some d, _, hget', rfl, hample'', nofun⟩
        obtain ⟨c', r'', hloop, hleft, hample3, hnone'⟩ :=
          @readWhile_list utf8 _ payloadStep () d r'.input r'.remaining hample'' hnone
        rw [← hrest, dropWhile_walk] at hloop hleft
        dsimp only at hleft
        unfold Reader.loop
        rw [hfirst]
        simp only [hloop, hleft]
        cases c' with
        | none =>
          rw [hnone' rfl]
          exact @failed_list convert _ .matchFail nofun _ _ (hnone' rfl)
        | some d' =>
          simp only [Option.map_some, Option.any_some, code_nat, Option.toList_some, List.singleton_append,
            decide_eq_true_eq]
          by_cases hd : d' = ')'.toNat
          · rw [if_pos hd, if_pos hd]
            exact special_list convert _ rfl
          · rw [if_neg hd, if_neg hd]
            obtain ⟨r3, hleave, hinput, -⟩ := @leave_list utf8 .matchFail (some d') r'' hample3
            rw [Option.map_some] at hleave
            rw [hleave]
            exact @failed_list convert _ .matchFail nofun _ _ hinput
      · rw [if_neg hp, if_neg hp]
        obtain ⟨r', hleave, hinput', -⟩ := @leave_list utf8 .success (some c) ⟨rest, n - 1⟩ hample'
        rw [Option.map_some] at hleave
        rw [hleave]
        exact special_list convert _ hinput'
  · exact ⟨rfl, rfl, rfl⟩

/-! ## The entry point -/

theorem parseUnsigned_list (negative convert : Bool) (c : Nat) {r : Reader (List Nat)} (h : Ample r) :
    ReadsLike (r.parseUnsigned (listSource utf8).toFloatSource negative convert c)
      (parseUnsigned .scan negative convert (c :: r.input)) := by
  have hdecimal : ∀ {r : Reader (List Nat)}, Ample r → ReadsLike
      (decimal.read (listSource utf8).toFloatSource negative convert (some (c : Int)) r)
      (parseDecimal .scan negative convert (c :: r.input)) :=
    fun h => radix_list decimal negative convert (some c) h nofun
  unfold Reader.parseUnsigned parseUnsigned
  simp only [code_nat]
  by_cases hi : asciiEqualCi c 'i' = true
  · rw [if_pos hi, if_pos hi]
    exact parseInfinity_list negative convert h
  rw [if_neg hi, if_neg hi]
  by_cases hn : asciiEqualCi c 'n' = true
  · rw [if_pos hn, if_pos hn]
    exact parseNan_list negative convert h
  rw [if_neg hn, if_neg hn]
  by_cases h0 : c = '0'.toNat
  · rw [if_pos h0, if_pos h0]
    obtain ⟨input, n⟩ := r
    cases input with
    | nil =>
      rw [get_nil]
      exact hdecimal h
    | cons next rest =>
      obtain ⟨hget, hample⟩ := @get_cons utf8 next rest n h
      rw [hget]
      simp only [Option.any_some, code_nat]
      by_cases hx : asciiEqualCi next 'x' = true
      · rw [if_pos hx, if_pos hx, if_neg (fun hno => nomatch hno.2)]
        cases rest with
        | nil =>
          rw [get_nil]
          exact radix_list hex negative convert none hample fun _ => rfl
        | cons d rest =>
          obtain ⟨hget', hample'⟩ := @get_cons utf8 d rest (n - 1) hample
          rw [hget']
          exact radix_list hex negative convert (some d) hample' nofun
      · rw [if_neg hx, if_neg hx]
        obtain ⟨r', hleave, hinput, hample'⟩ := @leave_list utf8 .success (some next) ⟨rest, n - 1⟩ hample
        rw [Option.map_some] at hleave
        rw [hleave]
        have hread := hdecimal hample'
        rw [hinput] at hread
        exact hread
  · rw [if_neg h0, if_neg h0]
    exact hdecimal h

theorem parseSigned_list (convert : Bool) {r : Reader (List Nat)} (h : Ample r) :
    ReadsLike (r.parseSigned (listSource utf8).toFloatSource convert) (parseSigned .scan convert r.input) := by
  obtain ⟨input, n⟩ := r
  unfold Reader.parseSigned parseSigned
  cases input with
  | nil =>
    rw [get_nil]
    exact ⟨rfl, rfl, rfl⟩
  | cons c rest =>
    obtain ⟨hget, hample⟩ := @get_cons utf8 c rest n h
    rw [hget]
    simp only [code_nat]
    by_cases hc : isSign c = true
    · rw [if_pos hc, if_pos hc]
      cases rest with
      | nil =>
        rw [get_nil]
        exact ⟨rfl, rfl, rfl⟩
      | cons d rest =>
        obtain ⟨hget', hample'⟩ := @get_cons utf8 d rest (n - 1) hample
        rw [hget']
        exact parseUnsigned_list _ convert d hample'
    · rw [if_neg hc, if_neg hc]
      exact parseUnsigned_list false convert c hample

/-- The parser over a list reads what the list parser reads. -/
theorem parse_list (convert : Bool) {input : List Nat} {fuel width : Nat} (hf : input.length < fuel)
    (hwidth : input.length ≤ width) :
    ∃ p, (listSource utf8).parse fuel width convert input = some p ∧
      ReadsLike p (floatParse width true .scan convert input) := by
  have hspace : ∀ c : Nat, asciiSpace (code c) = asciiSpace c := fun c => congrArg asciiSpace (code_nat c)
  have hample : Ample ⟨input.dropWhile asciiSpace, width⟩ := (List.dropWhile_sublist _).length_le.trans hwidth
  rw [floatParse_wide hwidth]
  refine ⟨_, ?_, @parseSigned_list utf8 convert _ hample⟩
  unfold FloatSource.parse
  rw [@skipSpace_list utf8 (fun c => asciiSpace (code c)) asciiSpace hspace fuel input hf]
  rfl

end Reader

/-! ## A string -/

/-- A scan of a string without a width, and `strtod` of it: what the scan converts,
`strtod` converts, to the same value and with the same rest; and where the scan fails
on what `strtod` converts, the text stops inside a part that may follow the number. -/
theorem scan_strtod (utf8 convert : Bool) {input : List UInt8} (h : input.length < 2 ^ 32 - 1) {strto : Parsed}
    (hstrto : floatParse widthMax true .strto convert (input.map UInt8.toNat) = strto) :
    ∃ scan, (stringSource utf8).parse (input.length + 1) scanWidthMax convert { ahead := input } = some scan ∧
      (scan.status = .success ∨ scan.status = .rangeFail → strto.status = scan.status ∧ strto.result = scan.result ∧
        Leaves scan.reader.input strto.rest) ∧
      (scan.status ≠ .success → scan.status ≠ .rangeFail → strto.Converted → ∃ spaces sign number,
        input.map UInt8.toNat = spaces ++ (sign ++ (number ++ strto.rest)) ∧
        (∀ c ∈ spaces, asciiSpace c = true) ∧ OptionalSign sign ∧ StopsInside number strto.rest) := by
  have hlength : (input.map UInt8.toNat).length = input.length := List.length_map _
  have hmax : scanWidthMax = 2 ^ 32 - 1 := rfl
  obtain ⟨p, hp, hlike⟩ := @parse_list utf8 convert (input.map UInt8.toNat) (input.length + 1) scanWidthMax
    (by omega) (by omega)
  obtain ⟨hagree, hstop⟩ := @policies_agree scanWidthMax convert _ (by omega) (by omega) _ strto rfl hstrto
  have hsame := (string_list utf8).parse (input.length + 1) scanWidthMax convert (show Leaves { ahead := input } _ from rfl)
  rw [hp] at hsame
  generalize (stringSource utf8).parse (input.length + 1) scanWidthMax convert { ahead := input } = result at hsame
  cases hsame with
  | @some scan _ hmatch =>
    have hstatus := hmatch.status.trans hlike.status
    refine ⟨scan, rfl, fun hyes => ?_, fun hno hno' hconverted => ?_⟩
    · have heq := hagree (by unfold Parsed.Converted; rwa [← hstatus])
      rw [heq, ← hlike.rest]
      exact ⟨hstatus.symm, (hmatch.result.trans hlike.result).symm, hmatch.reader.input⟩
    · apply hstop _ hconverted
      rintro (hyes | hyes)
      · exact hno (hstatus.trans hyes)
      · exact hno' (hstatus.trans hyes)

/-- Behind the exponent of a number there is no digit: the scan fails, and `strtod`
stops inside what the scan has read. -/
theorem scan_strtod_exponent :
    let input := "1e+X".toList.map fun c => c.toNat.toUInt8
    let strto := floatParse widthMax true .strto true (input.map UInt8.toNat)
    ∃ scan, (stringSource false).parse 5 scanWidthMax true { ahead := input } = some scan ∧
      scan.status = .matchFail ∧ strto.status = .success ∧ ∃ spaces sign number,
        input.map UInt8.toNat = spaces ++ (sign ++ (number ++ strto.rest)) ∧ StopsInside number strto.rest := by
  intro input strto
  obtain ⟨scan, hscan, -, hstops⟩ := @scan_strtod false true input (by decide) strto rfl
  have hscanned : ((stringSource false).parse 5 scanWidthMax true { ahead := input }).map (·.status) = some .matchFail := by
    decide
  have hparsed : strto.status = .success := by
    decide +kernel
  rw [show (stringSource false).parse 5 scanWidthMax true { ahead := input } = some scan from hscan] at hscanned
  have hstatus : scan.status = .matchFail := Option.some.inj hscanned
  have hno : ∀ status, Status.matchFail ≠ status → scan.status ≠ status := fun status hne => hstatus.symm ▸ hne
  obtain ⟨spaces, sign, number, hinput, -, -, hstop⟩ := hstops (hno _ (by decide)) (hno _ (by decide)) (.inl hparsed)
  exact ⟨scan, hscan, hstatus, hparsed, spaces, sign, number, hinput, hstop⟩

end MiniLibc.Stdio
