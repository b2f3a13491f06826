import MiniLibc.Lib.Utf8
import MiniLibc.Wchar.Convert
/-!
# The decoder accepts exactly the encoder's image

The encoder writes `Utf8.encode`. The decoder, once it has read a lead byte,
reads tails into `Utf8.accumulate`; it either reports the value all tails spell,
stops at a byte that is no tail, or runs out of bytes.
-/
open MiniLibc.Utf8

namespace MiniLibc.Wchar

/-! ## Words and bytes -/

theorem startState_eq {total remaining : Nat} (h : remaining < 256) (value : Nat) :
    startState total remaining value = ⟨total * 256 + remaining, value⟩ := by
  rw [startState, ← Nat.shiftLeft_add_eq_or_of_lt (i := 8) h, Nat.shiftLeft_eq]

theorem stateRemaining_start {remaining : Nat} (h : remaining < 256) (total value : Nat) :
    stateRemaining (startState total remaining value) = remaining := by
  rw [startState_eq h, stateRemaining, show 0xff = 2 ^ 8 - 1 from rfl, Nat.and_two_pow_sub_one_eq_mod]
  show (total * 256 + remaining) % 2 ^ 8 = remaining
  omega

theorem stateTotal_start {remaining : Nat} (h : remaining < 256) (total value : Nat) :
    stateTotal (startState total remaining value) = total := by
  rw [startState_eq h, stateTotal, Nat.shiftRight_eq_div_pow]
  show (total * 256 + remaining) / 2 ^ 8 = total
  omega

/-- A marker above the six payload bits. -/
theorem or_payload (m : Nat) {d : Nat} (h : d < 64) : m * 64 ||| d = m * 64 + d := by
  have := Nat.shiftLeft_add_eq_or_of_lt (i := 6) h m
  rw [Nat.shiftLeft_eq] at this
  exact this.symm

theorem and_3f (x : Nat) : x &&& 0x3f = x % 64 := Nat.and_two_pow_sub_one_eq_mod x 6

theorem shift_or {value : Nat} {b : UInt8} (hv : value * 64 < 2 ^ 32) (hb : IsTail b) :
    ((value <<< 6) % 2 ^ 32) ||| (b.toNat &&& 0x3f) = value * 64 + (b.toNat - 0x80) := by
  obtain ⟨h1, h2⟩ := hb
  rw [and_3f, Nat.shiftLeft_eq, Nat.mod_eq_of_lt hv, or_payload _ (by omega)]
  omega

/-! ## The encoder -/

theorem or_tail (x : Nat) : 0x80 ||| (x &&& 0x3f) = 0x80 + x % 64 := by
  rw [and_3f]; exact or_payload 2 (by omega)

theorem encodeValue_eq {v : Nat} (h : validScalar v) : encodeValue v true = some (Utf8.encode v) := by
  have hmax : v ≤ 0x10ffff := by simp [validScalar] at h; omega
  have h1 : v ≤ 0x7ff → 0xc0 ||| (v >>> 6) = 0xc0 + v / 64 := fun hv => by
    rw [Nat.shiftRight_eq_div_pow]; exact or_payload 3 (by omega)
  have h2 : v ≤ 0xffff → 0xe0 ||| (v >>> 12) = 0xe0 + v / 4096 := fun hv => by
    rw [Nat.shiftRight_eq_div_pow]
    exact (Nat.shiftLeft_add_eq_or_of_lt (i := 4) (b := v / 4096) (by omega) 14).symm
  have h3 : 0xf0 ||| (v >>> 18) = 0xf0 + v / 262144 := by
    rw [Nat.shiftRight_eq_div_pow]
    exact (Nat.shiftLeft_add_eq_or_of_lt (i := 3) (b := v / 262144) (by omega) 30).symm
  have e6 : v >>> 6 = v / 64 := Nat.shiftRight_eq_div_pow v 6
  have e12 : v >>> 12 = v / 4096 := Nat.shiftRight_eq_div_pow v 12
  simp only [encodeValue, Int.toNat_natCast, h, Bool.not_true, Bool.false_eq_true, if_false,
    if_neg (show ¬ (v : Int) < 0 by omega), Utf8.encode]
  split
  · rfl
  · rcases tailCount_cases v with ⟨hc, hv⟩ | ⟨hc, hv, hv'⟩ | ⟨hc, hv⟩
    · rw [if_pos hv, h1 hv, hc, or_tail]
      simp [leadBits, tails]
    · rw [if_neg (by omega), if_pos hv', h2 hv', hc, e6, or_tail, or_tail]
      simp [leadBits, tails]
    · rw [if_neg (by omega), if_neg (by omega), h3, hc, e6, e12, or_tail, or_tail, or_tail]
      simp [leadBits, tails]

/-- The encoder refuses everything but scalar values. -/
theorem encodeValue_isSome (wc : Int) : (encodeValue wc true).isSome ↔ 0 ≤ wc ∧ validScalar wc.toNat := by
  by_cases hneg : wc < 0
  · simp [encodeValue, hneg]
  · obtain ⟨v, rfl⟩ := Int.eq_ofNat_of_zero_le (not_lt.1 hneg)
    by_cases hv : validScalar v
    · simp [encodeValue_eq hv, hv]
    · simp [encodeValue, hv]

/-! ## The decoder -/

/-- What the decoder reports once `value` is complete. -/
def finish (used total value : Nat) : Decoded :=
  if value < minimumScalar total ∨ !validScalar value then ⟨.eilseq, none, {}⟩
  else ⟨.length used, some value, {}⟩

theorem loop_tail {used total r value : Nat} {b : UInt8} (hb : IsTail b) (rest : List UInt8) (hr : r + 1 < 256)
    (hv : value * 64 < 2 ^ 32) :
    mbrtowcLoop used (b :: rest) (startState total (r + 1) value) =
      if r ≠ 0 then mbrtowcLoop (used + 1) rest (startState total r (value * 64 + (b.toNat - 0x80)))
      else finish (used + 1) total (value * 64 + (b.toNat - 0x80)) := by
  have hs : (startState total (r + 1) value).value = value := rfl
  rw [mbrtowcLoop, stateRemaining_start hr, stateTotal_start hr, if_neg (by omega),
    if_neg (by obtain ⟨h1, h2⟩ := hb; omega), hs]
  simp only [Nat.add_sub_cancel, shift_or hv hb, finish]

/-- A byte that is no tail ends a pending character. -/
theorem loop_stop {used total r value : Nat} {b : UInt8} (hb : ¬ IsTail b) (rest : List UInt8) (hr : r + 1 < 256) :
    mbrtowcLoop used (b :: rest) (startState total (r + 1) value) = ⟨.eilseq, none, {}⟩ := by
  rw [mbrtowcLoop, stateRemaining_start hr, if_neg (by omega), if_pos (by unfold IsTail at hb; omega)]

/-- Fewer tails than are owed: the loop goes on with the bits they carry. -/
theorem loop_tails {t : List UInt8} (ht : ∀ b ∈ t, IsTail b) {total : Nat} :
    ∀ {used r value : Nat} (rest : List UInt8), t.length < r → r < 256 → (value + 1) * 64 ^ r ≤ 2 ^ 32 →
      mbrtowcLoop used (t ++ rest) (startState total r value) =
        mbrtowcLoop (used + t.length) rest (startState total (r - t.length) (accumulate value t)) := by
  induction t with
  | nil => intros; simp
  | cons b t ih =>
    intro used r value rest hl hr hv
    obtain ⟨r, rfl⟩ : ∃ r', r = r' + 1 := ⟨r - 1, by simp at hl; omega⟩
    rw [List.length_cons] at hl
    have hb := ht b List.mem_cons_self
    have hpow : 1 ≤ 64 ^ r := Nat.one_le_pow _ _ (by omega)
    have hv1 : value * 64 < 2 ^ 32 := by rw [Nat.pow_succ] at hv; nlinarith
    have hv2 : (value * 64 + (b.toNat - 0x80) + 1) * 64 ^ r ≤ 2 ^ 32 :=
      calc (value * 64 + (b.toNat - 0x80) + 1) * 64 ^ r
          ≤ ((value + 1) * 64) * 64 ^ r := by gcongr; obtain ⟨h1, h2⟩ := hb; omega
        _ = (value + 1) * 64 ^ (r + 1) := by ring
        _ ≤ 2 ^ 32 := hv
    rw [List.cons_append, loop_tail hb _ hr hv1, if_pos (by omega),
      ih (fun c hc => ht c (List.mem_cons_of_mem _ hc)) rest (by omega) (by omega) hv2, accumulate_cons,
      List.length_cons, Nat.add_assoc, Nat.add_comm 1, Nat.add_sub_add_right]

/-- All the tails owed: the character is complete. -/
theorem loop_complete {t : List UInt8} (ht : ∀ b ∈ t, IsTail b) {total used value : Nat} (rest : List UInt8)
    (hr : 0 < t.length) (hr' : t.length < 256) (hv : (value + 1) * 64 ^ t.length ≤ 2 ^ 32) :
    mbrtowcLoop used (t ++ rest) (startState total t.length value) =
      finish (used + t.length) total (accumulate value t) := by
  obtain ⟨t, b, rfl⟩ := List.eq_nil_or_concat t |>.resolve_left (by rintro rfl; simp at hr)
  simp only [List.concat_eq_append, List.length_append, List.length_singleton] at hr' hv ht ⊢
  have ht' : ∀ c ∈ t, IsTail c := fun c hc => ht c (by simp [hc])
  have hacc := accumulate_lt (p := value) ht'
  have hlt : accumulate value t * 64 < 2 ^ 32 := by
    rw [Nat.pow_succ] at hv; nlinarith
  rw [List.append_assoc, List.singleton_append, loop_tails ht' _ (by omega) hr' hv, Nat.add_sub_cancel_left]
  rw [loop_tail (r := 0) (ht b (by simp)) rest (by omega) hlt, if_neg (by omega)]
  simp [accumulate, List.foldl_append, Nat.add_assoc]

/-- A lead byte opens a character with its payload. -/
theorem loop_lead {a : UInt8} {n : Nat} (h : Leads a n) (rest : List UInt8) :
    mbrtowcLoop 0 (a :: rest) {} = mbrtowcLoop 1 rest (startState (n + 1) n (a.toNat - leadBits n)) := by
  have h1f : a.toNat &&& 0x1f = a.toNat % 32 := Nat.and_two_pow_sub_one_eq_mod _ 5
  have h0f : a.toNat &&& 0x0f = a.toNat % 16 := Nat.and_two_pow_sub_one_eq_mod _ 4
  have h07 : a.toNat &&& 0x07 = a.toNat % 8 := Nat.and_two_pow_sub_one_eq_mod _ 3
  rw [mbrtowcLoop, if_pos (by rfl), h1f, h0f, h07]
  rcases h with ⟨rfl, h1, h2⟩ | ⟨rfl, h1, h2⟩ | ⟨rfl, h1, h2⟩
  · have hp : a.toNat % 32 = a.toNat - leadBits 1 := by simp only [leadBits]; norm_num; omega
    rw [if_neg (by omega), if_neg (by omega), if_pos ⟨h1, h2⟩, hp]
  · have hp : a.toNat % 16 = a.toNat - leadBits 2 := by simp only [leadBits]; norm_num; omega
    rw [if_neg (by omega), if_neg (by omega), if_neg (by omega), if_pos ⟨h1, h2⟩, hp]
  · have hp : a.toNat % 8 = a.toNat - leadBits 3 := by simp only [leadBits]; norm_num; omega
    rw [if_neg (by omega), if_neg (by omega), if_neg (by omega), if_neg (by omega), if_pos ⟨h1, h2⟩, hp]

theorem payload_fits {a : UInt8} {n : Nat} (h : Leads a n) : (a.toNat - leadBits n + 1) * 64 ^ n ≤ 2 ^ 32 := by
  rcases h with ⟨rfl, h1, h2⟩ | ⟨rfl, h1, h2⟩ | ⟨rfl, h1, h2⟩ <;> simp only [leadBits] <;> norm_num <;> omega

theorem leads_bounds {a : UInt8} {n : Nat} (h : Leads a n) : 0 < n ∧ n < 4 := by
  rcases h with ⟨rfl, -⟩ | ⟨rfl, -⟩ | ⟨rfl, -⟩ <;> omega

theorem minimumScalar_eq {a : UInt8} {n : Nat} (h : Leads a n) : minimumScalar (n + 1) = minimum n := by
  rcases h with ⟨rfl, -⟩ | ⟨rfl, -⟩ | ⟨rfl, -⟩ <;> rfl

/-- A first byte is NUL, ASCII, a lead byte, or an error. -/
theorem loop_first (a : UInt8) (rest : List UInt8) :
    (a.toNat ≤ 0x7f ∧ mbrtowcLoop 0 (a :: rest) {} = ⟨.length (if a.toNat = 0 then 0 else 1), some a.toNat, {}⟩) ∨
    (∃ n, Leads a n) ∨ mbrtowcLoop 0 (a :: rest) {} = ⟨.eilseq, none, {}⟩ := by
  by_cases h0 : a.toNat = 0
  · refine .inl ⟨by omega, ?_⟩
    rw [mbrtowcLoop, if_pos (by rfl), if_pos h0]; simp [h0]
  by_cases h7 : a.toNat ≤ 0x7f
  · refine .inl ⟨h7, ?_⟩
    rw [mbrtowcLoop, if_pos (by rfl), if_neg h0, if_pos h7]; simp [h0]
  by_cases hl : ∃ n, Leads a n
  · exact .inr (.inl hl)
  · have h1 : ¬ Leads a 1 := fun h => hl ⟨1, h⟩
    have h2 : ¬ Leads a 2 := fun h => hl ⟨2, h⟩
    have h3 : ¬ Leads a 3 := fun h => hl ⟨3, h⟩
    simp [Leads] at h1 h2 h3
    refine .inr (.inr ?_)
    rw [mbrtowcLoop, if_pos (by rfl), if_neg h0, if_neg h7, if_neg (by omega), if_neg (by omega),
      if_neg (by omega)]

/-- What decoding a lead byte and its tails gives. -/
theorem loop_character {a : UInt8} {n : Nat} {t : List UInt8} (h : Leads a n) (ht : ∀ b ∈ t, IsTail b)
    (hn : t.length = n) (rest : List UInt8) :
    mbrtowcLoop 0 (a :: (t ++ rest)) {} = finish (n + 1) (n + 1) (accumulate (a.toNat - leadBits n) t) := by
  have hb := leads_bounds h
  subst hn
  rw [loop_lead h, loop_complete ht rest hb.1 (by omega) (payload_fits h), Nat.add_comm 1]

/-- Too few tails after a lead byte, and nothing else: incomplete. -/
theorem loop_short {a : UInt8} {n : Nat} {t : List UInt8} (h : Leads a n) (ht : ∀ b ∈ t, IsTail b)
    (hn : t.length < n) : (mbrtowcLoop 0 (a :: t) {}).result = .incomplete := by
  have hb := leads_bounds h
  have := @loop_tails t ht (n + 1) 1 n _ [] hn (by omega) (payload_fits h)
  rw [List.append_nil] at this
  rw [loop_lead h, this, mbrtowcLoop]

/-! ## Exactness -/

/-- `mbrtowc`, from the initial state, reports character `v` and has consumed
`k` bytes of `s`. A NUL is reported as length 0. -/
def Reports (s : List UInt8) (v : Int) (k : Nat) : Prop :=
  let d := mbrtowcMode (some s) {} true
  d.pwc = some v ∧ ((v ≠ 0 ∧ d.result = .length k) ∨ (v = 0 ∧ k = 1 ∧ d.result = .length 0))

theorem mode_cons (a : UInt8) (s : List UInt8) : mbrtowcMode (some (a :: s)) {} true = mbrtowcLoop 0 (a :: s) {} := by
  simp [mbrtowcMode]

theorem validScalar_le {v : Nat} (h : validScalar v) : v ≤ 0x10ffff := by
  simp [validScalar] at h; omega

theorem encode_ascii {v : Nat} (h : v ≤ 0x7f) : Utf8.encode v = [.ofNat v] := by rw [Utf8.encode, if_pos h]

theorem ascii_valid {v : Nat} (h : v ≤ 0x7f) : validScalar v := by simp [validScalar]; omega

/-- An encoding at the front of the input is decoded, whatever follows it. -/
theorem decode_encode {v : Nat} (h : validScalar v) (rest : List UInt8) :
    mbrtowcMode (some (Utf8.encode v ++ rest)) {} true =
      ⟨.length (if v = 0 then 0 else (Utf8.encode v).length), some v, {}⟩ := by
  by_cases h7 : v ≤ 0x7f
  · have ha := toNat_ofNat (n := v) (by omega)
    rw [encode_ascii h7, List.singleton_append, mode_cons]
    rcases loop_first (.ofNat v) rest with ⟨-, h⟩ | ⟨n, h⟩ | h
    · rw [h, ha]; simp
    · simp only [Leads, ha] at h; omega
    · rw [mbrtowcLoop, if_pos (by rfl), ha]
      split
      · simp [*]
      · simp [*]
  · obtain ⟨a, n, he, hl, hm, hp⟩ := encode_lead (not_le.1 h7) (validScalar_le h)
    have hacc : accumulate (a.toNat - leadBits n) (tails n v) = v := by
      rw [accumulate_tails, hp, Nat.div_add_mod']
    rw [he, List.cons_append, mode_cons, loop_character hl (isTail_tails n v) (tails_length n v), hacc, finish,
      minimumScalar_eq hl, if_neg (by simp [h]; omega), if_neg (by omega)]
    simp

/-- Whatever the decoder reports is an encoding at the front of the input. -/
theorem encode_of_reports {s : List UInt8} {v : Int} {k : Nat} (h : Reports s v k) :
    ∃ u : Nat, v = u ∧ validScalar u ∧ Utf8.encode u = s.take k ∧ (Utf8.encode u).length = k := by
  obtain ⟨hp, hr⟩ := h
  cases s with
  | nil => simp [mbrtowcMode] at hp
  | cons a s =>
    rw [mode_cons] at hp hr
    rcases loop_first a s with ⟨h7, h⟩ | ⟨n, hl⟩ | h
    · rw [h] at hp hr
      simp only [Option.some.injEq, Converted.length.injEq] at hp hr
      subst hp
      have hk : k = 1 := by split at hr <;> omega
      subst hk
      exact ⟨a.toNat, rfl, ascii_valid h7, by simp [encode_ascii h7], by simp [encode_ascii h7]⟩
    · have hb := leads_bounds hl
      rcases tails_or_stop n s with ⟨t, rest, rfl, hn, ht⟩ | ⟨hn, ht⟩ | ⟨t, b, rest, rfl, hn, ht, hstop⟩
      · rw [loop_character hl ht hn, finish] at hp hr
        split at hp
        · simp at hp
        · rename_i hok
          rw [if_neg hok] at hr
          simp only [Bool.not_eq_true', not_or, not_lt, Bool.not_eq_false] at hok
          rw [minimumScalar_eq hl] at hok
          have he := encode_accumulate hl ht hn hok.1
          simp only [Option.some.injEq, Converted.length.injEq] at hp hr
          have hk : k = n + 1 := by omega
          subst hk
          refine ⟨_, hp.symm, hok.2, ?_, by rw [he, List.length_cons, hn]⟩
          rw [he, List.take_succ_cons, List.take_append_of_le_length (by omega), ← hn, List.take_length]
      · have := loop_short hl ht hn
        rw [this] at hr; simp at hr
      · rw [loop_lead hl, loop_tails ht _ hn (by omega) (payload_fits hl)] at hp
        obtain ⟨r, hr'⟩ : ∃ r, n - t.length = r + 1 := ⟨n - t.length - 1, by omega⟩
        rw [hr', loop_stop hstop _ (by omega)] at hp
        simp at hp
    · rw [h] at hp; simp at hp

/-- A proper prefix of an encoding is incomplete. -/
theorem decode_prefix {v : Nat} (h : validScalar v) {p : List UInt8} (hp : p <+: Utf8.encode v)
    (hne : p ≠ Utf8.encode v) : (mbrtowcMode (some p) {} true).result = .incomplete := by
  cases p with
  | nil => rfl
  | cons c p =>
    by_cases h7 : v ≤ 0x7f
    · rw [encode_ascii h7, List.cons_prefix_cons] at hp
      rw [encode_ascii h7, hp.1, List.prefix_nil.1 hp.2] at hne
      exact absurd rfl hne
    · obtain ⟨a, n, he, hl, -, -⟩ := encode_lead (not_le.1 h7) (validScalar_le h)
      rw [he, List.cons_prefix_cons] at hp
      obtain ⟨rfl, q, hq⟩ := hp
      have hlen : p.length < n := by
        have hl := congrArg List.length hq
        simp only [List.length_append, tails_length] at hl
        rcases q with _ | ⟨b, q⟩
        · rw [he, ← hq, List.append_nil] at hne; exact absurd rfl hne
        · simp at hl; omega
      rw [mode_cons]
      exact loop_short hl (fun b hb => isTail_tails n v b (hq ▸ List.mem_append_left q hb)) hlen

/-- UTF-8 decoding is exact. `mbrtowc` reports `v` from `k` bytes exactly when
those bytes are what `wcrtomb` writes for `v`, which it does for scalar values
only; a proper prefix of an encoding is incomplete; and decoding an encoding
gives back the value, with the conversion state initial again. -/
theorem mbrtowc_exact :
    (∀ (s : List UInt8) (v : Int) (k : Nat),
      Reports s v k ↔ ∃ bs, (wcrtombMode v {} true).1 = some bs ∧ bs.length = k ∧ bs <+: s) ∧
    (∀ v : Int, ((wcrtombMode v {} true).1).isSome ↔ 0 ≤ v ∧ validScalar v.toNat) ∧
    (∀ (v : Int) (bs p : List UInt8), (wcrtombMode v {} true).1 = some bs → p <+: bs → p ≠ bs →
      (mbrtowcMode (some p) {} true).result = .incomplete) ∧
    (∀ v : Nat, validScalar v → ∃ bs, (wcrtombMode v {} true).1 = some bs ∧
      mbrtowcMode (some bs) {} true = ⟨.length (if v = 0 then 0 else bs.length), some v, {}⟩) := by
  have hsome : ∀ {v : Int} {bs}, encodeValue v true = some bs → ∃ u : Nat, v = u ∧ validScalar u ∧ bs = Utf8.encode u := by
    intro v bs h
    obtain ⟨h0, hv⟩ := (encodeValue_isSome v).1 (by simp [h])
    obtain ⟨u, rfl⟩ := Int.eq_ofNat_of_zero_le h0
    rw [Int.toNat_natCast] at hv
    rw [encodeValue_eq hv] at h
    exact ⟨u, rfl, hv, (Option.some.inj h).symm⟩
  refine ⟨fun s v k => ⟨fun h => ?_, ?_⟩, encodeValue_isSome, fun v bs p h hp hne => ?_, fun v h => ?_⟩
  · obtain ⟨u, rfl, hv, he, hk⟩ := encode_of_reports h
    exact ⟨_, encodeValue_eq hv, hk, he ▸ List.take_prefix k s⟩
  · rintro ⟨bs, hbs, rfl, rest, rfl⟩
    obtain ⟨u, rfl, hv, rfl⟩ := hsome hbs
    rw [Reports, decode_encode hv]
    by_cases h0 : u = 0
    · subst h0; simp [Utf8.encode]
    · simp [h0]
  · obtain ⟨u, rfl, hv, rfl⟩ := hsome h
    exact decode_prefix hv hp hne
  · refine ⟨_, encodeValue_eq h, ?_⟩
    have := decode_encode h []
    rwa [List.append_nil] at this

end MiniLibc.Wchar
