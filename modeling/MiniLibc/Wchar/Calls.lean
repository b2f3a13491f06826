import MiniLibc.Lib.Runs
import MiniLibc.Wchar.Strings
/-!
# One call of the decoder

What a call of `mbrtowc` consumes, when it is incomplete, and which states it
leaves. On the window of a string it decides as on the whole string.
-/
open MiniLibc.Runs

namespace MiniLibc.Wchar

/-! ## More input -/

/-- Where a result is known, more input does not change it. -/
theorem loop_append {w : List UInt8} {used : Nat} {state : MbState}
    (h : (mbrtowcLoop used w state).result ≠ .incomplete) (t : List UInt8) :
    mbrtowcLoop used (w ++ t) state = mbrtowcLoop used w state := by
  induction w generalizing used state with
  | nil => exact absurd rfl h
  | cons b w ih =>
    rw [List.cons_append]
    simp only [mbrtowcLoop] at h ⊢
    by_cases hs : stateRemaining state = 0
    · simp only [if_pos hs] at h ⊢
      repeat' split
      all_goals first
        | rfl
        | exact ih (by simp_all)
    · simp only [if_neg hs] at h ⊢
      repeat' split
      all_goals first
        | rfl
        | exact ih (by simp_all)

theorem mode_append {w : List UInt8} {state : MbState} {utf8 : Bool}
    (h : (mbrtowcMode (some w) state utf8).result ≠ .incomplete) (t : List UInt8) :
    mbrtowcMode (some (w ++ t)) state utf8 = mbrtowcMode (some w) state utf8 := by
  cases utf8 with
  | true =>
    rw [mode_utf8] at h
    rw [mode_utf8, mode_utf8, loop_append h]
  | false =>
    cases w with
    | nil => exact absurd rfl h
    | cons b w => rfl

/-! ## Which states there are -/

/-- The states that calls of the decoder leave, in either encoding. -/
def Decoding (state : MbState) : Prop :=
  Reachable (fun s : MbState => s = {}) (fun s s' => ∃ src utf8, s' = (mbrtowcMode src s utf8).state) state

/-- At most three bytes are outstanding. -/
def Kept (state : MbState) : Prop := state = {} ∨ 0 < stateRemaining state ∧ stateRemaining state < 4

theorem kept_start {remaining : Nat} (h0 : 0 < remaining) (h : remaining < 4) (total value : Nat) :
    Kept (startState total remaining value) := by
  right
  rw [stateRemaining_start (by omega)]
  exact ⟨h0, h⟩

theorem loop_kept {bytes : List UInt8} {used : Nat} {state : MbState} (h : Kept state) :
    Kept (mbrtowcLoop used bytes state).state := by
  induction bytes generalizing used state with
  | nil => exact h
  | cons b rest ih =>
    simp only [mbrtowcLoop]
    by_cases hs : stateRemaining state = 0
    · simp only [if_pos hs]
      split
      · exact .inl rfl
      split
      · exact h
      split
      · exact ih (kept_start (by omega) (by omega) _ _)
      split
      · exact ih (kept_start (by omega) (by omega) _ _)
      split
      · exact ih (kept_start (by omega) (by omega) _ _)
      · exact .inl rfl
    · simp only [if_neg hs]
      have hlt : stateRemaining state < 4 := by
        rcases h with rfl | h
        · exact absurd rfl hs
        · exact h.2
      split
      · exact .inl rfl
      split
      · exact ih (kept_start (by omega) (by omega) _ _)
      split
      · exact .inl rfl
      · exact .inl rfl

theorem mode_kept {src : Option (List UInt8)} {state : MbState} {utf8 : Bool} (h : Kept state) :
    Kept (mbrtowcMode src state utf8).state := by
  cases src with
  | none => exact .inl rfl
  | some bytes =>
    cases utf8 with
    | true =>
      rw [mode_utf8]
      exact loop_kept h
    | false =>
      cases bytes with
      | nil => exact h
      | cons b rest =>
        simp only [mbrtowcMode, if_neg Bool.false_ne_true]
        split
        · exact .inl rfl
        split
        · exact h
        · exact h

theorem Decoding.kept {state : MbState} (h : Decoding state) : Kept state :=
  h.invariant (I := Kept) (fun _ h => .inl h) fun _ _ h ⟨_, _, hs⟩ => hs ▸ mode_kept h

/-! ## Incomplete calls -/

/-- A call is incomplete only for fewer bytes than the decoder has patience
for, and not after a NUL. -/
theorem loop_incomplete {bytes : List UInt8} {used : Nat} {state : MbState} (hk : Kept state)
    (h : (mbrtowcLoop used bytes state).result = .incomplete) :
    bytes.length < patience state ∧ 0 ∉ bytes := by
  induction bytes generalizing used state with
  | nil =>
    refine ⟨?_, List.not_mem_nil⟩
    unfold patience
    rw [List.length_nil]
    split <;> omega
  | cons b rest ih =>
    have hzero : ∀ {p : Prop}, ¬ b.toNat = 0 → (p ∧ 0 ∉ rest) → p ∧ 0 ∉ b :: rest := by
      rintro p hb ⟨hp, hrest⟩
      refine ⟨hp, fun hm => ?_⟩
      rcases List.mem_cons.1 hm with rfl | hm
      · exact hb rfl
      · exact hrest hm
    rw [List.length_cons]
    simp only [mbrtowcLoop] at h
    by_cases hs : stateRemaining state = 0
    · have h4 : patience state = 4 := if_pos hs
      rw [h4]
      simp only [if_pos hs] at h
      split at h
      · contradiction
      rename_i hb
      split at h
      · contradiction
      apply hzero hb
      have hstart : ∀ {remaining total value}, 0 < remaining → remaining < 4 →
          (mbrtowcLoop (used + 1) rest (startState total remaining value)).result = .incomplete →
          rest.length + 1 < 4 ∧ 0 ∉ rest := by
        intro remaining total value h0 hr hi
        obtain ⟨h1, h2⟩ := ih (kept_start h0 hr total value) hi
        rw [patience_start h0 (by omega)] at h1
        exact ⟨by omega, h2⟩
      split at h
      · exact hstart (by omega) (by omega) h
      split at h
      · exact hstart (by omega) (by omega) h
      split at h
      · exact hstart (by omega) (by omega) h
      · contradiction
    · have h4 : patience state = stateRemaining state := if_neg hs
      rw [h4]
      have hlt : stateRemaining state < 4 := by
        rcases hk with rfl | hk
        · exact absurd rfl hs
        · exact hk.2
      simp only [if_neg hs] at h
      split at h
      · contradiction
      rename_i hb
      apply hzero (by omega)
      split at h
      · obtain ⟨h1, h2⟩ := ih (kept_start (by omega) (by omega) _ _) h
        rw [patience_start (by omega) (by omega)] at h1
        exact ⟨by omega, h2⟩
      split at h
      · contradiction
      · contradiction

/-- The window of a string that has its terminator is full or holds it. -/
theorem sourceWindow_cases {cursor : List UInt8} (h : 0 ∈ cursor) (maximum : Nat) :
    (sourceWindow cursor maximum).length = maximum ∨ 0 ∈ sourceWindow cursor maximum := by
  induction maximum generalizing cursor with
  | zero =>
    left
    unfold sourceWindow
    rfl
  | succ n ih =>
    cases cursor with
    | nil => exact absurd h List.not_mem_nil
    | cons b rest =>
      unfold sourceWindow
      split
      · rename_i hb
        right
        exact List.mem_singleton.2 hb.symm
      · rename_i hb
        rcases ih ((List.mem_cons.1 h).resolve_left fun hz => hb hz.symm) with hl | hm
        · exact .inl (by rw [List.length_cons, hl])
        · exact .inr (List.mem_cons_of_mem _ hm)

theorem sourceWindow_prefix (cursor : List UInt8) (maximum : Nat) : sourceWindow cursor maximum <+: cursor := by
  induction maximum generalizing cursor with
  | zero =>
    unfold sourceWindow
    exact List.nil_prefix
  | succ n ih =>
    cases cursor with
    | nil => exact List.nil_prefix
    | cons b rest =>
      unfold sourceWindow
      split
      · exact List.cons_prefix_cons.2 ⟨rfl, List.nil_prefix⟩
      · exact List.cons_prefix_cons.2 ⟨rfl, ih rest⟩

/-- On its window a string is decoded as a whole, and the call is complete. -/
theorem mode_window {cursor : List UInt8} (h : 0 ∈ cursor) {state : MbState} (hk : Kept state) (utf8 : Bool) :
    (mbrtowcMode (some cursor) state utf8).result ≠ .incomplete ∧
      mbrtowcMode (some (sourceWindow cursor (if utf8 then 4 else 1))) state utf8 =
        mbrtowcMode (some cursor) state utf8 := by
  have hne : (mbrtowcMode (some (sourceWindow cursor (if utf8 then 4 else 1))) state utf8).result ≠ .incomplete := by
    intro hi
    cases utf8 with
    | true =>
      rw [mode_utf8] at hi
      obtain ⟨hlt, hmem⟩ := loop_incomplete hk hi
      have h4 : patience state ≤ 4 := by
        unfold patience
        split
        · exact Nat.le_refl 4
        · rcases hk with rfl | hk
          · exact absurd rfl ‹_›
          · exact hk.2.le
      rcases sourceWindow_cases h 4 with hl | hm
      · rw [if_pos rfl] at hlt
        omega
      · exact hmem hm
    | false =>
      cases cursor with
      | nil => exact List.not_mem_nil h
      | cons b rest =>
        have hw : ∃ w, sourceWindow (b :: rest) (if false = true then 4 else 1) = b :: w := by
          rw [if_neg Bool.false_ne_true]
          unfold sourceWindow
          split
          · exact ⟨_, rfl⟩
          · exact ⟨_, rfl⟩
        obtain ⟨w, hw⟩ := hw
        rw [hw] at hi
        simp only [mbrtowcMode, if_neg Bool.false_ne_true] at hi
        split at hi
        · contradiction
        split at hi
        · contradiction
        · contradiction
  obtain ⟨t, ht⟩ := sourceWindow_prefix cursor (if utf8 then 4 else 1)
  have happ := mode_append hne t
  rw [ht] at happ
  rw [happ]
  exact ⟨hne, rfl⟩

/-! ## Complete calls -/

/-- The bytes of a character are not NUL, but for the one of NUL itself. -/
def Consumes (bytes : List UInt8) (d : Decoded) (n : Nat) : Prop :=
  (n = 0 ∧ d.pwc = some 0 ∧ d.state = {} ∧ ∃ rest, bytes = 0 :: rest) ∨
    (0 < n ∧ n ≤ bytes.length ∧ 0 ∉ bytes.take n ∧ ∃ c, d.pwc = some c ∧ c ≠ 0)

theorem loop_inside {bytes : List UInt8} {used n : Nat} {state : MbState} (hs : stateRemaining state ≠ 0)
    (h : (mbrtowcLoop used bytes state).result = .length n) :
    used < n ∧ n - used ≤ bytes.length ∧ 0 ∉ bytes.take (n - used) ∧
      ∃ c, (mbrtowcLoop used bytes state).pwc = some c ∧ c ≠ 0 := by
  induction bytes generalizing used state with
  | nil => simp [mbrtowcLoop] at h
  | cons b rest ih =>
    simp only [mbrtowcLoop, if_neg hs] at h ⊢
    split at h
    · contradiction
    rename_i hb
    have hzero : ∀ k, 0 ∉ rest.take k → 0 ∉ (b :: rest).take (k + 1) := by
      intro k hk hm
      rw [List.take_succ_cons] at hm
      rcases List.mem_cons.1 hm with rfl | hm
      · exact hb (.inl (by decide))
      · exact hk hm
    rw [if_neg hb]
    split at h
    · rename_i hr
      rw [if_pos hr]
      have hlt : stateRemaining state < 256 := Nat.and_lt_two_pow _ (by decide : 0xff < 2 ^ 8)
      obtain ⟨h1, h2, h3, h4⟩ := ih (by rw [stateRemaining_start (by omega)]; exact hr) h
      obtain ⟨k, rfl⟩ : ∃ k, n = used + 1 + k := ⟨n - (used + 1), by omega⟩
      rw [List.length_cons]
      have hk : used + 1 + k - used = k + 1 := by omega
      have hk' : used + 1 + k - (used + 1) = k := by omega
      rw [hk'] at h2 h3
      rw [hk]
      exact ⟨by omega, by omega, hzero k h3, h4⟩
    rename_i hr
    rw [if_neg hr]
    split at h
    · contradiction
    · rename_i hv
      obtain rfl := Converted.length.inj h
      rw [if_neg hv, Nat.add_sub_cancel_left, List.length_cons]
      refine ⟨Nat.lt_succ_self _, by omega, hzero 0 List.not_mem_nil, _, rfl, ?_⟩
      -- The value is at least the minimum for its length.
      intro h0
      have hmin : 0 < minimumScalar (stateTotal state) := by
        unfold minimumScalar
        split
        · decide
        split
        · decide
        · decide
      simp only [not_or, not_lt] at hv
      have := hv.1
      omega

theorem mode_length {bytes : List UInt8} {n : Nat} {state : MbState} {utf8 : Bool}
    (h : (mbrtowcMode (some bytes) state utf8).result = .length n) :
    Consumes bytes (mbrtowcMode (some bytes) state utf8) n := by
  cases bytes with
  | nil => cases h
  | cons b rest =>
    have hb : b.toNat = 0 → b = 0 := fun h0 => UInt8.toNat_inj.1 h0
    have hsingle : ¬ b.toNat = 0 → 0 ∉ (b :: rest).take 1 := by
      intro h0 hm
      rw [List.take_succ_cons, List.take_zero, List.mem_singleton] at hm
      rw [← hm] at h0
      exact h0 rfl
    cases utf8 with
    | true =>
      rw [mode_utf8] at h ⊢
      by_cases hs : stateRemaining state = 0
      · simp only [mbrtowcLoop, if_pos hs] at h ⊢
        split at h
        · rename_i h0
          obtain rfl := Converted.length.inj h
          rw [if_pos h0]
          exact .inl ⟨rfl, rfl, rfl, rest, by rw [hb h0]⟩
        rename_i h0
        rw [if_neg h0]
        split at h
        · rename_i h7
          obtain rfl := Converted.length.inj h
          rw [if_pos h7]
          exact .inr ⟨Nat.one_pos, by rw [List.length_cons]; omega, hsingle h0, _, rfl, by omega⟩
        rename_i h7
        rw [if_neg h7]
        have hstart : ∀ {remaining total value}, 0 < remaining → remaining < 4 →
            (mbrtowcLoop (0 + 1) rest (startState total remaining value)).result = .length n →
            Consumes (b :: rest) (mbrtowcLoop (0 + 1) rest (startState total remaining value)) n := by
          intro remaining total value hr0 hr hl
          obtain ⟨h1, h2, h3, h4⟩ := loop_inside (by rw [stateRemaining_start (by omega)]; omega) hl
          obtain ⟨k, rfl⟩ : ∃ k, n = k + 1 := ⟨n - 1, by omega⟩
          rw [Nat.add_sub_cancel] at h2 h3
          refine .inr ⟨by omega, by rw [List.length_cons]; omega, fun hm => ?_, h4⟩
          rw [List.take_succ_cons] at hm
          rcases List.mem_cons.1 hm with rfl | hm
          · exact h0 rfl
          · exact h3 hm
        split at h
        · rw [if_pos ‹_›]
          exact hstart (by omega) (by omega) h
        rw [if_neg ‹_›]
        split at h
        · rw [if_pos ‹_›]
          exact hstart (by omega) (by omega) h
        rw [if_neg ‹_›]
        split at h
        · rw [if_pos ‹_›]
          exact hstart (by omega) (by omega) h
        · contradiction
      · obtain ⟨h1, h2, h3, h4⟩ := loop_inside hs h
        exact .inr ⟨h1, h2, h3, h4⟩
    | false =>
      simp only [mbrtowcMode, if_neg Bool.false_ne_true] at h ⊢
      split at h
      · contradiction
      rename_i hi
      rw [if_neg hi]
      split at h
      · contradiction
      rename_i hmax
      rw [if_neg hmax]
      obtain rfl := Converted.length.inj h
      by_cases h0 : b.toNat = 0
      · rw [if_pos h0]
        refine .inl ⟨rfl, by rw [h0]; rfl, ?_, rest, by rw [hb h0]⟩
        obtain ⟨count, value⟩ := state
        simp [mbsinit] at hi
        rw [hi.1, hi.2]
      · rw [if_neg h0]
        exact .inr ⟨Nat.one_pos, by rw [List.length_cons]; omega, hsingle h0, _, rfl, by omega⟩

end MiniLibc.Wchar
