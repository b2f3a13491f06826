import MiniLibc.Wchar.Calls
/-!
# Sizing calls

A sizing call of `mbsrtowcs` or `wcsrtombs` counts what a call with room stores.
For `mbsrtowcs` this takes a state object: with a null one the sizing run starts
from the initial state, the storing run from the function's own.
-/

namespace MiniLibc.Wchar

theorem Terminated.mem {src : List UInt8} (h : Terminated src) : 0 ∈ src := by
  obtain ⟨s, rfl, -⟩ := h
  exact List.mem_append_right _ (List.mem_singleton.2 rfl)

/-- Behind a character that is not NUL the string goes on. -/
theorem Terminated.drop {src : List UInt8} (h : Terminated src) {n : Nat} (hn : n ≤ src.length) (h0 : 0 ∉ src.take n) :
    Terminated (src.drop n) := by
  obtain ⟨s, rfl, hs⟩ := h
  have hle : n ≤ s.length := by
    by_contra hlt
    rw [List.length_append, List.length_singleton] at hn
    obtain rfl : n = s.length + 1 := by omega
    apply h0
    rw [List.take_of_length_le (by rw [List.length_append, List.length_singleton])]
    exact List.mem_append_right _ (List.mem_singleton.2 rfl)
  exact ⟨s.drop n, List.drop_append_of_le_length hle, fun hm => hs (List.mem_of_mem_drop hm)⟩

/-- NUL is the last byte of a string. -/
theorem Terminated.nul {rest : List UInt8} (h : Terminated (0 :: rest)) : rest = [] := by
  obtain ⟨s, he, hs⟩ := h
  cases s with
  | nil => exact (List.cons.inj he).2
  | cons b s => exact absurd (List.mem_cons.2 (.inl (List.cons.inj he).1)) hs

/-- A run with room decodes the string as `mbrtowc` does, call by call. -/
theorem mbsrtowcsLoop_feed {cursor : List UInt8} (ht : Terminated cursor) {state : MbState} (hk : Kept state)
    (utf8 : Bool) (len : Nat) {fuel : Nat} (hf : cursor.length ≤ fuel) (count offset : Nat) :
    let r := mbsrtowcsLoop utf8 true len fuel cursor count state
    let f := feed utf8 offset state cursor
    r.stored = f.characters.map Prod.fst ∧ r.state = f.state ∧
      (f.error = true → r.result = .eilseq) ∧
      (f.error = false → r.src = none ∧ r.result = .length (count + f.characters.length - 1) ∧
        0 < f.characters.length) := by
  induction fuel generalizing cursor count offset state with
  | zero =>
    obtain ⟨s, rfl, -⟩ := ht
    simp at hf
  | succ fuel ih =>
    obtain ⟨hne, hw⟩ := mode_window ht.mem hk utf8
    have hsizing : ¬ ((!true) = true ∧ count ≥ len) := fun hf => Bool.false_ne_true hf.1
    dsimp only
    rw [feed_call]
    unfold mbsrtowcsLoop
    rw [if_neg hsizing]
    dsimp only
    rw [hw]
    have hkept := @mode_kept (some cursor) state utf8 hk
    have hlength := fun n => @mode_length cursor n state utf8
    generalize mbrtowcMode (some cursor) state utf8 = d at hne hkept hlength
    obtain ⟨result, pwc, next⟩ := d
    unfold Decoded.fed
    dsimp only at hne hkept hlength ⊢
    cases result with
    | incomplete => exact absurd rfl hne
    | eilseq => exact ⟨rfl, rfl, fun _ => rfl, fun he => absurd he.symm Bool.false_ne_true⟩
    | length n =>
      rcases hlength n rfl with ⟨rfl, hp, hs, rest, hc⟩ | ⟨h0, hle, htake, c, hp, -⟩
      · -- NUL ends the string.
        dsimp only at hp hs
        subst hc hp hs
        rw [ht.nul]
        exact ⟨rfl, rfl, fun he => absurd he Bool.false_ne_true, fun _ => ⟨rfl, rfl, Nat.one_pos⟩⟩
      · obtain ⟨n, rfl⟩ : ∃ k, n = k + 1 := ⟨n - 1, by omega⟩
        have hmax : max (n + 1) 1 = n + 1 := by omega
        dsimp only
        rw [hmax]
        obtain ⟨h1, h2, h3, h4⟩ := ih (ht.drop hle htake) hkept
          (by rw [List.length_drop]; omega) (count + 1) (offset + (n + 1))
        refine ⟨by rw [h1]; rfl, h2, h3, fun he => ?_⟩
        obtain ⟨g1, g2, g3⟩ := h4 he
        refine ⟨g1, ?_, Nat.succ_pos _⟩
        rw [g2]
        show Converted.length _ = Converted.length (count + (_ + 1) - 1)
        congr 1
        omega

/-- Decoding the string from this state meets an error. -/
def IllFormed (utf8 : Bool) (state : MbState) (src : List UInt8) : Prop := (feed utf8 0 state src).error = true

instance (utf8 : Bool) (state : MbState) (src : List UInt8) : Decidable (IllFormed utf8 state src) :=
  inferInstanceAs (Decidable (_ = true))

/-- No string decodes both from the initial state and from the middle of a
character. -/
theorem illFormed_middle {state : MbState} (hs : stateRemaining state ≠ 0) {src : List UInt8} (h0 : src ≠ [])
    (utf8 : Bool) : IllFormed utf8 {} src ∨ IllFormed utf8 state src := by
  obtain ⟨b, rest, rfl⟩ := List.exists_cons_of_ne_nil h0
  unfold IllFormed
  rw [feed_call, feed_call]
  cases utf8 with
  | false =>
    right
    have hinit : (!mbsinit state) = true := by
      by_contra hn
      simp [mbsinit] at hn
      apply hs
      rw [stateRemaining, hn.1]
      rfl
    rw [show mbrtowcMode (some (b :: rest)) state false = ⟨.eilseq, none, {}⟩ from if_pos hinit]
    rfl
  | true =>
    rw [mode_utf8, mode_utf8]
    by_cases ht : b.toNat < 0x80 ∨ 0xbf < b.toNat
    · right
      rw [mbrtowcLoop, if_neg hs, if_pos ht]
      rfl
    · -- A tail byte starts no character.
      left
      have hstart : stateRemaining {} = 0 := rfl
      rw [mbrtowcLoop, if_pos hstart, if_neg (by omega), if_neg (by omega), if_neg (by omega), if_neg (by omega),
        if_neg (by omega)]
      rfl

/-! ## The law -/

/-- A sizing call returns what a call with room returns, and leaves the source
pointer and the states. -/
def MbsSizing (utf8 : Bool) (src : List UInt8) (states : States) : Prop :=
  ∀ n len, src.length < len →
    (mbsrtowcs utf8 true src n states).result = (mbsrtowcs utf8 false src len states).result ∧
      (mbsrtowcs utf8 true src n states).src = some src ∧ (mbsrtowcs utf8 true src n states).state = states

def WcsSizing (utf8 : Bool) (src : List Int) (states : States) : Prop :=
  ∀ n len, 4 * src.length < len →
    (wcsrtombs utf8 true src n states).result = (wcsrtombs utf8 false src len states).result ∧
      (wcsrtombs utf8 true src n states).src = some src ∧ (wcsrtombs utf8 true src n states).state = states

/-- The results of the two runs of `mbsrtowcs`. -/
theorem mbsrtowcs_results {utf8 : Bool} {src : List UInt8} {len : Nat} (h : src.length < len) (n : Nat)
    (states : States) :
    (mbsrtowcs utf8 true src n states).result =
        (mbsrtowcsLoop utf8 true n src.length src 0 (states.caller.getD {})).result ∧
      (mbsrtowcs utf8 false src len states).result =
        (mbsrtowcsLoop utf8 true n src.length src 0 (selectState states)).result := by
  refine ⟨rfl, ?_⟩
  rw [← mbsrtowcsLoop_room n (by omega : 0 + src.length < len)]
  rfl

/-- The state matters to the encoder only until its first character. -/
theorem wcsrtombsLoop_state (utf8 sizing : Bool) (len : Nat) (cursor : List Int) (count : Nat) (s t : MbState) :
    (wcsrtombsLoop utf8 sizing len cursor count s).result = (wcsrtombsLoop utf8 sizing len cursor count t).result := by
  cases cursor with
  | nil => rfl
  | cons wc rest => rfl

/-- When the sizing law holds: for `wcsrtombs` always, and for `mbsrtowcs` when
the caller gives a state object, when the function's own state is the initial
one, and for a string that both of them find ill-formed. -/
theorem sizing_law (utf8 : Bool) (src : List UInt8) (hsrc : Terminated src) (states : States)
    (hi : Decoding states.internal) (wide : List Int) (wstates : States) :
    (MbsSizing utf8 src states ↔ states.caller.isSome ∨ states.internal = {} ∨
      (IllFormed utf8 {} src ∧ IllFormed utf8 states.internal src)) ∧ WcsSizing utf8 wide wstates := by
  constructor
  · have hfeed : ∀ {state n}, Kept state →
        (IllFormed utf8 state src ↔ (mbsrtowcsLoop utf8 true n src.length src 0 state).result = .eilseq) := by
      intro state n hk
      obtain ⟨-, -, h1, h2⟩ := mbsrtowcsLoop_feed hsrc hk utf8 n (Nat.le_refl _) 0 0
      unfold IllFormed
      cases he : (feed utf8 0 state src).error with
      | true => exact ⟨fun _ => h1 he, fun _ => rfl⟩
      | false =>
        rw [(h2 he).2.1]
        exact ⟨fun hf => absurd hf Bool.false_ne_true, fun hf => absurd hf (by simp)⟩
    have hinit : Kept {} := .inl rfl
    have hkept := hi.kept
    constructor
    · intro hlaw
      by_cases hcaller : states.caller.isSome
      · exact .inl hcaller
      right
      have hnone : states.caller = none := by simpa using hcaller
      rcases hkept with h0 | hmid
      · exact .inl h0
      right
      obtain ⟨h1, h2⟩ := @mbsrtowcs_results utf8 src _ (Nat.lt_succ_self src.length) 0 states
      have hsame := (hlaw 0 _ (Nat.lt_succ_self src.length)).1
      rw [h1, h2, selectState, hnone] at hsame
      have hiff : IllFormed utf8 {} src ↔ IllFormed utf8 states.internal src := by
        rw [hfeed (n := 0) hinit, hfeed (n := 0) (.inr hmid)]
        exact ⟨fun he => hsame.symm.trans he, fun he => hsame.trans he⟩
      have hne : src ≠ [] := List.ne_nil_of_mem hsrc.mem
      rcases illFormed_middle (Nat.ne_of_gt hmid.1) hne utf8 with hill | hill
      · exact ⟨hill, hiff.1 hill⟩
      · exact ⟨hiff.2 hill, hill⟩
    · intro hcond n len hlen
      refine ⟨?_, rfl, rfl⟩
      obtain ⟨h1, h2⟩ := @mbsrtowcs_results utf8 src _ hlen n states
      rw [h1, h2, selectState]
      cases hc : states.caller with
      | some s => rfl
      | none =>
        rw [hc] at hcond
        rcases hcond with hs | h0 | ⟨ha, hb⟩
        · exact absurd hs Bool.false_ne_true
        · rw [h0]
        · exact ((hfeed hinit).1 ha).trans ((hfeed hkept).1 hb).symm
  · intro n len hlen
    refine ⟨?_, rfl, rfl⟩
    have hroom := @wcsrtombsLoop_room utf8 len n wide 0 (by omega) (selectState wstates)
    show (wcsrtombsLoop utf8 true n wide 0 (wstates.caller.getD {})).result =
      (wcsrtombsLoop utf8 false len wide 0 (selectState wstates)).result
    rw [hroom]
    exact wcsrtombsLoop_state utf8 true n wide 0 _ _

/-- After a call of `mbrtowc` that was given the first byte of a character. -/
def midway : States := ⟨(mbrtowcMode (some [0xc3]) {} true).state, none⟩

theorem midway_decoding : Decoding midway.internal := .next (.start rfl) ⟨some [0xc3], true, rfl⟩

/-- Midway in a character the law fails on every well-formed string. -/
theorem sizing_law_midway : ¬ MbsSizing true [65, 0] midway := fun h => by
  have hlaw := (sizing_law true [65, 0] ⟨[65], rfl, by decide⟩ midway midway_decoding [0] midway).1.1 h
  exact absurd hlaw (by decide)

/-- The rest of the character is not counted: sizing meets an error where the
storing call stores the character. -/
theorem sizing_law_refuted :
    Decoding midway.internal ∧ (mbsrtowcs true true [0xa9, 0] 0 midway).result = .eilseq ∧
      (mbsrtowcs true false [0xa9, 0] 8 midway).result = .length 1 ∧ ¬ MbsSizing true [0xa9, 0] midway := by
  refine ⟨midway_decoding, by decide, by decide, fun h => ?_⟩
  exact absurd (h 0 8 (by decide)).1 (by decide)

end MiniLibc.Wchar
