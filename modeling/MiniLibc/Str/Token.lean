import Mathlib
/-!
# Tokenising

`src/string/string.c`: `byte_in_set` and `strtok`. A delimiter set is the array its
pointer leads into, from the pointer to the end of the array, and the string under
division is an array and an offset. `none` is a read past the end of either.

`IsToken` and `NoToken` say what the next token of a string is. `Divided` is a
whole run of calls by them.
-/

namespace MiniLibc.Str

/-! ## The calls -/

def byteInSet : List UInt8 → UInt8 → Option Bool
  | [], _ => none
  | c :: set, byte => if c = 0 then some false else if c = byte then some true else byteInSet set byte

/-- The array and the static `strtok_next`, `none` the null pointer. -/
structure Tokenizer where
  buffer : List UInt8
  next : Option Nat

/-- Both loops of `strtok`: step over the bytes whose membership in the set is `inside`. -/
def spanLoop (delim : List UInt8) (inside : Bool) : List UInt8 → Nat → Option Nat
  | [], _ => none
  | byte :: rest, str =>
    if byte = 0 then some str
    else do
      let found ← byteInSet delim byte
      if found = inside then spanLoop delim inside rest (str + 1) else some str

def strtok (t : Tokenizer) (str : Option Nat) (delim : List UInt8) : Option (Option Nat × Tokenizer) := do
  let t := if str = none then t else { t with next := str }
  if let some str := t.next then
    let str ← spanLoop delim true (t.buffer.drop str) str
    let byte ← t.buffer[str]?
    if byte = 0 then return (none, { t with next := some str })
    let token := str
    let str ← spanLoop delim false (t.buffer.drop str) str
    let byte ← t.buffer[str]?
    if byte = 0 then return (some token, { t with next := some str })
    return (some token, ⟨t.buffer.set str 0, some (str + 1)⟩)
  else return (none, t)

/-- Successive calls, and what each returned. -/
def strtokCalls (t : Tokenizer) : List (Option Nat × List UInt8) → Option (List (Option Nat) × Tokenizer)
  | [] => some ([], t)
  | (str, delim) :: calls => do
    let (token, t) ← strtok t str delim
    let (tokens, t) ← strtokCalls t calls
    return (token :: tokens, t)

/-! ## What a token is -/

/-- The string at `q` ends at `e`. -/
structure StringAt (b : List UInt8) (q e : Nat) : Prop where
  le : q ≤ e
  nul : b[e]? = some 0
  body : ∀ i, q ≤ i → i < e → ∃ c, b[i]? = some c ∧ c ≠ 0

/-- The bytes of the set before its terminator. -/
def members (delim : List UInt8) : List UInt8 := delim.takeWhile (· ≠ 0)

/-- The bytes `lo` to `hi` are all in the set, or all not. -/
def Spans (b delim : List UInt8) (inside : Bool) (lo hi : Nat) : Prop :=
  ∀ i, lo ≤ i → i < hi → ∃ c, b[i]? = some c ∧ decide (c ∈ members delim) = inside

structure Token where
  start : Nat
  stop : Nat
  deriving DecidableEq

/-- The token after `q` in the string that ends at `e`: delimiters up to its start,
none inside it, and one behind it unless it ends the string. -/
structure IsToken (b delim : List UInt8) (e q : Nat) (t : Token) : Prop where
  skipped : q ≤ t.start ∧ Spans b delim true q t.start
  nonempty : t.start < t.stop
  inside : t.stop ≤ e ∧ Spans b delim false t.start t.stop
  maximal : t.stop = e ∨ ∃ c, b[t.stop]? = some c ∧ c ∈ members delim

/-- Only delimiters are left. -/
def NoToken (b delim : List UInt8) (e q : Nat) : Prop := Spans b delim true q e

/-- Where the search goes on: behind the delimiter that ended the token. -/
def Token.resume (t : Token) (e : Nat) : Nat := if t.stop = e then e else t.stop + 1

/-- Each call's token, or its absence, from the point where the call before it stopped. -/
def Divided (b : List UInt8) (e : Nat) : Nat → List (List UInt8) → List (Option Token) → Prop
  | _, [], [] => True
  | q, d :: ds, some t :: ts => IsToken b d e q t ∧ Divided b e (t.resume e) ds ts
  | q, d :: ds, none :: ts => NoToken b d e q ∧ Divided b e e ds ts
  | _, _, _ => False

/-! ## The loops -/

theorem byteInSet_eq {delim : List UInt8} (h : 0 ∈ delim) (byte : UInt8) :
    byteInSet delim byte = some (decide (byte ∈ members delim)) := by
  induction delim with
  | nil => simp at h
  | cons c set ih =>
    rw [byteInSet]
    by_cases hc : c = 0
    · rw [if_pos hc]; simp [members, hc]
    · rw [if_neg hc, members, List.takeWhile_cons_of_pos (by simpa using hc)]
      by_cases hb : c = byte
      · rw [if_pos hb]; simp [hb]
      · rw [if_neg hb, ih (by simpa [Ne.symm hc] using h)]
        simp [members, Ne.symm hb]

theorem Spans.nil (b delim : List UInt8) (inside : Bool) (q : Nat) : Spans b delim inside q q :=
  fun i h1 h2 => by omega

theorem Spans.cons {b delim : List UInt8} {inside : Bool} {q hi : Nat} {c : UInt8} (hc : b[q]? = some c)
    (hm : decide (c ∈ members delim) = inside) (h : Spans b delim inside (q + 1) hi) : Spans b delim inside q hi := by
  intro i h1 h2
  rcases Nat.eq_or_lt_of_le h1 with rfl | h3
  · exact ⟨c, hc, hm⟩
  · exact h i h3 h2

theorem StringAt.tail {b : List UInt8} {q e : Nat} (h : StringAt b q e) {r : Nat} (hr : q ≤ r) (hre : r ≤ e) :
    StringAt b r e :=
  ⟨hre, h.nul, fun i h1 h2 => h.body i (by omega) h2⟩

theorem drop_of_get {b : List UInt8} {q : Nat} {c : UInt8} (h : b[q]? = some c) : b.drop q = c :: b.drop (q + 1) := by
  obtain ⟨hq, rfl⟩ := List.getElem?_eq_some_iff.1 h
  exact List.drop_eq_getElem_cons hq

theorem set_self {b : List UInt8} {e : Nat} (h : b[e]? = some 0) : b.set e 0 = b := by
  obtain ⟨he, h0⟩ := List.getElem?_eq_some_iff.1 h
  rw [← h0, List.set_getElem_self]

/-- A loop stops at the end of the string or at the first byte of the other kind. -/
theorem spanLoop_spec {b delim : List UInt8} (hd : 0 ∈ delim) (inside : Bool) {q e : Nat} (h : StringAt b q e) :
    ∃ r, spanLoop delim inside (b.drop q) q = some r ∧ q ≤ r ∧ r ≤ e ∧ Spans b delim inside q r ∧
      (r = e ∨ ∃ c, b[r]? = some c ∧ decide (c ∈ members delim) = !inside) := by
  obtain ⟨n, hn⟩ : ∃ n, e = q + n := ⟨e - q, by have := h.le; omega⟩
  induction n generalizing q with
  | zero =>
    obtain rfl : e = q := hn
    refine ⟨e, ?_, Nat.le_refl _, Nat.le_refl _, Spans.nil _ _ _ _, .inl rfl⟩
    rw [drop_of_get h.nul, spanLoop, if_pos rfl]
  | succ n ih =>
    obtain ⟨c, hc, hc0⟩ := h.body q (Nat.le_refl q) (by omega)
    rw [drop_of_get hc, spanLoop, if_neg hc0, byteInSet_eq hd, Option.bind_eq_bind, Option.bind_some]
    by_cases hm : decide (c ∈ members delim) = inside
    · rw [if_pos hm]
      obtain ⟨r, hr, h1, h2, h3, h4⟩ := ih (h.tail (Nat.le_succ q) (by omega)) (by omega)
      exact ⟨r, hr, by omega, h2, h3.cons hc hm, h4⟩
    · rw [if_neg hm]
      refine ⟨q, rfl, Nat.le_refl q, h.le, Spans.nil _ _ _ _, .inr ⟨c, hc, ?_⟩⟩
      cases inside <;> simpa using hm

/-! ## One call -/

/-- With nothing but delimiters left a call returns null and stays at the end.
Otherwise it returns the next token, and overwrites the delimiter behind it. -/
theorem strtok_spec (t : Tokenizer) (str : Option Nat) {delim : List UInt8} {q e : Nat} (hd : 0 ∈ delim)
    (hq : str.or t.next = some q) (h : StringAt t.buffer q e) :
    (NoToken t.buffer delim e q ∧ strtok t str delim = some (none, ⟨t.buffer, some e⟩)) ∨
      ∃ k, IsToken t.buffer delim e q k ∧
        strtok t str delim = some (some k.start, ⟨t.buffer.set k.stop 0, some (k.resume e)⟩) := by
  obtain ⟨r, hr, h1, h2, hskip, hstop⟩ := spanLoop_spec hd true h
  have hnext : (if str = none then t else { t with next := str }) = ⟨t.buffer, some q⟩ := by
    cases str with
    | none => rw [if_pos rfl, ← hq]; rfl
    | some p => rw [if_neg (by simp)]; simp only [Option.some_or] at hq; rw [hq]
  simp only [strtok, hnext, hr, Option.bind_eq_bind, Option.bind_some]
  by_cases hre : r = e
  · refine .inl ⟨hre ▸ hskip, ?_⟩
    simp [hre, h.nul]
  · obtain ⟨c, hc, hc0⟩ := h.body r h1 (by omega)
    have hnot := hstop.resolve_left hre
    obtain ⟨r', hr', h3, h4, hbody, hend⟩ := spanLoop_spec hd false (h.tail h1 h2)
    have hlt : r < r' := by
      rcases Nat.lt_or_eq_of_le h3 with h5 | rfl
      · exact h5
      · obtain ⟨c', hc', hm'⟩ := hnot
        obtain ⟨c'', hc'', hm''⟩ := hend.resolve_left hre
        rw [hc'] at hc''
        simp_all
    refine .inr ⟨⟨r, r'⟩, ⟨⟨h1, hskip⟩, hlt, ⟨h4, hbody⟩, hend.imp id (by simp)⟩, ?_⟩
    simp only [hc, Option.bind_some, if_neg hc0, hr']
    by_cases hre' : r' = e
    · simp [hre', h.nul, Token.resume, set_self h.nul]
    · obtain ⟨c', hc', hc0'⟩ := h.body r' (by omega) (by omega)
      simp [hc', hc0', Token.resume, hre']

/-! ## A run of calls -/

theorem StringAt.after {b : List UInt8} {delim : List UInt8} {q e : Nat} {k : Token} (h : StringAt b q e)
    (hk : IsToken b delim e q k) : StringAt (b.set k.stop 0) (k.resume e) e := by
  have h1 := hk.skipped.1
  have h2 := hk.nonempty
  have h3 := hk.inside.1
  rw [Token.resume]
  split
  · next hs => rw [hs, set_self h.nul]; exact h.tail h.le (Nat.le_refl e)
  · next hs =>
    refine ⟨by omega, ?_, fun i h4 h5 => ?_⟩
    · rw [List.getElem?_set_ne hs]; exact h.nul
    · rw [List.getElem?_set_ne (by omega)]; exact h.body i (by omega) h5

/-- Every position from `q` on reads the same in both. -/
def SameFrom (b b' : List UInt8) (q : Nat) : Prop := ∀ i, q ≤ i → b'[i]? = b[i]?

theorem Spans.same {b b' delim : List UInt8} {inside : Bool} {lo hi q : Nat} (h : Spans b' delim inside lo hi)
    (hs : SameFrom b b' q) (hq : q ≤ lo) : Spans b delim inside lo hi := by
  intro i h1 h2
  rw [← hs i (by omega)]
  exact h i h1 h2

theorem IsToken.same {b b' delim : List UInt8} {e q : Nat} {k : Token} (h : IsToken b' delim e q k)
    (hs : SameFrom b b' q) : IsToken b delim e q k := by
  have h1 := h.skipped.1
  have h2 := h.nonempty
  refine ⟨⟨h1, h.skipped.2.same hs (Nat.le_refl q)⟩, h2, ⟨h.inside.1, h.inside.2.same hs h1⟩, h.maximal.imp id ?_⟩
  rw [hs _ (by omega)]
  exact id

theorem Divided.same {b b' : List UInt8} {e : Nat} (ds : List (List UInt8)) {q : Nat} {ks : List (Option Token)}
    (h : Divided b' e q ds ks) (hs : SameFrom b b' q) (hq : q ≤ e) : Divided b e q ds ks := by
  induction ds generalizing q ks with
  | nil => cases ks with
    | nil => trivial
    | cons k ks => exact h.elim
  | cons d ds ih =>
    rcases ks with - | ⟨- | k, ks⟩
    · exact h.elim
    · exact ⟨Spans.same h.1 hs (Nat.le_refl q), ih h.2 (fun i hi => hs i (by omega)) (Nat.le_refl e)⟩
    · have h1 := h.1.skipped.1
      have h2 := h.1.nonempty
      have h3 := h.1.inside.1
      have hr : q ≤ k.resume e ∧ k.resume e ≤ e := by rw [Token.resume]; split <;> omega
      exact ⟨h.1.same hs, ih h.2 (fun i hi => hs i (by omega)) hr.2⟩

/-- The array after tokens were cut off in it. -/
def cut (b : List UInt8) (ks : List Token) : List UInt8 := ks.foldl (fun b k => b.set k.stop 0) b

theorem strtokCalls_cons {t t' t'' : Tokenizer} {str token : Option Nat} {delim : List UInt8}
    {calls : List (Option Nat × List UInt8)} {tokens : List (Option Nat)} (h : strtok t str delim = some (token, t'))
    (h' : strtokCalls t' calls = some (tokens, t'')) :
    strtokCalls t ((str, delim) :: calls) = some (token :: tokens, t'') := by
  simp [strtokCalls, h, h']

theorem strtokCalls_spec {delims : List (List UInt8)} (hd : ∀ d ∈ delims, 0 ∈ d) {b : List UInt8} {q e : Nat}
    (h : StringAt b q e) :
    ∃ ks next, Divided b e q delims ks ∧ strtokCalls ⟨b, some q⟩ (delims.map (none, ·)) =
      some (ks.map (Option.map Token.start), ⟨cut b ks.reduceOption, next⟩) := by
  induction delims generalizing b q with
  | nil => exact ⟨[], some q, trivial, rfl⟩
  | cons d ds ih =>
    have hd' := List.forall_mem_cons.1 hd
    rcases strtok_spec ⟨b, some q⟩ none hd'.1 rfl h with ⟨hno, hcall⟩ | ⟨k, hk, hcall⟩
    · obtain ⟨ks, next, hks, hrun⟩ := ih hd'.2 (h.tail h.le (Nat.le_refl e))
      exact ⟨none :: ks, next, ⟨hno, hks⟩, strtokCalls_cons hcall hrun⟩
    · obtain ⟨ks, next, hks, hrun⟩ := ih hd'.2 (h.after hk)
      have hsame : SameFrom b (b.set k.stop 0) (k.resume e) := by
        rw [Token.resume]
        split
        · next hs => rw [hs, set_self h.nul]; exact fun _ _ => rfl
        · exact fun i hi => List.getElem?_set_ne (by omega)
      exact ⟨some k :: ks, next, ⟨hk, hks.same ds hsame (h.after hk).le⟩, strtokCalls_cons hcall hrun⟩

/-- A null argument continues where a given one would start. -/
theorem strtok_resumes (t : Tokenizer) (str : Option Nat) (delim : List UInt8) :
    strtok t str delim = strtok ⟨t.buffer, str.or t.next⟩ none delim := by
  cases str <;> rfl

theorem strtokCalls_resumes (t : Tokenizer) (str : Option Nat) (delim : List UInt8)
    (calls : List (Option Nat × List UInt8)) :
    strtokCalls t ((str, delim) :: calls) = strtokCalls ⟨t.buffer, str.or t.next⟩ ((none, delim) :: calls) := by
  rw [strtokCalls, strtokCalls, strtok_resumes]

/-- Before any string was given, every continuation returns null. -/
theorem strtokCalls_null (b : List UInt8) (delims : List (List UInt8)) :
    strtokCalls ⟨b, none⟩ (delims.map (none, ·)) = some (List.replicate delims.length none, ⟨b, none⟩) := by
  induction delims with
  | nil => rfl
  | cons d ds ih => exact strtokCalls_cons rfl ih

/-! ## What a division looks like -/

/-- At the end of the string there is no token, with any set. -/
theorem Divided.ended {b : List UInt8} {e : Nat} {ds : List (List UInt8)} {ks : List (Option Token)}
    (h : Divided b e e ds ks) : ks = List.replicate ds.length none := by
  induction ds generalizing ks with
  | nil => cases ks with
    | nil => rfl
    | cons k ks => exact h.elim
  | cons d ds ih =>
    rcases ks with - | ⟨- | k, ks⟩
    · exact h.elim
    · rw [List.length_cons, List.replicate_succ, ih h.2]
    · have h1 := h.1.skipped.1
      have h2 := h.1.nonempty
      have h3 := h.1.inside.1
      omega

/-- The tokens come first, and then nothing else; they lie in order, apart from each
other, and behind `q`. -/
theorem Divided.shape {b : List UInt8} {e : Nat} {ds : List (List UInt8)} {q : Nat} {ks : List (Option Token)}
    (h : Divided b e q ds ks) :
    ∃ (ts : List Token) (n : Nat), ks = ts.map some ++ List.replicate n none ∧
      ts.Pairwise (fun k k' => k.stop < k'.start) ∧ ∀ k ∈ ts, q ≤ k.start ∧ k.start < k.stop ∧ k.stop ≤ e := by
  induction ds generalizing q ks with
  | nil => cases ks with
    | nil => exact ⟨[], 0, rfl, List.Pairwise.nil, by simp⟩
    | cons k ks => exact h.elim
  | cons d ds ih =>
    rcases ks with - | ⟨- | k, ks⟩
    · exact h.elim
    · exact ⟨[], ds.length + 1, by rw [h.2.ended]; rfl, List.Pairwise.nil, by simp⟩
    · obtain ⟨ts, n, hks, hord, hin⟩ := ih h.2
      have h1 := h.1.skipped.1
      have h2 := h.1.nonempty
      have h3 := h.1.inside.1
      have hr : k.stop ≤ k.resume e ∧ (k.stop < k.resume e ∨ k.resume e = e) := by
        rw [Token.resume]
        split <;> omega
      have hlater : ∀ k' ∈ ts, k.stop < k'.start := fun k' hk' => by have := hin k' hk'; omega
      refine ⟨k :: ts, n, by rw [hks]; rfl, List.pairwise_cons.2 ⟨hlater, hord⟩, ?_⟩
      rw [List.forall_mem_cons]
      exact ⟨⟨h1, h2, h3⟩, fun k' hk' => by have := hin k' hk'; omega⟩

/-- Two tokens in order are apart or the same. -/
theorem apart {ts : List Token} (h : ts.Pairwise (fun k k' => k.stop < k'.start)) {k k' : Token} (hk : k ∈ ts)
    (hk' : k' ∈ ts) : k.stop < k'.start ∨ k'.stop < k.start ∨ k = k' := by
  induction ts with
  | nil => simp at hk
  | cons x ts ih =>
    have h' := List.pairwise_cons.1 h
    rcases List.mem_cons.1 hk with rfl | hk1 <;> rcases List.mem_cons.1 hk' with rfl | hk2
    · exact .inr (.inr rfl)
    · exact .inl (h'.1 k' hk2)
    · exact .inr (.inl (h'.1 k hk1))
    · exact ih h'.2 hk1 hk2

theorem cut_get (b : List UInt8) (ts : List Token) (i : Nat) (h : ∀ k ∈ ts, k.stop < b.length) :
    (cut b ts)[i]? = if ∃ k ∈ ts, k.stop = i then some 0 else b[i]? := by
  induction ts generalizing b with
  | nil => simp [cut]
  | cons k ts ih =>
    have h' := List.forall_mem_cons.1 h
    rw [cut, List.foldl_cons, ← cut, ih _ (by simpa using h'.2)]
    by_cases hi : k.stop = i
    · subst hi
      simp [List.getElem?_set_self h'.1]
    · rw [List.getElem?_set_ne hi]
      simp [hi]

/-- Over a whole run: the calls return the starts of the tokens, then null. The
tokens lie in order and apart. At the end each is a string of its own with the
bytes it had, and nothing but a byte behind a token was overwritten. Without a
string to divide every call returns null. -/
theorem strtok_run (t : Tokenizer) (str : Option Nat) (delim : List UInt8) (delims : List (List UInt8))
    (hd : ∀ d ∈ delim :: delims, 0 ∈ d) :
    (str.or t.next = none →
      strtokCalls t ((str, delim) :: delims.map (none, ·)) = some (List.replicate (delims.length + 1) none, t)) ∧
    ∀ q e, str.or t.next = some q → StringAt t.buffer q e →
      ∃ (ts : List Token) (n : Nat) (t' : Tokenizer),
        strtokCalls t ((str, delim) :: delims.map (none, ·)) =
          some (ts.map (fun k => some k.start) ++ List.replicate n none, t') ∧
        Divided t.buffer e q (delim :: delims) (ts.map some ++ List.replicate n none) ∧
        ts.Pairwise (fun k k' => k.stop < k'.start) ∧
        (∀ k ∈ ts, StringAt t'.buffer k.start k.stop ∧
          ∀ i, k.start ≤ i → i < k.stop → t'.buffer[i]? = t.buffer[i]?) ∧
        ∀ i, t'.buffer[i]? = t.buffer[i]? ∨ ∃ k ∈ ts, i = k.stop ∧ i < e := by
  rw [strtokCalls_resumes]
  constructor
  · intro hn
    have hnext : t = ⟨t.buffer, none⟩ := by
      rw [Option.or_eq_none_iff] at hn
      rw [← hn.2]
    rw [hn]
    exact (strtokCalls_null t.buffer (delim :: delims)).trans (by rw [← hnext]; rfl)
  · intro q e hq h
    obtain ⟨ks, next, hks, hrun⟩ := strtokCalls_spec hd h
    obtain ⟨ts, n, rfl, hord, hin⟩ := hks.shape
    have hcut : (ts.map some ++ List.replicate n none).reduceOption = ts := by
      simp [List.reduceOption]
    rw [hcut] at hrun
    have hlen : ∀ k ∈ ts, k.stop < t.buffer.length := fun k hk =>
      Nat.lt_of_le_of_lt (hin k hk).2.2 (List.getElem?_eq_some_iff.1 h.nul).1
    have hget := fun i => cut_get t.buffer ts i hlen
    rw [hq]
    refine ⟨ts, n, ⟨cut t.buffer ts, next⟩, hrun.trans ?_, hks, hord, fun k hk => ?_, fun i => ?_⟩
    · simp [Function.comp_def]
    · -- no token ends inside another
      have hkept : ∀ i, k.start ≤ i → i < k.stop → (cut t.buffer ts)[i]? = t.buffer[i]? := by
        intro i h1 h2
        rw [hget, if_neg]
        rintro ⟨k', hk', rfl⟩
        have h3 := (hin k' hk').2.1
        rcases apart hord hk hk' with h4 | h4 | rfl <;> omega
      refine ⟨⟨Nat.le_of_lt (hin k hk).2.1, ?_, fun i h1 h2 => ?_⟩, hkept⟩
      · rw [hget, if_pos ⟨k, hk, rfl⟩]
      · rw [hkept i h1 h2]
        have hk' := hin k hk
        exact h.body i (by omega) (by omega)
    · rw [hget]
      split
      · next hi =>
        obtain ⟨k, hk, rfl⟩ := hi
        rcases Nat.lt_or_eq_of_le (hin k hk).2.2 with h1 | h1
        · exact .inr ⟨k, hk, rfl, h1⟩
        · exact .inl (by rw [h1, h.nul])
      · exact .inl rfl

/-- `"a,b;c"`, first with the set `","` and then with `";"`. -/
theorem strtok_run_changing :
    ∃ (ts : List Token) (n : Nat) (t' : Tokenizer),
      strtokCalls ⟨[97, 44, 98, 59, 99, 0], none⟩ [(some 0, [44, 0]), (none, [59, 0])] =
        some (ts.map (fun k => some k.start) ++ List.replicate n none, t') ∧
      Divided [97, 44, 98, 59, 99, 0] 5 0 [[44, 0], [59, 0]] (ts.map some ++ List.replicate n none) := by
  obtain ⟨ts, n, t', h1, h2, -⟩ := (strtok_run ⟨[97, 44, 98, 59, 99, 0], none⟩ (some 0) [44, 0] [[59, 0]] (by decide)).2
    0 5 rfl ⟨by decide, rfl, by decide⟩
  exact ⟨ts, n, t', h1, h2⟩

end MiniLibc.Str
