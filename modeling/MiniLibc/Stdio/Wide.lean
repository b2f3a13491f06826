import MiniLibc.Stdio.Stream
import MiniLibc.Wchar.Restart
/-!
# Wide characters of a stream

The input half of `src/wchar/wide_stdio.c`. A wide stream reads a character byte
by byte through the decoder and pushes one back as the bytes of its encoding.
-/
open MiniLibc.Memory MiniLibc.Wchar

namespace MiniLibc.Stdio

variable {κ : Type} [Kernel κ]

/-- `wint_t`. -/
abbrev Wint := UInt32

/-- `WEOF`. -/
def weof : Wint := 0xffffffff

/-- `(wchar_t)wc`. -/
def toWchar (wc : Wint) : Int := (wc.toNat : Int).bmod (2 ^ 32)

/-- `(wint_t)wc`. -/
def toWint (wc : Int) : Wint := .ofNat (wc % 2 ^ 32).toNat

theorem bmod_emod_word {x : Int} (h0 : 0 ≤ x) (h : x < 2 ^ 32) : x.bmod (2 ^ 32) % 2 ^ 32 = x := by
  rw [show (2 ^ 32 : Int) = ((2 ^ 32 : Nat) : Int) by norm_num, Int.bmod_emod]
  exact Int.emod_eq_of_lt h0 (by simpa using h)

theorem toWint_toWchar (wc : Wint) : toWint (toWchar wc) = wc := by
  have hlt : (wc.toNat : Int) < 2 ^ 32 := by
    have := wc.toNat_lt
    norm_num
    omega
  unfold toWint toWchar
  rw [bmod_emod_word (Int.natCast_nonneg _) hlt, Int.toNat_natCast]
  exact UInt32.ofNat_toNat

/-- `wide_require_readable`. -/
def wideRequireReadable (w : World κ) (localeUtf8 : Bool) : Bool × World κ :=
  match requireWide w localeUtf8 with
  | (false, w) => (false, w)
  | (true, w) =>
    if !w.file.mode.readable ∨ w.file.state.writeNeedsSync then (false, markError w einval) else (true, w)

/-- The loop of `__mini_wide_read_character_unlocked`. `none` is `WEOF`. -/
def wideReadLoop (utf8 : Bool) : (fuel : Nat) → MbState → World κ → Option Wint × World κ
  | 0, _, w => (none, w)
  | fuel + 1, state, w =>
    match stdioRead w 1 with
    | ([byte], w) =>
      match mbrtowcMode (some [byte]) state utf8 with
      | ⟨.eilseq, _, _⟩ => (none, markError w eilseq)
      | ⟨.incomplete, _, state⟩ => wideReadLoop utf8 fuel state w
      | ⟨.length _, wc, _⟩ => (some (toWint (wc.getD 0)), w)
    | (_, w) => if !mbsinit state then (none, markError w eilseq) else (none, w)

/-- The bound is never met: no character makes the loop wait for more bytes. -/
theorem wideReadLoop_bound {utf8 : Bool} {fuel : Nat} {state : MbState} (h : patience state ≤ fuel) (w : World κ) :
    wideReadLoop utf8 (fuel + 1) state w = wideReadLoop utf8 fuel state w := by
  induction fuel generalizing state w with
  | zero =>
    have : 0 < patience state := by
      unfold patience
      split <;> omega
    omega
  | succ fuel ih =>
    rw [wideReadLoop, wideReadLoop]
    obtain ⟨bytes, w1⟩ := stdioRead w 1
    match bytes with
    | [] => rfl
    | [byte] =>
      obtain ⟨⟨result, wc, next⟩, hd⟩ : ∃ d, mbrtowcMode (some [byte]) state utf8 = d := ⟨_, rfl⟩
      dsimp only
      rw [hd]
      cases result with
      | eilseq => rfl
      | length n => rfl
      | incomplete =>
        have := patience_lt hd
        exact ih (by omega) w1
    | _ :: _ :: _ => rfl

/-- `__mini_wide_read_character_unlocked`. No encoding has more than four bytes. -/
def wideReadCharacter (w : World κ) : Option Wint × World κ := wideReadLoop w.file.state.wideUtf8 4 {} w

/-- `fgetwc`. -/
def fgetwc (localeUtf8 : Bool) (w : World κ) : Option Wint × World κ :=
  match wideRequireReadable w localeUtf8 with
  | (false, w) => (none, w)
  | (true, w) => wideReadCharacter w

/-- The loop of `fgetws`, behind `length` characters: the characters it stores, and
whether the result stays what it was. -/
def fgetwsLoop : (room length : Nat) → World κ → List Wint × Bool × World κ
  | 0, _, w => ([], true, w)
  | room + 1, length, w =>
    match wideReadCharacter w with
    | (none, w) => ([], if w.file.state.eof then length ≠ 0 else false, w)
    | (some wc, w) =>
      if wc = 10 then ([wc], true, w)
      else
        let (line, ok, w) := fgetwsLoop room (length + 1) w
        (wc :: line, ok, w)

/-- `fgetws`: the characters stored before the terminator, and whether the result
is not null. -/
def fgetws (n : Int) (localeUtf8 : Bool) (w : World κ) : (List Wint × Bool) × World κ :=
  if n ≤ 0 then (([], false), markError w einval)
  else
    match wideRequireReadable w localeUtf8 with
    | (false, w) => (([], false), w)
    | (true, w) =>
      let (line, ok, w) := fgetwsLoop (n - 1).toNat 0 w
      ((line, ok), w)

/-- `__mini_wide_unget_character_unlocked`. -/
def wideUngetCharacter (wc : Wint) (w : World κ) : Option Wint × World κ :=
  if wc = weof then (none, markError w einval)
  else
    match wcrtombMode (toWchar wc) {} w.file.state.wideUtf8 with
    | (none, _) => (none, markError w eilseq)
    | (some bytes, _) =>
      match stdioPushback w bytes with
      | (false, w) => (none, w)
      | (true, w) => (some wc, w)

/-- `ungetwc`. -/
def ungetwc (wc : Wint) (localeUtf8 : Bool) (w : World κ) : Option Wint × World κ :=
  if wc = weof then (none, w)
  else
    match requireWide w localeUtf8 with
    | (false, w) => (none, w)
    | (true, w) => wideUngetCharacter wc w

end MiniLibc.Stdio
