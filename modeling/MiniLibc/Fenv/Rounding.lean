import Mathlib
import MiniLibc.Fenv.Environment
/-!
# Rounding in the environment

`rint` and its family read the mode and raise what they owe. A program may call them and
the functions of `<fenv.h>` in any order, and compute in between: what it sees is a mode,
a set of raised exceptions and the environments that it has saved.
-/

namespace MiniLibc.Fenv

open Math

/-! ## The source -/

def edom : Nat := 33

def erange : Nat := 34

/-- `mode_valid`, and the mode. -/
def modeOf (mode : BitVec 32) : Option RoundingMode :=
  if mode = feToNearest then some .toNearest
  else if mode = feDownward then some .downward
  else if mode = feUpward then some .upward
  else if mode = feTowardZero then some .towardZero
  else none

/-- `environment_failure` and `conversion_failure`, before they return. -/
def failure (error : Nat) (hw : Hardware) : Option (Nat × Hardware) :=
  (feraiseexcept feInvalid hw).map fun r => (error, r.2)

/-- `rint` and `rintf`. -/
def rintWith {α : Type} (round : α → RoundingMode → α × Bool) (x : α) (errno : Nat) (hw : Hardware) :
    Option (α × Nat × Hardware) :=
  match modeOf (fegetround hw) with
  | none => (failure edom hw).map fun failed => (x, failed)
  | some mode =>
    let (result, inexact) := round x mode
    if inexact then (feraiseexcept feInexact hw).map fun r => (result, errno, r.2)
    else some (result, errno, hw)

/-- `nearbyint` and `nearbyintf`. -/
def nearbyintWith {α : Type} (round : α → RoundingMode → α × Bool) (x : α) (errno : Nat) (hw : Hardware) :
    Option (α × Nat × Hardware) :=
  match modeOf (fegetround hw) with
  | none => (failure edom hw).map fun failed => (x, failed)
  | some mode => some ((round x mode).1, errno, hw)

def rint : Binary64 → Nat → Hardware → Option (Binary64 × Nat × Hardware) := rintWith roundDoubleMode

def rintf : Binary32 → Nat → Hardware → Option (Binary32 × Nat × Hardware) := rintWith roundFloatMode

def nearbyint : Binary64 → Nat → Hardware → Option (Binary64 × Nat × Hardware) := nearbyintWith roundDoubleMode

def nearbyintf : Binary32 → Nat → Hardware → Option (Binary32 × Nat × Hardware) := nearbyintWith roundFloatMode

/-- `MINI_LONG_MIN` -/
def longMin : Int := -9223372036854775808

/-- `lrint` and `llrint`, with `rounded_double_to_i64`. -/
def lrint (x : Binary64) (errno : Nat) (hw : Hardware) : Option (Int × Nat × Hardware) :=
  match roundedDoubleToI64 x (modeOf (fegetround hw)) with
  | .error .domain => (failure edom hw).map fun failed => (longMin, failed)
  | .error .range => (failure erange hw).map fun failed => (longMin, failed)
  | .ok (result, inexact) =>
    if inexact then (feraiseexcept feInexact hw).map fun r => (result, errno, r.2)
    else some (result, errno, hw)

/-! ## Programs -/

/-- An `fenv_t` that a program may pass. -/
inductive EnvPointer where
  | null
  | default
  | object (n : Nat)

inductive Op where
  /-- Instructions that raise exceptions, on either side. -/
  | compute (x87 sse : BitVec 6)
  | fegetenv (envp : Option Nat)
  | fesetenv (envp : EnvPointer)
  | fetestexcept (excepts : BitVec 32)
  | feclearexcept (excepts : BitVec 32)
  | feraiseexcept (excepts : BitVec 32)
  | fegetexceptflag (flagp : Option Nat) (excepts : BitVec 32)
  | fesetexceptflag (flagp : Option Nat) (excepts : BitVec 32)
  | fegetround
  | fesetround (round : BitVec 32)
  | feholdexcept (envp : Option Nat)
  | feupdateenv (envp : EnvPointer)
  | rint (x : Binary64)
  | rintf (x : Binary32)
  | nearbyint (x : Binary64)
  | nearbyintf (x : Binary32)
  | lrint (x : Binary64)

inductive Result where
  | nothing
  | int (v : BitVec 32)
  | double (x : Binary64)
  | float (x : Binary32)
  | long (k : Int)

/-- The registers, `errno`, and the objects of the program. -/
structure Machine where
  hw : Hardware
  errno : Nat
  envs : Nat → FenvT
  flags : Nat → BitVec 32

/-- Sticky exceptions. A computation runs on whatever it raises, as it does when that
is masked. -/
def compute (x87 sse : BitVec 6) (hw : Hardware) : Hardware :=
  { hw with status := hw.status ||| x87.setWidth 16, mxcsr := hw.mxcsr ||| sse.setWidth 32 }

namespace Machine

def env (m : Machine) : EnvPointer → Option FenvT
  | .null => none
  | .default => some feDflEnv
  | .object n => some (m.envs n)

/-- The registers after a call. -/
def returns (m : Machine) : Option (BitVec 32 × Hardware) → Option (Result × Machine) :=
  Option.map fun r => (.int r.1, { m with hw := r.2 })

def rounds {α : Type} (m : Machine) (wrap : α → Result) : Option (α × Nat × Hardware) → Option (Result × Machine) :=
  Option.map fun r => (wrap r.1, { m with errno := r.2.1, hw := r.2.2 })

/-- `none` if the call faults. -/
def call (m : Machine) : Op → Option (Result × Machine)
  | .compute x87 sse => some (.nothing, { m with hw := compute x87 sse m.hw })
  | .fegetenv none => some (.int (Fenv.fegetenv false m.hw).1, m)
  | .fegetenv (some n) =>
    let (r, stored) := Fenv.fegetenv true m.hw
    some (.int r, { m with envs := Function.update m.envs n (stored.getD (m.envs n)) })
  | .fesetenv envp => m.returns (Fenv.fesetenv (m.env envp) m.hw)
  | .fetestexcept excepts => some (.int (Fenv.fetestexcept excepts m.hw), m)
  | .feclearexcept excepts => m.returns (Fenv.feclearexcept excepts m.hw)
  | .feraiseexcept excepts => m.returns (Fenv.feraiseexcept excepts m.hw)
  | .fegetexceptflag none excepts => some (.int (Fenv.fegetexceptflag false excepts m.hw).1, m)
  | .fegetexceptflag (some n) excepts =>
    let (r, stored) := Fenv.fegetexceptflag true excepts m.hw
    some (.int r, { m with flags := Function.update m.flags n (stored.getD (m.flags n)) })
  | .fesetexceptflag flagp excepts => m.returns (Fenv.fesetexceptflag (flagp.map m.flags) excepts m.hw)
  | .fegetround => some (.int (Fenv.fegetround m.hw), m)
  | .fesetround round => m.returns (Fenv.fesetround round m.hw)
  | .feholdexcept none => (Fenv.feholdexcept false m.hw).map fun r => (.int r.1, { m with hw := r.2.2 })
  | .feholdexcept (some n) =>
    (Fenv.feholdexcept true m.hw).map fun r =>
      (.int r.1, { m with hw := r.2.2, envs := Function.update m.envs n (r.2.1.getD (m.envs n)) })
  | .feupdateenv envp => m.returns (Fenv.feupdateenv (m.env envp) m.hw)
  | .rint x => m.rounds .double (Fenv.rint x m.errno m.hw)
  | .rintf x => m.rounds .float (Fenv.rintf x m.errno m.hw)
  | .nearbyint x => m.rounds .double (Fenv.nearbyint x m.errno m.hw)
  | .nearbyintf x => m.rounds .float (Fenv.nearbyintf x m.errno m.hw)
  | .lrint x => m.rounds .long (Fenv.lrint x m.errno m.hw)

/-- The results of a run, and its last state. -/
def run (m : Machine) : List Op → Option (List Result × Machine)
  | [] => some ([], m)
  | op :: ops => do
    let (r, m) ← m.call op
    let (rs, m) ← m.run ops
    return (r :: rs, m)

end Machine

/-! ## What a program sees -/

structure Program where
  now : Environment
  errno : Nat
  envs : Nat → Environment
  flags : Nat → Set FeException

namespace Program

def env (p : Program) : EnvPointer → Option Environment
  | .null => none
  | .default => some .default
  | .object n => some (p.envs n)

def raise (p : Program) (raised : Set FeException) : Program :=
  { p with now := { p.now with raised := p.now.raised ∪ raised } }

def inexact (p : Program) (changed : Bool) : Program := if changed then p.raise {.inexact} else p

def after (p : Program) : Op → Program
  | .compute x87 sse => p.raise (flagsOf x87 ∪ flagsOf sse)
  | .fegetenv none => p
  | .fegetenv (some n) => { p with envs := Function.update p.envs n p.now }
  | .fesetenv envp => { p with now := (p.env envp).getD p.now }
  | .fetestexcept _ => p
  | .feclearexcept excepts => { p with now := { p.now with raised := p.now.raised \ flagsOf excepts } }
  | .feraiseexcept excepts => p.raise (flagsOf excepts)
  | .fegetexceptflag none _ => p
  | .fegetexceptflag (some n) excepts =>
    { p with flags := Function.update p.flags n (p.now.raised ∩ flagsOf excepts) }
  | .fesetexceptflag none _ => p
  | .fesetexceptflag (some n) excepts =>
    { p with now := { p.now with
        raised := (p.now.raised \ flagsOf excepts) ∪ (p.flags n ∩ flagsOf excepts) } }
  | .fegetround => p
  | .fesetround round => { p with now := { p.now with rounding := (modeOf round).getD p.now.rounding } }
  | .feholdexcept none => p
  | .feholdexcept (some n) =>
    { p with now := p.now.held, envs := Function.update p.envs n p.now }
  | .feupdateenv envp =>
    match p.env envp with
    | none => p
    | some saved => { p with now := { saved with raised := saved.raised ∪ p.now.raised } }
  | .rint x => p.inexact (roundDoubleMode x p.now.rounding).2
  | .rintf x => p.inexact (roundFloatMode x p.now.rounding).2
  | .nearbyint _ => p
  | .nearbyintf _ => p
  | .lrint x =>
    match roundedDoubleToI64 x (some p.now.rounding) with
    | .error .domain => { p.raise {.invalid} with errno := edom }
    | .error .range => { p.raise {.invalid} with errno := erange }
    | .ok (_, changed) => p.inexact changed

/-- `0`, or `-1` for a null pointer. -/
def status (given : Bool) : Result := .int (if given then 0 else -1)

def Returns (p : Program) : Op → Result → Prop
  | .compute _ _, r => r = .nothing
  | .fegetenv envp, r => r = status envp.isSome
  | .fesetenv envp, r => r = status (p.env envp).isSome
  | .fetestexcept excepts, r => ∃ v, r = .int v ∧ flagsOf v = p.now.raised ∩ flagsOf excepts ∧ publicMask v = v
  | .feclearexcept _, r => r = .int 0
  | .feraiseexcept _, r => r = .int 0
  | .fegetexceptflag flagp _, r => r = status flagp.isSome
  | .fesetexceptflag flagp _, r => r = status flagp.isSome
  | .fegetround, r => r = .int (modeCode p.now.rounding)
  | .fesetround round, r => r = status (modeOf round).isSome
  | .feholdexcept envp, r => r = status envp.isSome
  | .feupdateenv envp, r => r = status (p.env envp).isSome
  | .rint x, r => r = .double (roundDoubleMode x p.now.rounding).1
  | .rintf x, r => r = .float (roundFloatMode x p.now.rounding).1
  | .nearbyint x, r => r = .double (roundDoubleMode x p.now.rounding).1
  | .nearbyintf x, r => r = .float (roundFloatMode x p.now.rounding).1
  | .lrint x, r =>
    match roundedDoubleToI64 x (some p.now.rounding) with
    | .error _ => r = .long longMin
    | .ok (k, _) => r = .long k

/-- The results of a run. -/
def RunReturns (p : Program) : List Op → List Result → Prop
  | [], rs => rs = []
  | op :: ops, rs => ∃ r rest, rs = r :: rest ∧ p.Returns op r ∧ (p.after op).RunReturns ops rest

end Program

/-! ## One call -/

theorem modeOf_modeCode (m : RoundingMode) : modeOf (modeCode m) = some m := by
  cases m <;> rfl

theorem modeOf_eq_some {round : BitVec 32} {m : RoundingMode} (h : modeOf round = some m) : round = modeCode m := by
  unfold modeOf at h
  split_ifs at h with h₁ h₂ h₃ h₄ <;> cases h
  · exact h₁
  · exact h₂
  · exact h₃
  · exact h₄

theorem modeOf_eq_none {round : BitVec 32} (h : modeOf round = none) (m : RoundingMode) : round ≠ modeCode m := by
  intro heq
  rw [heq, modeOf_modeCode] at h
  cases h

theorem flagsOf_feInvalid : flagsOf feInvalid = {.invalid} := by
  ext e
  cases e <;> simp [feInvalid, FeException.bit]

theorem flagsOf_feInexact : flagsOf feInexact = {.inexact} := by
  ext e
  cases e <;> simp [feInexact, FeException.bit]

section Calls

variable {hw : Hardware} {e : Environment}

theorem failure_spec (h : (fenvRead hw).Stands e) (error : Nat) :
    ∃ hw', failure error hw = some (error, hw') ∧
      (fenvRead hw').Stands { e with raised := e.raised ∪ {.invalid} } := by
  obtain ⟨hw', hraise, hstands⟩ := feraiseexcept_spec h feInvalid
  rw [flagsOf_feInvalid] at hstands
  exact ⟨hw', by rw [failure, hraise]; rfl, hstands⟩

theorem compute_spec (h : (fenvRead hw).Stands e) (x87 sse : BitVec 6) :
    (fenvRead (compute x87 sse hw)).Stands { e with raised := e.raised ∪ (flagsOf x87 ∪ flagsOf sse) } := by
  refine h.update (fun i hi => ?_) ?_
  · simp only [compute, fenvRead, BitVec.getLsbD_or, BitVec.getLsbD_setWidth, BitVec.getLsbD_of_ge sse i hi,
      Bool.and_false, Bool.or_false]
  · rw [h.raised_eq]
    ext f
    have := f.bit_lt
    have hlow : x87ExceptionMask.getLsbD f.bit = true := by
      cases f <;> rfl
    simp only [compute, fenvRead, Set.mem_union, mem_flagsOf, BitVec.getLsbD_or, BitVec.getLsbD_and,
      BitVec.getLsbD_setWidth, hlow, decide_eq_true (show f.bit < 16 by omega),
      decide_eq_true (show f.bit < 32 by omega)]
    grind

/-- `rint` and `rintf` add the exception, and nothing else, if they change the value. -/
theorem rintWith_spec {α : Type} (round : α → RoundingMode → α × Bool) (x : α) (errno : Nat)
    (h : (fenvRead hw).Stands e) :
    ∃ hw', rintWith round x errno hw = some ((round x e.rounding).1, errno, hw') ∧
      (fenvRead hw').Stands
        (if (round x e.rounding).2 then { e with raised := e.raised ∪ {.inexact} } else e) := by
  unfold rintWith
  rw [fegetround_spec h, modeOf_modeCode]
  dsimp only
  split
  · obtain ⟨hw', hraise, hstands⟩ := feraiseexcept_spec h feInexact
    rw [flagsOf_feInexact] at hstands
    exact ⟨hw', by rw [hraise]; rfl, hstands⟩
  · exact ⟨hw, rfl, h⟩

theorem nearbyintWith_spec {α : Type} (round : α → RoundingMode → α × Bool) (x : α) (errno : Nat)
    (h : (fenvRead hw).Stands e) : nearbyintWith round x errno hw = some ((round x e.rounding).1, errno, hw) := by
  unfold nearbyintWith
  rw [fegetround_spec h, modeOf_modeCode]

end Calls

/-- The registers and every object stand for what the program sees. -/
structure Represents (m : Machine) (p : Program) : Prop where
  now : (fenvRead m.hw).Stands p.now
  errno : m.errno = p.errno
  envs : ∀ n, (m.envs n).Stands (p.envs n)
  flags : ∀ n, flagsOf (m.flags n) = p.flags n

namespace Represents

variable {m : Machine} {p : Program}

theorem withHw (h : Represents m p) {hw : Hardware} {e : Environment} (hw' : (fenvRead hw).Stands e) :
    Represents { m with hw := hw } { p with now := e } :=
  ⟨hw', h.errno, h.envs, h.flags⟩

theorem withErrno (h : Represents m p) (errno : Nat) : Represents { m with errno } { p with errno } :=
  ⟨h.now, rfl, h.envs, h.flags⟩

theorem withEnv (h : Represents m p) (n : Nat) {env : FenvT} {e : Environment} (henv : env.Stands e) :
    Represents { m with envs := Function.update m.envs n env } { p with envs := Function.update p.envs n e } := by
  refine ⟨h.now, h.errno, fun k => ?_, h.flags⟩
  by_cases hk : k = n
  · subst hk
    simpa using henv
  · simpa [hk] using h.envs k

theorem withFlags (h : Represents m p) (n : Nat) {flags : BitVec 32} {raised : Set FeException}
    (hflags : flagsOf flags = raised) :
    Represents { m with flags := Function.update m.flags n flags }
      { p with flags := Function.update p.flags n raised } := by
  refine ⟨h.now, h.errno, h.envs, fun k => ?_⟩
  by_cases hk : k = n
  · subst hk
    simpa using hflags
  · simpa [hk] using h.flags k

/-- The environment at a pointer. -/
theorem env_cases (h : Represents m p) (envp : EnvPointer) :
    (m.env envp = none ∧ p.env envp = none) ∨
      ∃ env e, m.env envp = some env ∧ p.env envp = some e ∧ env.Stands e := by
  cases envp with
  | null => exact .inl ⟨rfl, rfl⟩
  | default => exact .inr ⟨_, _, rfl, rfl, feDflEnv_stands⟩
  | object n => exact .inr ⟨_, _, rfl, rfl, h.envs n⟩

end Represents

/-! ## Runs -/

namespace Represents

variable {m : Machine} {p : Program}

theorem inexact (h : Represents m p) {hw : Hardware} {changed : Bool}
    (hw' : (fenvRead hw).Stands (if changed then { p.now with raised := p.now.raised ∪ {.inexact} } else p.now)) :
    Represents { m with hw := hw } (p.inexact changed) := by
  cases changed with
  | false => exact h.withHw hw'
  | true => exact h.withHw hw'

theorem rounds {α : Type} (wrap : α → Result) {x : α} {hw : Hardware} {p' : Program}
    {r : Option (α × Nat × Hardware)} (hr : r = some (x, m.errno, hw)) (hp : Represents { m with hw := hw } p') :
    ∃ m', m.rounds wrap r = some (wrap x, m') ∧ Represents m' p' := by
  subst hr
  exact ⟨_, rfl, hp⟩

/-- A call does to the program's view what it says. -/
theorem call (h : Represents m p) (op : Op) :
    ∃ r m', m.call op = some (r, m') ∧ p.Returns op r ∧ Represents m' (p.after op) := by
  cases op with
  | compute x87 sse => exact ⟨_, _, rfl, rfl, h.withHw (compute_spec h.now x87 sse)⟩
  | fegetenv envp =>
    cases envp with
    | none => exact ⟨_, _, rfl, rfl, h⟩
    | some n => exact ⟨_, _, rfl, rfl, h.withEnv n h.now⟩
  | fesetenv envp =>
    rcases h.env_cases envp with ⟨hm, hp⟩ | ⟨env, e, hm, hp, hstands⟩
    · refine ⟨.int (-1), m, by simp [Machine.call, hm, fesetenv, Machine.returns], ?_, ?_⟩
      · simp [Program.Returns, Program.status, hp]
      · simpa [Program.after, hp] using h
    · obtain ⟨hw', hset, hnow⟩ := fesetenv_spec hstands m.hw
      refine ⟨.int 0, { m with hw := hw' }, by simp [Machine.call, hm, hset, Machine.returns], ?_, ?_⟩
      · simp [Program.Returns, Program.status, hp]
      · simpa [Program.after, hp] using h.withHw hnow
  | fetestexcept excepts =>
    obtain ⟨hflags, hpublic⟩ := fetestexcept_spec h.now excepts
    exact ⟨_, _, rfl, ⟨_, rfl, hflags, hpublic⟩, h⟩
  | feclearexcept excepts =>
    obtain ⟨hw', hclear, hnow⟩ := feclearexcept_spec h.now excepts
    exact ⟨.int 0, _, by simp [Machine.call, hclear, Machine.returns], rfl, h.withHw hnow⟩
  | feraiseexcept excepts =>
    obtain ⟨hw', hraise, hnow⟩ := feraiseexcept_spec h.now excepts
    exact ⟨.int 0, _, by simp [Machine.call, hraise, Machine.returns], rfl, h.withHw hnow⟩
  | fegetexceptflag flagp excepts =>
    cases flagp with
    | none => exact ⟨_, _, rfl, rfl, h⟩
    | some n => exact ⟨_, _, rfl, rfl, h.withFlags n (fetestexcept_spec h.now excepts).1⟩
  | fesetexceptflag flagp excepts =>
    cases flagp with
    | none => exact ⟨_, _, rfl, rfl, h⟩
    | some n =>
      obtain ⟨hw', hset, hnow⟩ := fesetexceptflag_spec h.now (m.flags n) excepts
      rw [h.flags n] at hnow
      exact ⟨.int 0, _, by simp [Machine.call, hset, Machine.returns], rfl, h.withHw hnow⟩
  | fegetround =>
    refine ⟨_, _, rfl, ?_, h⟩
    simp [Program.Returns, fegetround_spec h.now]
  | fesetround round =>
    cases hmode : modeOf round with
    | none =>
      have hrefused := fesetround_refused (modeOf_eq_none hmode) m.hw
      refine ⟨.int (-1), m, by simp [Machine.call, hrefused, Machine.returns], ?_, ?_⟩
      · simp [Program.Returns, Program.status, hmode]
      · simpa [Program.after, hmode] using h
    | some mode =>
      rw [modeOf_eq_some hmode]
      obtain ⟨hw', hset, hnow⟩ := fesetround_spec h.now mode
      refine ⟨.int 0, { m with hw := hw' }, by simp [Machine.call, hset, Machine.returns], ?_, ?_⟩
      · simp [Program.Returns, Program.status, modeOf_modeCode]
      · simpa [Program.after, modeOf_modeCode] using h.withHw hnow
  | feholdexcept envp =>
    cases envp with
    | none => exact ⟨_, _, rfl, rfl, h⟩
    | some n =>
      obtain ⟨hw', hhold, hnow⟩ := feholdexcept_spec h.now
      refine ⟨.int 0, { m with hw := hw', envs := Function.update m.envs n (fenvRead m.hw) },
        by simp [Machine.call, hhold], rfl, ?_⟩
      exact (h.withEnv n h.now).withHw hnow
  | feupdateenv envp =>
    rcases h.env_cases envp with ⟨hm, hp⟩ | ⟨env, e, hm, hp, hstands⟩
    · refine ⟨.int (-1), m, by simp [Machine.call, hm, feupdateenv, Machine.returns], ?_, ?_⟩
      · simp [Program.Returns, Program.status, hp]
      · simpa [Program.after, hp] using h
    · obtain ⟨hw', hupdate, hnow⟩ := feupdateenv_spec h.now hstands
      refine ⟨.int 0, { m with hw := hw' }, by simp [Machine.call, hm, hupdate, Machine.returns], ?_, ?_⟩
      · simp [Program.Returns, Program.status, hp]
      · simpa [Program.after, hp] using h.withHw hnow
  | rint x =>
    obtain ⟨hw', hrint, hnow⟩ := rintWith_spec roundDoubleMode x m.errno h.now
    obtain ⟨m', hm', hp'⟩ := rounds .double hrint (h.inexact hnow)
    exact ⟨_, m', hm', rfl, hp'⟩
  | rintf x =>
    obtain ⟨hw', hrint, hnow⟩ := rintWith_spec roundFloatMode x m.errno h.now
    obtain ⟨m', hm', hp'⟩ := rounds .float hrint (h.inexact hnow)
    exact ⟨_, m', hm', rfl, hp'⟩
  | nearbyint x =>
    obtain ⟨m', hm', hp'⟩ := rounds .double (nearbyintWith_spec roundDoubleMode x m.errno h.now) h
    exact ⟨_, m', hm', rfl, hp'⟩
  | nearbyintf x =>
    obtain ⟨m', hm', hp'⟩ := rounds .float (nearbyintWith_spec roundFloatMode x m.errno h.now) h
    exact ⟨_, m', hm', rfl, hp'⟩
  | lrint x =>
    have hmode : modeOf (fegetround m.hw) = some p.now.rounding := by
      rw [fegetround_spec h.now, modeOf_modeCode]
    simp only [Machine.call, Fenv.lrint, Program.Returns, Program.after, hmode]
    rcases roundedDoubleToI64 x (some p.now.rounding) with (_ | _) | ⟨k, changed⟩
    · obtain ⟨hw', hfail, hnow⟩ := failure_spec h.now edom
      exact ⟨.long longMin, _, by simp [hfail, Machine.rounds], rfl, (h.withHw hnow).withErrno edom⟩
    · obtain ⟨hw', hfail, hnow⟩ := failure_spec h.now erange
      exact ⟨.long longMin, _, by simp [hfail, Machine.rounds], rfl, (h.withHw hnow).withErrno erange⟩
    · cases changed with
      | false => exact ⟨.long k, _, rfl, rfl, h⟩
      | true =>
        obtain ⟨hw', hraise, hnow⟩ := feraiseexcept_spec h.now feInexact
        rw [flagsOf_feInexact] at hnow
        exact ⟨.long k, _, by simp [hraise, Machine.rounds], rfl, h.withHw hnow⟩

theorem run (h : Represents m p) (ops : List Op) :
    ∃ rs m', m.run ops = some (rs, m') ∧ p.RunReturns ops rs ∧ Represents m' (ops.foldl Program.after p) := by
  induction ops generalizing m p with
  | nil => exact ⟨[], m, rfl, rfl, h⟩
  | cons op ops ih =>
    obtain ⟨r, m₁, hcall, hreturns, h₁⟩ := h.call op
    obtain ⟨rs, m', hrun, hrest, h'⟩ := ih h₁
    exact ⟨r :: rs, m', by simp [Machine.run, hcall, hrun], ⟨r, rs, rfl, hreturns, hrest⟩, h'⟩

end Represents

/-- Every run of calls and computations, from registers and objects that stand for
something: no call faults, each returns what the program's view of the environment says,
and the view is what the registers show in the end. -/
theorem environment_runs {m : Machine} {p : Program} (h : Represents m p) (ops : List Op) :
    ∃ rs m', m.run ops = some (rs, m') ∧ p.RunReturns ops rs ∧ Represents m' (ops.foldl Program.after p) :=
  h.run ops

/-- A process at its start, with default environments in its objects. -/
def startMachine : Machine := ⟨⟨0x037f#16, 0#16, 0x1f80#32⟩, 0, fun _ => feDflEnv, fun _ => 0⟩

def startProgram : Program := ⟨.default, 0, fun _ => .default, fun _ => ∅⟩

theorem startMachine_represents : Represents startMachine startProgram where
  now := feDflEnv_stands
  errno := rfl
  envs := fun _ => feDflEnv_stands
  flags := fun _ => by
    ext e
    simp [startMachine, startProgram]

theorem environment_runs_upward :
    ∃ rs m', startMachine.run [.fesetround feUpward, .compute 0x01#6 0x10#6, .fegetround] = some (rs, m') ∧
      startProgram.RunReturns [.fesetround feUpward, .compute 0x01#6 0x10#6, .fegetround] rs ∧
      Represents m' ([Op.fesetround feUpward, .compute 0x01#6 0x10#6, .fegetround].foldl Program.after startProgram) :=
  environment_runs startMachine_represents _

/-! ## Holding and updating -/

/-- The object that a call stores an environment in. -/
def Op.stores : Op → Option Nat
  | .fegetenv envp => envp
  | .feholdexcept envp => envp
  | _ => none

def Op.installs : Op → Bool
  | .fesetenv _ => true
  | .feupdateenv _ => true
  | _ => false

namespace Program

variable {p : Program} {op : Op} {ops : List Op} {n : Nat}

@[simp] theorem inexact_envs (p : Program) (changed : Bool) : (p.inexact changed).envs = p.envs := by
  cases changed <;> rfl

@[simp] theorem inexact_nonstop (p : Program) (changed : Bool) : (p.inexact changed).now.Nonstop ↔ p.now.Nonstop := by
  cases changed <;> rfl

theorem after_envs (h : op.stores ≠ some n) : (p.after op).envs n = p.envs n := by
  have hother {k : Nat} {e : Environment} (hk : some k ≠ some n) : Function.update p.envs k e n = p.envs n :=
    Function.update_of_ne (fun heq => hk (by rw [heq])) _ _
  cases op with
  | fegetenv envp =>
    cases envp with
    | none => rfl
    | some k => exact hother h
  | feholdexcept envp =>
    cases envp with
    | none => rfl
    | some k => exact hother h
  | fegetexceptflag flagp _ => cases flagp <;> rfl
  | fesetexceptflag flagp _ => cases flagp <;> rfl
  | feupdateenv envp =>
    unfold after
    dsimp only
    split <;> rfl
  | rint x => simp [after]
  | rintf x => simp [after]
  | lrint x =>
    unfold after
    dsimp only
    split
    · rfl
    · rfl
    · rw [inexact_envs]
  | _ => rfl

theorem after_nonstop (h : op.installs = false) (hnonstop : p.now.Nonstop) : (p.after op).now.Nonstop := by
  cases op with
  | fesetenv envp => cases h
  | feupdateenv envp => cases h
  | fegetenv envp => cases envp <;> exact hnonstop
  | feholdexcept envp =>
    cases envp with
    | none => exact hnonstop
    | some k => exact p.now.held_nonstop
  | fegetexceptflag flagp _ => cases flagp <;> exact hnonstop
  | fesetexceptflag flagp _ => cases flagp <;> exact hnonstop
  | rint x => simpa [after] using hnonstop
  | rintf x => simpa [after] using hnonstop
  | lrint x =>
    unfold after
    dsimp only
    split
    · exact hnonstop
    · exact hnonstop
    · rwa [inexact_nonstop]
  | _ => exact hnonstop

theorem run_envs (h : ∀ op ∈ ops, op.stores ≠ some n) : (ops.foldl after p).envs n = p.envs n := by
  induction ops generalizing p with
  | nil => rfl
  | cons op ops ih =>
    rw [List.foldl_cons, ih fun op' hop => h op' (List.mem_cons_of_mem _ hop), after_envs (h op List.mem_cons_self)]

theorem run_nonstop (h : ∀ op ∈ ops, op.installs = false) (hnonstop : p.now.Nonstop) :
    (ops.foldl after p).now.Nonstop := by
  induction ops generalizing p with
  | nil => exact hnonstop
  | cons op ops ih =>
    exact ih (fun op' hop => h op' (List.mem_cons_of_mem _ hop)) (after_nonstop (h op List.mem_cons_self) hnonstop)

end Program

/-- What a program does between `feholdexcept` and `feupdateenv` with one object shows
afterwards in the exceptions raised, and nowhere else: they are those from before and
those that were raised in between, the rounding mode and the masks are those from
before; and in between nothing traps unless the program installs an environment of its
own. -/
theorem held_environment {m : Machine} {p : Program} (h : Represents m p) (n : Nat) (ops : List Op)
    (hkept : ∀ op ∈ ops, op.stores ≠ some n) :
    ∃ inside rs m' p', m.run (.feholdexcept (some n) :: ops) = some (rs, inside) ∧
      inside.run [.feupdateenv (.object n)] = some ([.int 0], m') ∧ Represents inside p' ∧
      Represents m' { p' with now := { p.now with raised := p.now.raised ∪ p'.now.raised } } ∧
      ((∀ op ∈ ops, op.installs = false) → p'.now.Nonstop) := by
  obtain ⟨rs, inside, hrun, -, hinside⟩ := h.run (.feholdexcept (some n) :: ops)
  obtain ⟨r, m', hcall, hreturns, hafter⟩ := hinside.call (.feupdateenv (.object n))
  rw [List.foldl_cons] at hinside hreturns hafter
  have hsaved : (ops.foldl Program.after (p.after (.feholdexcept (some n)))).envs n = p.now := by
    rw [Program.run_envs hkept]
    exact Function.update_self n p.now p.envs
  have hnonstop : (∀ op ∈ ops, op.installs = false) →
      (ops.foldl Program.after (p.after (.feholdexcept (some n)))).now.Nonstop :=
    fun hplain => Program.run_nonstop hplain p.now.held_nonstop
  generalize ops.foldl Program.after (p.after (.feholdexcept (some n))) = q at *
  have hzero : r = .int 0 := hreturns
  have hupdate : q.after (.feupdateenv (.object n)) =
      { q with now := { q.envs n with raised := (q.envs n).raised ∪ q.now.raised } } := rfl
  rw [hupdate, hsaved] at hafter
  exact ⟨inside, rs, m', q, hrun, by simp [Machine.run, hcall, hzero], hinside, hafter, hnonstop⟩

theorem held_environment_division :
    ∃ inside rs m' p', startMachine.run [.feholdexcept (some 0), .compute 0#6 0x04#6, .fesetround feDownward] =
        some (rs, inside) ∧
      inside.run [.feupdateenv (.object 0)] = some ([.int 0], m') ∧ Represents inside p' ∧
      Represents m' { p' with now := { startProgram.now with raised := startProgram.now.raised ∪ p'.now.raised } } ∧
      ((∀ op ∈ [Op.compute 0#6 0x04#6, .fesetround feDownward], op.installs = false) → p'.now.Nonstop) :=
  held_environment startMachine_represents 0 [.compute 0#6 0x04#6, .fesetround feDownward] (by simp [Op.stores])

end MiniLibc.Fenv
