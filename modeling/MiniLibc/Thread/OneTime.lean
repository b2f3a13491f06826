import MiniLibc.Thread.CallOnce
/-!
# A callback is called once

Every step of the threads is a step of each flag, or none. The lock word keeps
two threads from claiming one flag.
-/
open MiniLibc.FutexLock MiniLibc.Runs

namespace MiniLibc.Thread

namespace Once

variable {ι φ : Type} [DecidableEq ι] [DecidableEq φ]

/-! ## The view of a flag -/

/-- The role of a thread that will unlock, or has. -/
def roleAfter : OnceNext → Role
  | .callback => .starting
  | .wake => .finishing
  | .wait => .outside
  | .ret => .leaving

def roleOf : OncePc → Role
  | .exchange after _ | .lockWait after | .lockAsleep after => if after then .closing else .outside
  | .storeRunning => .claiming
  | .storeComplete => .closing
  | .unlock next | .unlockWake next => roleAfter next
  | .callback => .starting
  | .inCallback => .calling
  | .wake => .finishing
  | .asleep => .asleep
  | .returned => .leaving
  | .idle | .loop | .loadState | .wait => .outside

def flag (w : Once ι φ) (f : φ) : OnceFlag ι where
  state := w.state f
  role t := roleOf (w.pc (t, f))
  starts := w.starts f
  ends := w.ends f
  woken := w.woken f

theorem roleOf_unlocked (next : OnceNext) : roleOf (unlocked next) = roleAfter next := by cases next <;> rfl

theorem roleOf_claiming {p : OncePc} (h : roleOf p = .claiming) : p = .storeRunning := by
  cases p with
  | storeRunning => rfl
  | exchange after | lockWait after | lockAsleep after => cases after <;> cases h
  | unlock next | unlockWake next => cases next <;> cases h
  | _ => cases h

/-- A thread goes on at one flag. -/
theorem flag_goto (w : Once ι φ) (a : ι × φ) (p : OncePc) (f : φ) :
    (w.goto a p).flag f = if f = a.2 then (w.flag f).move a.1 (roleOf p) else w.flag f := by
  obtain ⟨t, g⟩ := a
  split
  · rename_i hf
    subst hf
    refine congrArg (fun role => OnceFlag.mk (w.state f) role (w.starts f) (w.ends f) (w.woken f)) ?_
    funext u
    show roleOf (Function.update w.pc (t, f) p (u, f)) = Function.update (w.flag f).role t (roleOf p) u
    rw [Function.update_apply, Function.update_apply]
    by_cases hu : u = t <;> simp [hu, flag]
  · rename_i hf
    refine congrArg (fun role => OnceFlag.mk (w.state f) role (w.starts f) (w.ends f) (w.woken f)) ?_
    funext u
    show roleOf (Function.update w.pc (t, g) p (u, f)) = _
    rw [Function.update_of_ne]
    intro he
    exact hf (congrArg Prod.snd he)

/-- A thread that keeps its role changes no flag. -/
theorem flag_stays {w w' : Once ι φ} {a : ι × φ} {p : OncePc} {f : φ} (hw : w'.flag f = w.flag f)
    (hp : roleOf (w.pc a) = roleOf p) : (w'.goto a p).flag f = w.flag f := by
  rw [flag_goto, hw]
  split
  · rename_i hf
    subst hf
    exact OnceFlag.move_self hp
  · rfl

/-- A thread that changes its role makes a step of its flag, and changes no
other. -/
theorem flag_moves {w w' : Once ι φ} {a : ι × φ} {p : OncePc} (f : φ) (hother : f ≠ a.2 → w'.flag f = w.flag f)
    (hs : OnceFlag.Step (w.flag a.2) ((w'.flag a.2).move a.1 (roleOf p))) :
    (w'.goto a p).flag f = w.flag f ∨ OnceFlag.Step (w.flag f) ((w'.goto a p).flag f) := by
  rw [flag_goto]
  split
  · rename_i hf
    subst hf
    exact .inr hs
  · exact .inl (hother ‹_›)

omit [DecidableEq ι] in
theorem flag_store (w : Once ι φ) (f : φ) (s : OnceState) : (w.store f s).flag f = { w.flag f with state := s } := by
  have hs : (w.store f s).state f = s := by simp [store]
  unfold flag
  rw [hs]
  rfl

omit [DecidableEq ι] in
theorem flag_store_ne (w : Once ι φ) {f g : φ} (h : f ≠ g) (s : OnceState) : (w.store g s).flag f = w.flag f := by
  have hs : (w.store g s).state f = w.state f := by simp [store, h]
  unfold flag
  rw [hs]
  rfl

omit [DecidableEq ι] in
theorem roleOf_wakeFlag (w : Once ι φ) (f : φ) (b : ι × φ) :
    roleOf ((w.wakeFlag f).pc b) = if b.2 = f ∧ roleOf (w.pc b) = .asleep then .outside else roleOf (w.pc b) := by
  have hasleep : roleOf (w.pc b) = .asleep ↔ w.pc b = .asleep := by
    generalize w.pc b = p
    cases p with
    | exchange after | lockWait after | lockAsleep after => cases after <;> simp [roleOf]
    | unlock next | unlockWake next => cases next <;> simp [roleOf, roleAfter]
    | _ => simp [roleOf]
  have hpc : (w.wakeFlag f).pc b = if b.2 = f ∧ w.pc b = .asleep then .loop else w.pc b := rfl
  rw [hpc]
  by_cases h : b.2 = f ∧ w.pc b = .asleep
  · rw [if_pos h, if_pos ⟨h.1, hasleep.2 h.2⟩]
    rfl
  · rw [if_neg h, if_neg]
    exact fun h' => h ⟨h'.1, hasleep.1 h'.2⟩

omit [DecidableEq ι] in
theorem flag_wakeFlag (w : Once ι φ) (f : φ) : (w.wakeFlag f).flag f = (w.flag f).wakeAll := by
  have hwoken : (w.wakeFlag f).woken f = true := by simp [wakeFlag]
  have hrole : (fun t => roleOf ((w.wakeFlag f).pc (t, f))) = (w.flag f).wakeAll.role := by
    funext t
    rw [roleOf_wakeFlag]
    by_cases h : roleOf (w.pc (t, f)) = .asleep <;> simp [flag, OnceFlag.wakeAll, h]
  unfold flag
  rw [hwoken, hrole]
  rfl

omit [DecidableEq ι] in
theorem flag_wakeFlag_ne (w : Once ι φ) {f g : φ} (h : f ≠ g) : (w.wakeFlag g).flag f = w.flag f := by
  have hwoken : (w.wakeFlag g).woken f = w.woken f := by simp [wakeFlag, h]
  have hrole : (fun t => roleOf ((w.wakeFlag g).pc (t, f))) = (w.flag f).role := by
    funext t
    rw [roleOf_wakeFlag, if_neg]
    · rfl
    · exact fun he => h he.1
  unfold flag
  rw [hwoken, hrole]
  rfl

/-! ## The steps of a flag -/

omit [DecidableEq ι] [DecidableEq φ] in
/-- Only one thread is about to claim a flag. -/
theorem claims_alone {w : Once ι φ} (hsafe : Safe w.lock) {a : ι × φ} (ha : w.pc a = .loadState) (u : ι) :
    (w.flag a.2).role u ≠ .claiming := fun hu => by
  have hb : w.pc (u, a.2) = .storeRunning := roleOf_claiming hu
  have he := hsafe.exclusive a (u, a.2) (lock_phase ha) (lock_phase hb)
  rw [← he, ha] at hb
  cases hb

/-- What a thread does outside the kernel is a step of each flag, or none. -/
theorem flag_advance {w : Once ι φ} (hsafe : Safe w.lock) (a : ι × φ) (f : φ) :
    (w.advance a).flag f = w.flag f ∨ OnceFlag.Step (w.flag f) ((w.advance a).flag f) := by
  have hrole : ∀ {p}, w.pc a = p → (w.flag a.2).role a.1 = roleOf p := fun h => congrArg roleOf h
  unfold advance
  cases hpc : w.pc a with
  | idle | lockWait | lockAsleep | unlockWake | wait | asleep => exact .inl rfl
  | loop =>
    left
    refine flag_stays rfl ?_
    rw [hpc]
    rfl
  | exchange after woken =>
    left
    refine flag_stays rfl ?_
    rw [hpc]
    cases w.lockWord <;> cases after <;> rfl
  | loadState =>
    cases hs : w.state a.2 with
    | complete => exact flag_moves f (fun _ => rfl) (.see (hrole hpc) hs)
    | uninitialized => exact flag_moves f (fun _ => rfl) (.claim (hrole hpc) hs (claims_alone hsafe hpc))
    | running =>
      left
      refine flag_stays rfl ?_
      rw [hpc]
      rfl
  | storeRunning =>
    refine flag_moves f (fun hf => flag_store_ne w hf _) ?_
    rw [flag_store]
    exact .claimed (hrole hpc)
  | storeComplete =>
    refine flag_moves f (fun hf => flag_store_ne w hf _) ?_
    rw [flag_store]
    exact .complete (hrole hpc)
  | unlock next =>
    left
    refine flag_stays rfl ?_
    rw [hpc]
    cases w.lockWord with
    | true => rfl
    | false => exact (roleOf_unlocked next).symm
  | callback =>
    refine flag_moves f (fun hf => ?_) ?_
    · simp [flag, hf]
    · convert OnceFlag.Step.start (hrole hpc) using 2
      · simp [flag]
      · rfl
  | inCallback =>
    refine flag_moves f (fun hf => ?_) ?_
    · simp [flag, hf]
    · convert OnceFlag.Step.callback (hrole hpc) using 2
      · simp [flag]
      · rfl
  | wake =>
    refine flag_moves f (fun hf => flag_wakeFlag_ne w hf) ?_
    rw [flag_wakeFlag]
    exact .wake (hrole hpc)
  | returned => exact flag_moves f (fun _ => rfl) (.leave (hrole hpc))

/-- Every step is a step of each flag, or none. -/
theorem Step.flag {w w' : Once ι φ} (hsafe : Safe w.lock) (h : Step w w') (f : φ) :
    w'.flag f = w.flag f ∨ OnceFlag.Step (w.flag f) (w'.flag f) := by
  cases h with
  | @advance a => exact flag_advance hsafe a f
  | call hpc | lockSleep hpc => exact .inl (flag_stays rfl (by rw [hpc]; rfl))
  | @sleep a hpc hs => exact flag_moves f (fun _ => rfl) (.sleep (congrArg roleOf hpc) hs)
  | @again a hpc =>
    rcases hpc with hpc | hpc
    · left
      refine flag_stays rfl ?_
      rw [hpc]
      rfl
    · exact flag_moves f (fun _ => rfl) (.rouse (congrArg roleOf hpc))
  | lockAgain hpc =>
    left
    refine flag_stays rfl ?_
    rcases hpc with hpc | hpc
    all_goals
      rw [hpc]
      rfl
  | @lockWake a b next after hpc hb =>
    left
    have hne : a ≠ b := by
      rintro rfl
      rw [hpc] at hb
      cases hb
    have hwoken : (w.goto b (.exchange after true)).flag f = w.flag f := flag_stays rfl (by rw [hb]; rfl)
    refine (flag_stays rfl ?_).trans hwoken
    have ha : (w.goto b (.exchange after true)).pc a = w.pc a := Function.update_of_ne hne _ _
    rw [ha, hpc, roleOf_unlocked]
    rfl
  | @lockWakeNone a next hpc =>
    left
    refine flag_stays rfl ?_
    rw [hpc, roleOf_unlocked]
    rfl

/-- The invariant of the lock word and the flags. -/
structure Inv (w : Once ι φ) : Prop where
  safe : Safe w.lock
  flags : ∀ f, (w.flag f).Inv

omit [DecidableEq ι] [DecidableEq φ] in
theorem Init.inv {w : Once ι φ} (h : Init w) : Inv w where
  safe := Free.safe ⟨h.lockWord, fun a => lock_phase (h.pc a)⟩
  flags f := by
    refine OnceFlag.Init.inv ⟨h.state f, fun t => ?_, h.starts f, h.ends f, h.woken f⟩
    exact congrArg roleOf (h.pc (t, f))

theorem Inv.step {w w' : Once ι φ} (h : Inv w) (hs : Step w w') : Inv w' where
  safe := by
    rcases hs.lock h.safe with he | hl
    · rw [he]
      exact h.safe
    · exact h.safe.step hl
  flags f := by
    rcases hs.flag h.safe f with he | hf
    · rw [he]
      exact h.flags f
    · exact (h.flags f).step hf

theorem reachable_inv {w : Once ι φ} (h : Reachable Init Step w) : Inv w :=
  h.invariant (fun _ h => h.inv) fun _ _ h hs => h.step hs

/-- Once the wake on a flag is issued it stays issued. -/
theorem Inv.woken {w w' : Once ι φ} (h : Inv w) (hrun : Relation.ReflTransGen Step w w') {f : φ}
    (hw : w.woken f = true) : Inv w' ∧ w'.woken f = true := by
  induction hrun with
  | refl => exact ⟨h, hw⟩
  | tail _ hs ih =>
    obtain ⟨hinv, hw⟩ := ih
    refine ⟨hinv.step hs, ?_⟩
    rcases hs.flag hinv.safe f with he | hf
    · exact (congrArg OnceFlag.woken he).trans hw
    · exact hf.woken hw

end Once

/-- One-time initialisation. Over every run of any number of threads at any
number of flags that share the lock word:
- the callback of a flag is started at most once;
- where a `call_once` returns, the callback was started once and has returned;
- from the wake on the flag on, no thread is asleep on it, now or in any run from
  here. -/
theorem call_once_calls_once {ι φ : Type} [DecidableEq ι] [DecidableEq φ] {w : Once ι φ}
    (h : Reachable Once.Init Once.Step w) (f : φ) :
    w.starts f ≤ 1 ∧ (∀ t, w.pc (t, f) = .returned → w.starts f = 1 ∧ w.ends f = 1) ∧
      (w.woken f = true → ∀ w', Relation.ReflTransGen Once.Step w w' → ∀ t, w'.pc (t, f) ≠ .asleep) := by
  have hinv := Once.reachable_inv h
  refine ⟨(hinv.flags f).starts_le, fun t ht => (hinv.flags f).leaving (congrArg Once.roleOf ht), ?_⟩
  intro hw w' hrun t ht
  obtain ⟨hinv', hw'⟩ := hinv.woken hrun hw
  exact (hinv'.flags f).awake hw' t (congrArg Once.roleOf ht)

namespace Once

/-- Two threads at a flag, before their first calls. -/
def fresh : Once Bool Unit where
  lockWord := false
  state _ := .uninitialized
  pc _ := .idle
  starts _ := 0
  ends _ := 0
  woken _ := false

/-- One thread claims the flag, and the other falls asleep on it. When the first one
returns, the callback has run once and the other one is awake for good. -/
theorem call_once_calls_once_asleep :
    ∃ w w' : Once Bool Unit, w.pc (true, ()) = .asleep ∧ Relation.ReflTransGen Step w w' ∧
      w'.pc (false, ()) = .returned ∧ w'.starts () = 1 ∧ w'.ends () = 1 ∧
      ∀ w'', Relation.ReflTransGen Step w' w'' → ∀ t, w''.pc (t, ()) ≠ .asleep := by
  suffices hruns : ∃ w w' : Once Bool Unit, Reachable Init Step w ∧ w.pc (true, ()) = .asleep ∧
      Relation.ReflTransGen Step w w' ∧ w'.pc (false, ()) = .returned ∧ w'.woken () = true by
    obtain ⟨w, w', h, hasleep, hrun, hreturned, hwoken⟩ := hruns
    obtain ⟨-, hends, hawake⟩ := call_once_calls_once (h.run hrun) ()
    exact ⟨w, w', hasleep, hrun, hreturned, (hends false hreturned).1, (hends false hreturned).2, hawake hwoken⟩
  have hwake : ∀ {w : Once Bool Unit} (t : Bool) (next : OnceNext), Reachable Init Step w →
      w.pc (t, ()) = .unlockWake next → (∀ b after, w.pc b ≠ .lockAsleep after) →
      Reachable Init Step (w.goto (t, ()) (unlocked next)) :=
    fun t next h hpc hnone => h.next (.lockWakeNone hpc hnone)
  have hadvance : ∀ {w : Once Bool Unit} (t : Bool), Reachable Init Step w → Reachable Init Step (w.advance (t, ())) :=
    fun t h => h.next .advance
  have hstart : Reachable Init Step fresh :=
    .start ⟨rfl, fun _ => rfl, fun _ => rfl, fun _ => rfl, fun _ => rfl, fun _ => rfl⟩
  have hcall := hstart.next (.call (a := (false, ())) rfl)
  have hclaimed := hadvance false (hadvance false (hadvance false (hadvance false (hadvance false hcall))))
  have hcallback := hwake false .callback hclaimed rfl (by decide)
  -- the other thread finds the flag running
  have hsecond := hcallback.next (.call (a := (true, ())) rfl)
  have hfound := hadvance true (hadvance true (hadvance true (hadvance true hsecond)))
  have hwait := hwake true .wait hfound rfl (by decide)
  have hasleep := hwait.next (.sleep (a := (true, ())) rfl rfl)
  -- from there the first one goes on to its return
  have hforth : ∀ {w w' : Once Bool Unit}, Relation.ReflTransGen Step w w' →
      Relation.ReflTransGen Step w (w'.advance (false, ())) :=
    fun h => h.tail .advance
  have hstay : ∀ {w : Once Bool Unit}, Reachable Init Step w → Relation.ReflTransGen Step w w := fun _ => .refl
  have hcomplete := hforth (hforth (hforth (hforth (hforth (hstay hasleep)))))
  have hunlocked := hcomplete.tail (.lockWakeNone (a := (false, ())) rfl (by decide))
  exact ⟨_, _, hasleep, rfl, hforth hunlocked, rfl, rfl⟩

end Once

end MiniLibc.Thread
