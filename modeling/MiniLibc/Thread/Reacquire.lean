import MiniLibc.Thread.Waits
/-!
# A wait has its mutex back

What a thread is doing in the mutexes while it waits: it is in `mtx_unlock` or
`mtx_lock` of the mutex of its wait, or in no call at all. A wait that returns
what it waited for has come out of `mtx_lock` with success.
-/
open MiniLibc.Runs

namespace MiniLibc.Thread

namespace Mtx

variable {ι : Type} [DecidableEq ι]

/-- The call a thread is in. -/
def opOf : MtxPc → Option MtxOp
  | .idle => none
  | .ownedState op _ | .ownedOwner op _ | .recurseDepth op | .recurseAdd op | .exchange op _ | .storeOwner op
  | .storeDepth op | .wait op | .asleep op | .returned op _ => some op
  | .unlockDepth | .unlockNested | .clearDepth | .clearOwner | .clearState | .wake => some .unlock

theorem opOf_idle {p : MtxPc} (h : opOf p = none) : p = .idle := by
  cases p with
  | idle => rfl
  | _ => cases h

theorem opOf_notOwned (type : MtxType) (op : MtxOp) (again : Bool) : opOf (notOwned type op again) = some op := by
  cases op with
  | trylock =>
    dsimp only [notOwned]
    split <;> rfl
  | _ => rfl

theorem opOf_owned (type : MtxType) (op : MtxOp) (again : Bool) : opOf (owned type op again) = some op := by
  cases op with
  | unlock => rfl
  | _ =>
    dsimp only [owned]
    split <;> rfl

theorem opOf_contended (op : MtxOp) : opOf (contended op) = some op := by
  cases op with
  | timedlock time =>
    cases time with
    | none => rfl
    | some time =>
      dsimp only [contended]
      split <;> rfl
  | _ => rfl

theorem opOf_begin (type : MtxType) (op : MtxOp) : opOf (begin type op) = some op := by
  cases op with
  | timedlock time =>
    dsimp only [begin]
    split <;> rfl
  | _ => rfl

/-- A thread stays in its call until it returns. -/
theorem opOf_advance (m : Mtx ι) (t : ι) (hr : ∀ op r, m.pc t ≠ .returned op r) :
    opOf ((m.advance t).pc t) = opOf (m.pc t) := by
  unfold advance
  cases hpc : m.pc t with
  | idle | wait | asleep | wake => exact congrArg opOf hpc
  | returned op r => exact absurd hpc (hr op r)
  | ownedState op again =>
    dsimp only
    rw [goto_pc]
    split
    · rfl
    · exact opOf_notOwned _ _ _
  | ownedOwner op again =>
    dsimp only
    rw [goto_pc]
    split
    · exact opOf_owned _ _ _
    · exact opOf_notOwned _ _ _
  | recurseDepth op =>
    dsimp only
    rw [goto_pc]
    split <;> rfl
  | exchange op woken =>
    dsimp only
    rw [goto_pc]
    split
    · exact opOf_contended op
    · rfl
  | unlockDepth =>
    dsimp only
    rw [goto_pc]
    split
    · rfl
    split
    · rfl
    split <;> rfl
  | clearState =>
    dsimp only
    split
    · rw [goHolding_pc]
      rfl
    · rw [goto_pc]
      rfl
  | recurseAdd | storeDepth | unlockNested =>
    dsimp only
    rw [goHolding_pc]
    rfl
  | storeOwner | clearDepth | clearOwner =>
    dsimp only
    rw [goto_pc]
    rfl

/-- A step outside the kernel leaves the other threads alone. -/
theorem advance_others (m : Mtx ι) {t u : ι} (h : u ≠ t) :
    (m.advance t).pc u = m.pc u ∧ (m.advance t).held u = m.held u := by
  have hgoto : ∀ (m' : Mtx ι) p, m'.pc = m.pc → m'.held = m.held →
      (m'.goto t p).pc u = m.pc u ∧ (m'.goto t p).held u = m.held u := by
    intro m' p hpc hheld
    obtain ⟨h1, h2, -⟩ := goto_others m' p h
    exact ⟨h1.trans (congrFun hpc u), h2.trans (congrFun hheld u)⟩
  have hholding : ∀ (m' : Mtx ι) p n, m'.pc = m.pc → m'.held = m.held →
      (m'.goHolding t p n).pc u = m.pc u ∧ (m'.goHolding t p n).held u = m.held u := by
    intro m' p n hpc hheld
    obtain ⟨h1, h2, -⟩ := goHolding_others m' p n h
    exact ⟨h1.trans (congrFun hpc u), h2.trans (congrFun hheld u)⟩
  unfold advance
  cases m.pc t with
  | idle | wait | asleep | wake => exact ⟨rfl, rfl⟩
  | recurseAdd | storeDepth | unlockNested => exact hholding _ _ _ rfl rfl
  | clearState =>
    dsimp only
    split
    · exact hholding _ _ _ rfl rfl
    · exact hgoto _ _ rfl rfl
  | _ => exact hgoto _ _ rfl rfl

/-- A step leaves the other threads in their calls with their acquisitions. -/
theorem Step.others {m m' : Mtx ι} {t u : ι} (h : Step m t m') (hu : u ≠ t) :
    opOf (m'.pc u) = opOf (m.pc u) ∧ m'.held u = m.held u := by
  have hgoto : ∀ p, opOf ((m.goto t p).pc u) = opOf (m.pc u) ∧ (m.goto t p).held u = m.held u := by
    intro p
    obtain ⟨h1, h2, -⟩ := goto_others m p hu
    exact ⟨congrArg opOf h1, h2⟩
  cases h with
  | call op =>
    obtain ⟨h1, h2, -⟩ := goto_others { m with entry := Function.update m.entry t (m.held t) } (begin m.type op) hu
    exact ⟨congrArg opOf h1, h2⟩
  | advance =>
    obtain ⟨h1, h2⟩ := advance_others m hu
    exact ⟨congrArg opOf h1, h2⟩
  | sleep | again | timeout | fails | wakeNone => exact hgoto _
  | @wake v op hpc hv =>
    obtain ⟨h1, h2, -⟩ := goto_others (m.goto v (.exchange op true)) (.returned .unlock .success) hu
    refine ⟨(congrArg opOf h1).trans ?_, h2⟩
    by_cases huv : u = v
    · rw [huv, goto_pc, hv]
      rfl
    · exact congrArg opOf (goto_others m _ huv).1

/-- A step of a thread in a call leaves it in that call. -/
theorem Step.opOf {m m' : Mtx ι} {t : ι} (h : Step m t m') (hidle : m.pc t ≠ .idle)
    (hr : ∀ op r, m.pc t ≠ .returned op r) : opOf (m'.pc t) = opOf (m.pc t) := by
  cases h with
  | call op hpc => exact absurd hpc hidle
  | advance => exact opOf_advance m t hr
  | sleep hpc | fails hpc =>
    rw [goto_pc, hpc]
    rfl
  | again hpc | timeout hpc =>
    rw [goto_pc]
    rcases hpc with hpc | hpc
    all_goals
      rw [hpc]
      rfl
  | wake hpc hu =>
    rw [goto_pc, hpc]
    rfl
  | wakeNone hpc =>
    rw [goto_pc, hpc]
    rfl

end Mtx

namespace Cnd

variable {ι μ : Type} [DecidableEq ι] [DecidableEq μ]

/-- The call in a mutex that a thread is in while it is in a call of the condition
variable. -/
def callOf (p : CndPc μ) (k : μ) : Option MtxOp :=
  match p with
  | .unlock k' _ _ => if k = k' then some .unlock else none
  | .lock k' _ => if k = k' then some .lock else none
  | _ => none

/-- What a thread does in the mutexes, and what it holds when its wait returns. -/
structure Engaged (w : Cnd ι μ) (t : ι) : Prop where
  calls : w.pc t ≠ .idle → ∀ k, Mtx.opOf ((w.mtx k).pc t) = callOf (w.pc t) k
  holds : ∀ k r, w.pc t = .waited k r → r = .success ∨ r = .timedout → 0 < (w.mtx k).held t

/-- The mutexes do not see a difference in a thread. -/
def Unmoved (w w' : Cnd ι μ) (t : ι) : Prop :=
  ∀ k, Mtx.opOf ((w'.mtx k).pc t) = Mtx.opOf ((w.mtx k).pc t) ∧ (w'.mtx k).held t = (w.mtx k).held t

omit [DecidableEq ι] [DecidableEq μ] in
theorem Unmoved.refl (w : Cnd ι μ) (t : ι) : Unmoved w w t := fun _ => ⟨rfl, rfl⟩

omit [DecidableEq ι] in
theorem inMtx_mtx (w : Cnd ι μ) (k k' : μ) (m : Mtx ι) : (w.inMtx k m).mtx k' = if k' = k then m else w.mtx k' :=
  Function.update_apply _ _ _ _

omit [DecidableEq ι] in
theorem inMtx_self (w : Cnd ι μ) (k : μ) (m : Mtx ι) : (w.inMtx k m).mtx k = m := Function.update_self _ _ _

/-- A step of another thread in a mutex. -/
theorem Unmoved.inMtx {w : Cnd ι μ} {s t : ι} {k : μ} {m : Mtx ι} (hs : Mtx.Step (w.mtx k) s m) (ht : t ≠ s) :
    Unmoved w (w.inMtx k m) t := by
  intro k'
  rw [inMtx_mtx]
  split
  · rename_i hk
    rw [hk]
    exact hs.others ht
  · exact ⟨rfl, rfl⟩

omit [DecidableEq ι] in
/-- Another thread stays where it is, or is woken. -/
theorem Engaged.frame {w w' : Cnd ι μ} {t : ι} (h : Engaged w t) (hm : Unmoved w w' t)
    (hpc : w'.pc t = w.pc t ∨ w'.pc t = woken (w.pc t)) : Engaged w' t := by
  rcases hpc with hpc | hpc
  · refine ⟨fun hidle k => ?_, fun k r hr hres => ?_⟩
    · rw [hpc] at hidle ⊢
      exact (hm k).1.trans (h.calls hidle k)
    · rw [(hm k).2]
      exact h.holds k r (hpc.symm.trans hr) hres
  · have hcall : ∀ k, callOf (woken (w.pc t)) k = callOf (w.pc t) k := fun k => by cases w.pc t <;> rfl
    refine ⟨fun hidle k => ?_, fun k r hr hres => ?_⟩
    · rw [hpc, hcall k, (hm k).1]
      refine h.calls (fun hi => hidle ?_) k
      rw [hpc, hi]
      rfl
    · rw [(hm k).2]
      refine h.holds k r ?_ hres
      rw [hpc] at hr
      cases hp : w.pc t <;> rw [hp] at hr <;> first | exact hr | cases hr

omit [DecidableEq ι] in
/-- A thread outside the mutexes goes on outside them. -/
theorem Engaged.outside {w' : Cnd ι μ} {t : ι} (hfree : ∀ k, (w'.mtx k).pc t = .idle)
    (hcall : ∀ k, callOf (w'.pc t) k = none) (hret : ∀ k r, w'.pc t = .waited k r → r = .error) : Engaged w' t where
  calls _ k := by
    rw [hfree k, hcall k]
    rfl
  holds k r hr hres := by
    rw [hret k r hr] at hres
    rcases hres with hres | hres <;> cases hres

omit [DecidableEq ι] in
/-- A thread that is in no call of a mutex. -/
theorem Engaged.free {w : Cnd ι μ} {t : ι} (h : Engaged w t) (hidle : w.pc t ≠ .idle) {k : μ}
    (hcall : callOf (w.pc t) k = none) : (w.mtx k).pc t = .idle :=
  Mtx.opOf_idle ((h.calls hidle k).trans hcall)

/-- The invariant of the mutexes under a condition variable. -/
structure Inv (w : Cnd ι μ) : Prop where
  mtx : ∀ k, (w.mtx k).Inv
  engaged : ∀ t, Engaged w t

/-- A thread steps in a mutex, and goes on. -/
theorem Inv.inMtx {w w' : Cnd ι μ} (h : Inv w) {s : ι} {k : μ} {m : Mtx ι} (hs : Mtx.Step (w.mtx k) s m)
    (hmtx : w'.mtx = (w.inMtx k m).mtx) (hpc : ∀ t, t ≠ s → w'.pc t = w.pc t) (hself : Engaged w' s) : Inv w' where
  mtx k' := by
    rw [hmtx, inMtx_mtx]
    split
    · exact ((h.mtx k).step hs).1
    · exact h.mtx k'
  engaged t := by
    by_cases ht : t = s
    · rw [ht]
      exact hself
    · refine (h.engaged t).frame ?_ (.inl (hpc t ht))
      have hm := Unmoved.inMtx hs ht
      unfold Unmoved at hm ⊢
      rwa [hmtx]

/-- A thread goes on, and touches no mutex. -/
theorem Inv.goto {w w' : Cnd ι μ} (h : Inv w) {s : ι} (hmtx : w'.mtx = w.mtx)
    (hpc : ∀ t, t ≠ s → w'.pc t = w.pc t ∨ w'.pc t = woken (w.pc t)) (hself : Engaged w' s) : Inv w' where
  mtx k := by
    rw [hmtx]
    exact h.mtx k
  engaged t := by
    by_cases ht : t = s
    · rw [ht]
      exact hself
    · refine (h.engaged t).frame ?_ (hpc t ht)
      have hm := Unmoved.refl w t
      unfold Unmoved at hm ⊢
      rwa [hmtx]

omit [DecidableEq μ] in
theorem goto_pc_self (w : Cnd ι μ) (t : ι) (p : CndPc μ) : (w.goto t p).pc t = p := Function.update_self _ _ _

omit [DecidableEq μ] in
theorem goto_pc_of_ne (w : Cnd ι μ) {t u : ι} (h : u ≠ t) (p : CndPc μ) : (w.goto t p).pc u = w.pc u :=
  Function.update_of_ne h _ _

/-- A thread goes on outside the mutexes. -/
theorem Inv.outside {w : Cnd ι μ} (h : Inv w) {s : ι} {p : CndPc μ} (hfree : ∀ k, (w.mtx k).pc s = .idle)
    (hcall : ∀ k, callOf p k = none) (hret : ∀ k r, p = .waited k r → r = .error) : Inv (w.goto s p) := by
  refine h.goto rfl (fun t ht => .inl (goto_pc_of_ne w ht p)) (.outside hfree ?_ ?_)
  · rw [goto_pc_self]
    exact hcall
  · rw [goto_pc_self]
    exact hret

/-- A thread that is in no mutex calls one. -/
theorem Inv.enters {w w' : Cnd ι μ} (h : Inv w) {s : ι} {k : μ} {op : MtxOp} {p : CndPc μ}
    (hfree : ∀ k, (w.mtx k).pc s = .idle) (hmtx : w'.mtx = (w.inMtx k ((w.mtx k).call s op)).mtx)
    (hpc : ∀ t, t ≠ s → w'.pc t = w.pc t) (hp : w'.pc s = p) (hret : ∀ k r, p ≠ .waited k r)
    (hcall : ∀ k', callOf p k' = if k' = k then some op else none) : Inv w' := by
  refine h.inMtx (.call op (hfree k)) hmtx hpc ⟨fun _ k' => ?_, fun k' r hr => ?_⟩
  · rw [hp, hcall, hmtx, inMtx_mtx]
    split
    · unfold Mtx.call
      rw [Mtx.goto_pc]
      exact Mtx.opOf_begin _ _
    · rw [hfree k']
      rfl
  · exact absurd (hp.symm.trans hr) (hret k' r)

/-- A thread steps in the mutex it is in. -/
theorem Inv.works {w : Cnd ι μ} (h : Inv w) {s : ι} {k : μ} {m : Mtx ι} (hs : Mtx.Step (w.mtx k) s m)
    (hin : InCall (w.mtx k) s) (hidle : w.pc s ≠ .idle) (hret : ∀ k r, w.pc s ≠ .waited k r) : Inv (w.inMtx k m) := by
  refine h.inMtx hs rfl (fun _ _ => rfl) ⟨fun _ k' => ?_, fun k' r hr => absurd hr (hret k' r)⟩
  have hcalls := (h.engaged s).calls hidle k'
  rw [inMtx_mtx]
  split
  · rename_i hk
    subst hk
    exact (hs.opOf hin.1 hin.2).trans hcalls
  · exact hcalls

/-- A thread comes out of the mutex it is in. -/
theorem Inv.leaves {w : Cnd ι μ} (h : Inv w) {s : ι} {k : μ} {op : MtxOp} {r : ThrdResult} {p : CndPc μ}
    (hpc : (w.mtx k).pc s = .returned op r) (hidle : w.pc s ≠ .idle) (hcall : ∀ k', k' ≠ k → callOf (w.pc s) k' = none)
    (hp : ∀ k', callOf p k' = none)
    (hret : ∀ k' r', p = .waited k' r' → r' = .success ∨ r' = .timedout → k' = k ∧ 0 < (w.mtx k).held s) :
    Inv ((w.inMtx k ((w.mtx k).advance s)).goto s p) := by
  have hadvance : (w.mtx k).advance s = (w.mtx k).goto s .idle := by
    unfold Mtx.advance
    rw [hpc]
  refine h.inMtx (k := k) .advance rfl (fun t ht => goto_pc_of_ne _ ht p) ⟨fun _ k' => ?_, fun k' r' hr hres => ?_⟩
  · rw [goto_pc_self, hp]
    show Mtx.opOf (((w.inMtx k ((w.mtx k).advance s)).mtx k').pc s) = none
    rw [inMtx_mtx]
    split
    · rw [hadvance, Mtx.goto_pc]
      rfl
    · exact ((h.engaged s).calls hidle k').trans (hcall k' ‹_›)
  · rw [goto_pc_self] at hr
    obtain ⟨rfl, hheld⟩ := hret k' r' hr hres
    show 0 < ((w.inMtx k' ((w.mtx k').advance s)).mtx k').held s
    rw [inMtx_self, hadvance]
    exact hheld

omit [DecidableEq ι] in
theorem callOf_unlocked (k : μ) (time : Option Timespec) (e : BitVec 32) (r : ThrdResult) (k' : μ) :
    callOf (unlocked k time e r) k' = none ∧ ∀ k' r', unlocked k time e r = .waited k' r' → r' = .error := by
  cases r with
  | success =>
    cases time with
    | none => exact ⟨rfl, fun _ _ h => by cases h⟩
    | some time =>
      dsimp only [unlocked]
      split
      · exact ⟨rfl, fun _ _ h => by cases h⟩
      · exact ⟨rfl, fun _ _ h => by cases h⟩
  | _ =>
    refine ⟨rfl, fun _ _ h => ?_⟩
    cases h
    rfl

omit [DecidableEq ι] in
theorem callOf_waitCommon (mtx : Option μ) (time : Option Timespec) (timed : Bool) :
    (∀ k, callOf (waitCommon mtx time timed) k = none) ∧ ∀ k r, waitCommon mtx time timed = .waited k r → r = .error := by
  unfold waitCommon
  split
  · exact ⟨fun _ => rfl, fun _ _ h => by cases h⟩
  · split
    · exact ⟨fun _ => rfl, fun _ _ h => by cases h⟩
    · exact ⟨fun _ => rfl, fun _ _ h => by cases h⟩

/-- Every step keeps the invariant. -/
theorem Inv.step {w w' : Cnd ι μ} (h : Inv w) (hs : Step w w') : Inv w' := by
  -- The thread is in no mutex.
  have hfree : ∀ {s p}, w.pc s = p → p ≠ .idle → (∀ k, callOf p k = none) → ∀ k, (w.mtx k).pc s = .idle := by
    intro s p hp hidle hcall k
    refine (h.engaged s).free (by rwa [hp]) ?_
    rw [hp]
    exact hcall k
  -- A wait that ends, or goes on.
  have hwait : ∀ {s k time e p}, w.pc s = .futexWait k time e ∨ w.pc s = .asleep k time e →
      (∀ k, callOf p k = none) → (∀ k r, p ≠ .waited k r) → Inv (w.goto s p) := by
    intro s k time e p hpc hcall hret
    refine h.outside ?_ hcall fun k r hr => absurd hr (hret k r)
    rcases hpc with hpc | hpc
    · exact hfree hpc (by simp) fun _ => rfl
    · exact hfree hpc (by simp) fun _ => rfl
  cases hs with
  | @mutex t k m hpc hm =>
    refine h.inMtx hm rfl (fun _ _ => rfl) ⟨fun hidle => absurd hpc hidle, fun k' r hr => ?_⟩
    cases hpc.symm.trans hr
  | wait mtx hpc hidle => exact h.outside hidle (callOf_waitCommon _ _ _).1 (callOf_waitCommon _ _ _).2
  | timedwait mtx time hpc hidle => exact h.outside hidle (callOf_waitCommon _ _ _).1 (callOf_waitCommon _ _ _).2
  | notify all hpc hidle => exact h.outside hidle (fun _ => rfl) fun _ _ hr => by cases hr
  | @loadSequence t k time hpc =>
    refine h.enters (hfree hpc (by simp) fun _ => rfl) rfl (fun u hu => (loadSequence_other w hu k time).2.2)
      (loadSequence_self w t k time).2.2 (by simp) fun _ => rfl
  | unlock hpc hin hm => exact h.works hm hin (by simp [hpc]) (by simp [hpc])
  | lock hpc hin hm => exact h.works hm hin (by simp [hpc]) (by simp [hpc])
  | unlocked hpc hr =>
    refine h.leaves hr (by simp [hpc]) (fun k' hk => ?_) (fun k' => (callOf_unlocked _ _ _ _ k').1) ?_
    · rw [hpc]
      exact if_neg hk
    · intro k' r' hp hres
      rw [(callOf_unlocked _ _ _ _ k').2 k' r' hp] at hres
      rcases hres with hres | hres <;> cases hres
  | sleep hpc => exact hwait (.inl hpc) (fun _ => rfl) (by simp)
  | awake hpc => exact hwait hpc (fun _ => rfl) (by simp)
  | interrupted hpc => exact hwait hpc (fun _ => rfl) (by simp)
  | timeout hpc => exact hwait hpc (fun _ => rfl) (by simp)
  | fails hpc => exact hwait (.inl hpc) (fun _ => rfl) (by simp)
  | @relock t k status hpc =>
    exact h.enters (hfree hpc (by simp) fun _ => rfl) rfl (fun u hu => goto_pc_of_ne _ hu _) (goto_pc_self _ _ _)
      (by simp) fun _ => rfl
  | @locked t k status op r hpc hr =>
    have hop : op = .lock := by
      have hcalls := (h.engaged t).calls (by simp [hpc]) k
      rw [hr, hpc] at hcalls
      have hlock : callOf (.lock k status : CndPc μ) k = some .lock := if_pos rfl
      exact Option.some.inj (hcalls.trans hlock)
    refine h.leaves hr (by simp [hpc]) (fun k' hk => ?_) (fun _ => rfl) ?_
    · rw [hpc]
      exact if_neg hk
    · intro k' r' hp hres
      obtain ⟨rfl, rfl⟩ : k = k' ∧ relocked status r = r' := by
        cases hp
        exact ⟨rfl, rfl⟩
      refine ⟨rfl, ?_⟩
      -- The lock was acquired: otherwise the wait returns an error.
      have hf := ((h.mtx k).ledger.facts t)
      rw [hr, hop] at hf
      cases r with
      | success =>
        have hheld : (w.mtx k).held t = (w.mtx k).entry t + 1 := hf.1
        omega
      | _ => rcases hres with hres | hres <;> cases hres
  | @fetchAdd t all hpc =>
    refine h.goto rfl (fun u hu => .inl (Function.update_of_ne hu _ _)) (.outside ?_ ?_ ?_)
    · exact hfree hpc (by simp) fun _ => rfl
    · intro k
      unfold Cnd.fetchAdd
      rw [goto_pc_self]
      rfl
    · intro k r hr
      unfold Cnd.fetchAdd at hr
      rw [goto_pc_self] at hr
      cases hr
  | @wakeAll t hpc =>
    refine h.goto rfl (fun u hu => .inr (Function.update_of_ne hu _ _)) (.outside ?_ ?_ ?_)
    · exact hfree hpc (by simp) fun _ => rfl
    · intro k
      unfold Cnd.wakeAll
      rw [goto_pc_self]
      rfl
    · intro k r hr
      unfold Cnd.wakeAll at hr
      rw [goto_pc_self] at hr
      cases hr
  | @wakeOne t u k time e hpc hu =>
    have hwoken : Inv (w.goto u (.relock k .success)) := hwait (.inr hu) (fun _ => rfl) (by simp)
    exact hwoken.outside (hfree hpc (by simp) fun _ => rfl) (fun _ => rfl) fun _ _ hr => by cases hr
  | wakeNone hpc hnone => exact h.outside (hfree hpc (by simp) fun _ => rfl) (fun _ => rfl) fun _ _ hr => by cases hr
  | @ret t hpc =>
    refine h.outside ?_ (fun _ => rfl) fun _ _ hr => by cases hr
    rcases hpc with ⟨k, r, hpc⟩ | ⟨r, hpc⟩
    · exact hfree hpc (by simp) fun _ => rfl
    · exact hfree hpc (by simp) fun _ => rfl

omit [DecidableEq ι] in
theorem Init.inv {w : Cnd ι μ} (h : Init w) : Inv w where
  mtx k := (h.mtx k).inv.1
  engaged t := by
    refine ⟨fun hidle => absurd (h.pc t) hidle, fun k r hr => ?_⟩
    cases (h.pc t).symm.trans hr

theorem reachable_inv {w : Cnd ι μ} (h : Reachable Init Moves w) : Inv w :=
  h.invariant (fun _ h => h.inv) fun _ _ h hs => h.step hs.1

end Cnd

end MiniLibc.Thread
