import MiniLibc.Thread.Handles
/-!
# Threads are reclaimed once

What the steps of each control add up to over a run: its stack and its memory
are released once, by the one who claimed it, and a join returns what the thread
passed to `thrd_exit`.
-/
open MiniLibc.Runs

namespace MiniLibc.Thread

namespace Threads

variable {fresh : Threads → Nat → Prop}

/-! ## Ids that are not used again -/

/-- No two threads of the run have the same id. -/
def Distinct (w : Threads) : Prop :=
  ∀ c d tid, (w.task c).tid? = some tid → (w.task d).tid? = some tid → c = d

theorem Distinct.step {w w' : Threads} (h : Distinct w) (hs : Step Unused w w') : Distinct w' := by
  intro c d tid hct hdt
  rcases hs.tids with hsame | ⟨-, a, e, tid', -, hfresh, htask⟩
  · rw [hsame] at hct hdt
    exact h c d tid hct hdt
  · rw [htask] at hct hdt
    by_cases hce : c = e
    · by_cases hde : d = e
      · rw [hce, hde]
      · rw [if_pos hce] at hct
        rw [if_neg hde] at hdt
        cases hct
        exact absurd hdt (hfresh d)
    · rw [if_neg hce] at hct
      by_cases hde : d = e
      · rw [if_pos hde] at hdt
        cases hdt
        exact absurd hct (hfresh c)
      · rw [if_neg hde] at hdt
        exact h c d tid hct hdt

theorem reachable_distinct {w : Threads} (h : Reachable Init (Step Unused) w) : Distinct w := by
  refine h.invariant (I := Distinct) ?_ fun _ _ h hs => h.step hs
  intro w hw c d tid hc
  rw [hw.task] at hc
  cases hc

/-! ## What a thread passed to `thrd_exit` -/

/-- Between the call of `thrd_exit` and its store. -/
def storing : LifecyclePc → Bool
  | .exitStore _ => true
  | _ => false

/-- What a step does to the values passed to `thrd_exit`, and to the results. -/
inductive Exits (w : Threads) (a : Agent) : Threads → Prop where
  | calls {last : Option LifecycleReply} (res : Int) : w.pc a = .idle last →
    Exits w a ((w.callExit a res).goto a (.exitStore res))
  | stores {c : Nat} {res : Int} : a = .child c → w.pc a = .exitStore res →
    Exits w a ((w.storeResult c res).goto a .exitCount)
  | others {w' : Threads} : w'.passed = w.passed → storing (w'.pc a) = false → storing (w.pc a) = false ∨ a = .main →
    (∀ c, (w'.control c).result = (w.control c).result ∨ c = w.made ∧ w'.control c = .new) → Exits w a w'

theorem Exits.plain {w w' : Threads} {a : Agent} {p q : LifecyclePc} (hpc : w.pc a = q) (hq : storing q = false)
    (hp : storing p = false) (hpassed : w'.passed = w.passed)
    (hresult : ∀ c, (w'.control c).result = (w.control c).result) : Exits w a (w'.goto a p) := by
  refine .others hpassed ?_ ?_ fun c => .inl (hresult c)
  · rwa [goto_pc]
  · rw [hpc]
    exact .inl hq

theorem setControl_result {w : Threads} {d : Nat} {k : Control} (h : k.result = (w.control d).result) (c : Nat) :
    ((w.setControl d k).control c).result = (w.control c).result := by
  by_cases hc : c = d
  · subst hc
    rw [← h]
    exact congrArg Control.result (Function.update_self ..)
  · exact congrArg Control.result (Function.update_of_ne hc _ _)

theorem Acts.exits {w w' : Threads} {a : Agent} (h : Acts fresh w a w') : Exits w a w' := by
  cases h with
  | exit res hpc => exact .calls res hpc
  | exitStore ha hpc => exact .stores ha hpc
  | exitStoreMain ha hpc => exact .others rfl (congrArg storing (goto_pc ..)) (.inr ha) fun _ => .inl rfl
  | create hpc hroom =>
    refine .others rfl (congrArg storing (goto_pc ..)) (.inl (congrArg storing hpc)) fun c => ?_
    by_cases hc : c = w.made
    · subst hc
      exact .inr ⟨rfl, Function.update_self ..⟩
    · exact .inl (congrArg Control.result (Function.update_of_ne hc _ _))
  | createPublish hpc hlock =>
    unfold Threads.createPublish
    dsimp only
    split <;> exact .plain hpc rfl rfl rfl (setControl_result rfl)
  | joinFind hpc hlock =>
    unfold Threads.joinFind
    split
    · exact .plain hpc rfl rfl rfl fun _ => rfl
    · split
      · exact .plain hpc rfl rfl rfl (setControl_result rfl)
      · exact .plain hpc rfl rfl rfl fun _ => rfl
  | detachFind hpc hlock =>
    unfold Threads.detachFind
    split
    · exact .plain hpc rfl rfl rfl fun _ => rfl
    · split
      · split
        · exact .plain hpc rfl rfl rfl (setControl_result rfl)
        · split
          · dsimp only
            split <;> exact .plain hpc rfl rfl rfl (setControl_result rfl)
          · exact .plain hpc rfl rfl rfl fun _ => rfl
      · exact .plain hpc rfl rfl rfl fun _ => rfl
  | findReapable hpc =>
    split
    · exact .plain hpc rfl rfl rfl (setControl_result rfl)
    · exact .plain hpc rfl rfl rfl fun _ => rfl
  | joinRestore hpc hlock | reapRestoreJoinable hpc hlock | reapRestore hpc hlock =>
    exact .plain hpc rfl rfl rfl (setControl_result rfl)
  | join thr hpc | detach thr hpc | exitCount hpc | joinLoad hpc | observeTid hpc =>
    exact .plain hpc rfl (by split <;> rfl) rfl fun _ => rfl
  | @entry ready hpc => exact .plain hpc rfl (by cases ready <;> rfl) rfl fun _ => rfl
  | @reapFree c restoreJoinable hpc => exact .plain hpc rfl (by cases restoreJoinable <;> rfl) rfl fun _ => rfl
  | @wake next hpc =>
    have hsame : w.wakeReaper.passed = w.passed ∧ w.wakeReaper.control = w.control := by
      unfold wakeReaper
      split <;> exact ⟨rfl, rfl⟩
    exact .plain hpc rfl (by cases next <;> rfl) hsame.1 fun c => congrArg (fun f => (f c).result) hsame.2
  | findDetached hpc => split <;> exact .plain hpc rfl rfl rfl fun _ => rfl
  | eventAgain hpc => rcases hpc with hpc | hpc <;> exact .plain hpc rfl rfl rfl fun _ => rfl
  | createRefused hpc | createInsert hpc | createClone hpc | createCloneFail hpc | createRemove hpc | createUnmap hpc
  | createUnmapFail hpc | createFree hpc | notify hpc | joinWaited hpc | joinWaitFail hpc | joinUnmap hpc
  | joinUnmapFail hpc | joinResult hpc | joinRemove hpc | joinFree hpc | reapUnmap hpc | reapUnmapFail hpc
  | reapRemove hpc | reaperLoop hpc | findReapableEnd hpc | pollWait hpc | eventSleep hpc =>
    exact .plain hpc rfl rfl rfl fun _ => rfl

/-- What the control of a thread has of the value passed to `thrd_exit`: nothing
before the store, and all of it afterwards. -/
structure Stored (w : Threads) (c : Nat) : Prop where
  unborn : w.task c = .unborn → w.passed c = none
  called (res : Int) : w.pc (.child c) = .exitStore res → (∃ tid, w.task c = .running tid) ∧ w.passed c = some res
  stored : storing (w.pc (.child c)) = false → (w.control c).result = (w.passed c).getD 0

/-- No place of the thread is between the call and the store. -/
theorem Stored.quiet {w : Threads} {c : Nat} (h : Stored w c) (hnot : ∀ tid, w.task c ≠ .running tid) :
    storing (w.pc (.child c)) = false := by
  cases hpc : w.pc (.child c) with
  | exitStore res =>
    obtain ⟨⟨tid, ht⟩, -⟩ := h.called res hpc
    exact absurd ht (hnot tid)
  | _ => rfl

/-- A value is passed to `thrd_exit` and kept until it is stored. -/
theorem Stored.acts {w w' : Threads} {a : Agent} (hinv : Inv w) (hruns : w.Runs a) (hs : Acts fresh w a w') {c : Nat}
    (h : Stored w c) : Stored w' c := by
  -- a thread that a step brings to life was unborn
  have htask : w'.task c = w.task c ∨ w.task c = .unborn ∧ ∃ tid, w'.task c = .born tid := by
    rcases hs.tids with he | ⟨-, d, tid, hpc, -, he⟩
    · exact .inl (congrFun he c)
    · by_cases hc : c = d
      · subst hc
        have hheld := (hinv.custody c).held a
        rw [stage_at hpc rfl] at hheld
        exact .inr ⟨hheld.2.2, tid, by rw [he, Function.update_self]⟩
      · exact .inl (by rw [he, Function.update_of_ne hc])
  have hunborn : w'.task c = .unborn → w.task c = .unborn := by
    intro hu
    rcases htask with he | ⟨hu', -⟩
    · rw [← he]
      exact hu
    · exact hu'
  have hrunning : (∃ tid, w.task c = .running tid) → ∃ tid, w'.task c = .running tid := by
    rintro ⟨tid, ht⟩
    rcases htask with he | ⟨hu, -⟩
    · exact ⟨tid, he.trans ht⟩
    · rw [hu] at ht
      cases ht
  have hpc : .child c ≠ a → w'.pc (.child c) = w.pc (.child c) ∨
      w.pc (.child c) = .eventAsleep ∧ w'.pc (.child c) = .reaperLoop := fun hne => (hs.frame hinv).others _ hne
  cases hs.exits with
  | calls res hidle =>
    by_cases ha : a = .child c
    · subst ha
      have hpassed : (w.callExit (.child c) res).passed c = some res := if_pos rfl
      have hat : ((w.callExit (.child c) res).goto (.child c) (.exitStore res)).pc (.child c) = .exitStore res :=
        goto_pc ..
      refine ⟨fun hu => ?_, fun res' hres => ⟨hruns, ?_⟩, fun hq => ?_⟩
      · obtain ⟨tid, ht⟩ := hruns
        have hu : w.task c = .unborn := hu
        rw [hu] at ht
        cases ht
      · rw [hat] at hres
        cases hres
        exact hpassed
      · rw [hat] at hq
        cases hq
    · have hpassed : (w.callExit a res).passed c = w.passed c := if_neg ha
      have hsame : ((w.callExit a res).goto a (.exitStore res)).pc (.child c) = w.pc (.child c) :=
        Function.update_of_ne (Ne.symm ha) _ _
      refine ⟨fun hu => hpassed.trans (h.unborn hu), fun res' hres => ?_, fun hq => ?_⟩
      · rw [hsame] at hres
        exact ⟨(h.called res' hres).1, hpassed.trans (h.called res' hres).2⟩
      · rw [hsame] at hq
        exact (h.stored hq).trans (congrArg (fun x => x.getD 0) hpassed.symm)
  | @stores d res ha hat =>
    subst ha
    by_cases hc : c = d
    · subst hc
      have hpassed := (h.called res hat).2
      have hgone : ((w.storeResult c res).goto (.child c) .exitCount).pc (.child c) = .exitCount := goto_pc ..
      refine ⟨h.unborn, fun res' hres => ?_, fun _ => ?_⟩
      · rw [hgone] at hres
        cases hres
      · have hcontrol : (w.storeResult c res).control c = { w.control c with result := res } := Function.update_self ..
        have hresult : ((w.storeResult c res).control c).result = res := congrArg Control.result hcontrol
        exact hresult.trans (congrArg (fun x => x.getD 0) hpassed.symm)
    · have hsame : ((w.storeResult d res).goto (.child d) .exitCount).pc (.child c) = w.pc (.child c) :=
        Function.update_of_ne (fun he => hc (Agent.child.inj he)) _ _
      have hresult : ((w.storeResult d res).control c).result = (w.control c).result :=
        congrArg Control.result (Function.update_of_ne hc _ _)
      refine ⟨h.unborn, fun res' hres => ?_, fun hq => ?_⟩
      · rw [hsame] at hres
        exact h.called res' hres
      · rw [hsame] at hq
        exact hresult.trans (h.stored hq)
  | others hpassed hafter hbefore hresult =>
    -- the thread is at the store before the step exactly when it is there after it
    have hstays : ∀ res, w'.pc (.child c) = .exitStore res → w.pc (.child c) = .exitStore res := by
      intro res hres
      by_cases ha : .child c = a
      · subst ha
        rw [hres] at hafter
        cases hafter
      · rcases hpc ha with he | ⟨-, he⟩
        · exact he.symm.trans hres
        · rw [he] at hres
          cases hres
    have hleaves : storing (w'.pc (.child c)) = false → storing (w.pc (.child c)) = false := by
      intro hq
      by_cases ha : .child c = a
      · subst ha
        exact hbefore.resolve_right nofun
      · rcases hpc ha with he | ⟨he, -⟩
        · rwa [← he]
        · rw [he]
          rfl
    refine ⟨fun hu => ?_, fun res hres => ?_, fun hq => ?_⟩
    · rw [hpassed]
      exact h.unborn (hunborn hu)
    · obtain ⟨hrun, hvalue⟩ := h.called res (hstays res hres)
      exact ⟨hrunning hrun, by rw [hpassed, hvalue]⟩
    · rw [hpassed]
      rcases hresult c with he | ⟨hmade, hnew⟩
      · rw [he]
        exact h.stored (hleaves hq)
      · -- nobody ran in a control that is made now
        have hu := (hinv.unmade c hmade.ge).1.task
        rw [hnew, h.unborn hu]
        rfl

theorem Stored.step {w w' : Threads} (hinv : Inv w) (hs : Step fresh w w') {c : Nat} (h : Stored w c) :
    Stored w' c := by
  cases hs with
  | acts hruns hacts => exact h.acts hinv hruns hacts
  | @start d tid ht =>
    have hresult := @setControl_result (w.setTask d (.running tid)) d { w.control d with clearTid := tid } rfl c
    by_cases hc : c = d
    · subst hc
      have hrun : (w.setTask c (.running tid)).task c = .running tid := Function.update_self ..
      refine ⟨fun hu => ?_, fun res hres => ⟨⟨tid, hrun⟩, (h.called res hres).2⟩, fun hq => hresult.trans (h.stored hq)⟩
      have hu : (w.setTask c (.running tid)).task c = .unborn := hu
      rw [hrun] at hu
      cases hu
    · have hsame : (w.setTask d (.running tid)).task c = w.task c := Function.update_of_ne hc _ _
      refine ⟨fun hu => h.unborn (hsame.symm.trans hu), fun res hres => ?_, fun hq => hresult.trans (h.stored hq)⟩
      obtain ⟨⟨u, hu⟩, hvalue⟩ := h.called res hres
      exact ⟨⟨u, hsame.trans hu⟩, hvalue⟩
  | @finish d tid ht hpc =>
    have hresult := @setControl_result (w.setTask d (.exited tid)) d { w.control d with clearTid := 0 } rfl c
    by_cases hc : c = d
    · subst hc
      have hend : (w.setTask c (.exited tid)).task c = .exited tid := Function.update_self ..
      refine ⟨fun hu => ?_, fun res hres => ?_, fun hq => hresult.trans (h.stored hq)⟩
      · have hu : (w.setTask c (.exited tid)).task c = .unborn := hu
        rw [hend] at hu
        cases hu
      · exact absurd (hpc.symm.trans hres) nofun
    · have hsame : (w.setTask d (.exited tid)).task c = w.task c := Function.update_of_ne hc _ _
      refine ⟨fun hu => h.unborn (hsame.symm.trans hu), fun res hres => ?_, fun hq => hresult.trans (h.stored hq)⟩
      obtain ⟨⟨u, hu⟩, hvalue⟩ := h.called res hres
      exact ⟨⟨u, hsame.trans hu⟩, hvalue⟩

theorem reachable_stored {w : Threads} (h : Reachable Init (Step fresh) w) : Inv w ∧ ∀ c, Stored w c := by
  refine h.invariant (I := fun w => Inv w ∧ ∀ c, Stored w c) ?_ ?_
  · intro w hw
    refine ⟨hw.inv, fun c => ⟨fun _ => hw.passed c, fun res hres => ?_, fun _ => ?_⟩⟩
    · rw [hw.child] at hres
      cases hres
    · rw [hw.control, hw.passed]
      rfl
  · rintro w w' ⟨hinv, h⟩ hs
    exact ⟨hinv.step hs, fun c => (h c).step hinv hs⟩

/-! ## What a join knows of its control -/

/-- The control has the handle, and its result is what the join read. -/
def Joins (w : Threads) : LifecyclePc → Prop
  | .joinLoad thr c | .joinWait thr c | .joinUnmap thr c | .joinRestore thr c | .joinResult thr c =>
    (w.control c).published = true ∧ (w.control c).tid = thr
  | .joinRemove thr c res | .joinFree thr c res =>
    (w.control c).published = true ∧ (w.control c).tid = thr ∧ (w.custody c).Exited ∧ (w.control c).result = res
  | .idle (some (.joined thr res)) => ∃ c, (w.control c).published = true ∧ (w.control c).tid = thr ∧
      (w.custody c).Exited ∧ (w.control c).result = res
  | _ => True

theorem Step.keeps {w w' : Threads} (hinv : Inv w) (h : Step fresh w w') {c : Nat}
    (hp : (w.control c).published = true) :
    ((w'.control c).published = true ∧ (w'.control c).tid = (w.control c).tid) ∧
      ((w.custody c).Exited → (w'.custody c).Exited ∧ (w'.control c).result = (w.control c).result) := by
  rcases h.custody hinv c with he | hs
  · have hcontrol : w'.control c = w.control c := congrArg Custody.control he
    rw [he, hcontrol]
    exact ⟨⟨hp, rfl⟩, fun h => ⟨h, rfl⟩⟩
  · refine ⟨hs.published (hinv.custody c) hp, fun he => ?_⟩
    exact hs.exited (hinv.custody c) he

theorem Joins.step {w w' : Threads} (hinv : Inv w) (h : Step fresh w w') {p : LifecyclePc} (hp : Joins w p) :
    Joins w' p := by
  have hnamed : ∀ {c thr}, (w.control c).published = true ∧ (w.control c).tid = thr →
      (w'.control c).published = true ∧ (w'.control c).tid = thr := by
    rintro c thr ⟨hc, rfl⟩
    exact (h.keeps hinv hc).1
  have hread : ∀ {c thr res}, (w.control c).published = true ∧ (w.control c).tid = thr ∧ (w.custody c).Exited ∧
      (w.control c).result = res → (w'.control c).published = true ∧ (w'.control c).tid = thr ∧
        (w'.custody c).Exited ∧ (w'.control c).result = res := by
    rintro c thr res ⟨hc, rfl, he, rfl⟩
    obtain ⟨⟨hc', ht⟩, hk⟩ := h.keeps hinv hc
    exact ⟨hc', ht, hk he⟩
  cases p with
  | joinLoad | joinWait | joinUnmap | joinRestore | joinResult => exact hnamed hp
  | joinRemove | joinFree => exact hread hp
  | idle last =>
    cases last with
    | none => trivial
    | some reply =>
      cases reply with
      | joined thr res =>
        obtain ⟨c, hc⟩ := hp
        exact ⟨c, hread hc⟩
      | _ => trivial
  | _ => trivial

/-- An agent comes to a place of a join from the one before it. -/
theorem Acts.joins {w w' : Threads} {a : Agent} (hinv : Inv w) (h : Acts fresh w a w') (hj : Joins w (w.pc a)) :
    Joins w (w'.pc a) := by
  have hat : ∀ {w' : Threads} {p : LifecyclePc}, Joins w p → Joins w ((w'.goto a p).pc a) := by
    intro w' p hp
    rwa [goto_pc]
  cases h with
  | joinFind hpc hlock =>
    unfold Threads.joinFind
    split
    · exact hat trivial
    · rename_i c hf
      obtain ⟨-, hp, ht⟩ := findControl_some hf
      split
      · exact hat ⟨hp, ht⟩
      · exact hat trivial
  | joinLoad hpc =>
    rw [hpc] at hj
    refine hat ?_
    split <;> exact hj
  | joinWaited hpc | joinWaitFail hpc | joinUnmap hpc | joinUnmapFail hpc =>
    rw [hpc] at hj
    exact hat hj
  | @joinResult thr c hpc =>
    rw [hpc] at hj
    have hheld := (hinv.custody c).held a
    rw [stage_at hpc rfl] at hheld
    exact hat ⟨hj.1, hj.2, hheld.2.2.1, rfl⟩
  | joinRemove hpc hlock =>
    rw [hpc] at hj
    exact hat hj
  | joinFree hpc =>
    rw [hpc] at hj
    exact hat ⟨_, hj⟩
  | detachFind hpc hlock =>
    unfold Threads.detachFind
    split
    · exact hat trivial
    · split
      · split
        · exact hat trivial
        · split
          · dsimp only
            split <;> exact hat trivial
          · exact hat trivial
      · exact hat trivial
  | createPublish hpc hlock =>
    unfold Threads.createPublish
    dsimp only
    split <;> exact hat trivial
  | join thr hpc | detach thr hpc | exitCount hpc | observeTid hpc =>
    refine hat ?_
    split <;> trivial
  | @entry ready hpc =>
    refine hat ?_
    cases ready <;> trivial
  | @reapFree c restoreJoinable hpc =>
    refine hat ?_
    cases restoreJoinable <;> trivial
  | @wake next hpc =>
    refine hat ?_
    cases next <;> trivial
  | findReapable hpc | findDetached hpc => split <;> exact hat trivial
  | @createRefused last nomem hpc | @createFree c nomem hpc =>
    refine hat ?_
    cases nomem <;> trivial
  | _ => exact hat trivial

theorem reachable_joins {w : Threads} (h : Reachable Init (Step fresh) w) : Inv w ∧ ∀ a, Joins w (w.pc a) := by
  refine h.invariant (I := fun w => Inv w ∧ ∀ a, Joins w (w.pc a)) ?_ ?_
  · intro w hw
    refine ⟨hw.inv, ?_⟩
    rintro (_ | c | _)
    · rw [hw.main]
      trivial
    · rw [hw.child]
      trivial
    · rw [hw.reaper]
      trivial
  · rintro w w' ⟨hinv, hj⟩ hs
    refine ⟨hinv.step hs, fun b => ?_⟩
    have hkeep := fun b => (hj b).step hinv hs
    cases hs with
    | @acts _ a hruns hacts =>
      by_cases hb : b = a
      · subst hb
        exact (hacts.joins hinv (hj b)).step hinv (.acts hruns hacts)
      · rcases (hacts.frame hinv).others b hb with he | ⟨-, he⟩
        · rw [he]
          exact hkeep b
        · rw [he]
          trivial
    | start ht | finish ht hpc => exact hkeep b

/-! ## The results -/

/-- A handle whose control is claimed, detached or gone is refused, and nothing
changes. -/
theorem Inv.refuses {w w' : Threads} (hinv : Inv w) (hdistinct : Distinct w) {c thr : Nat}
    (ht : (w.task c).tid? = some thr) (hc : (w.control c).lifecycle ≠ .joinable ∨ c ∉ w.registry) {a : Agent}
    (hruns : w.Runs a) (hpc : w.pc a = .joinFind thr ∨ w.pc a = .detachFind thr) (h : Acts fresh w a w') :
    w' = w.goto a (refused false) := by
  have hfind : ∀ {d}, w.findControl thr = some d → d = c ∧ (w.control d).lifecycle ≠ .joinable := by
    intro d hf
    obtain ⟨hl, hp, hd⟩ := findControl_some hf
    have hname : (w.task d).tid? = some (w.control d).tid := (hinv.custody d).named hp
    rw [hd] at hname
    have he := hdistinct d c thr hname ht
    refine ⟨he, ?_⟩
    rw [he] at hl ⊢
    exact hc.resolve_right fun hnot => hnot hl
  rcases hpc with hpc | hpc
  · rw [h.of_joinFind hpc]
    unfold joinFind
    split
    · rfl
    · rename_i d hf
      exact if_neg (hfind hf).2
  · obtain ⟨reaper, rfl⟩ := h.of_detachFind hpc
    have htarget : ∀ {d}, w.detachTarget a thr = some d → (w.control d).lifecycle ≠ .joinable := by
      intro d hf
      unfold detachTarget at hf
      cases a with
      | main | reaper => exact (hfind hf).2
      | child e =>
        dsimp only at hf
        split at hf
        · rename_i hself
          cases hf
          obtain ⟨tid, hrun⟩ := hruns
          have hd : (w.task d).tid? = some thr := by
            rw [hself]
            show (w.task d).tid? = some ((w.task d).tid?.getD 0)
            rw [hrun]
            rfl
          have hl : d ∈ w.registry := ((hinv.custody d).running hrun).1.listed
          rw [hdistinct d c thr hd ht] at hl ⊢
          exact hc.resolve_right fun hnot => hnot hl
        · exact (hfind hf).2
    unfold detachFind
    split
    · rfl
    · rename_i d hf
      exact if_neg (htarget hf)

/-- Thread resources are reclaimed once. In every run in which no thread id is
used twice:
- a stack is unmapped and a control freed at most once;
- at most one agent holds a control, and until it is freed a published control
  has a holder or can be claimed;
- the stack and the control of a thread are released by their only holder, once
  the kernel has cleared the thread's word and the control is published;
- a join returns what the one thread with the handle passed to `thrd_exit`;
- a handle whose control is claimed, detached or reclaimed is refused, and
  nothing changes;
- a claimant whose wait or unmap fails puts the control back, and then nobody
  holds it and it can be claimed. -/
theorem threads_reclaimed_once {w : Threads} (h : Reachable Init (Step Unused) w) (c : Nat) :
    (w.unmaps c ≤ 1 ∧ w.frees c ≤ 1) ∧
    (∀ a b, stageOf (w.pc a) c ≠ .none → stageOf (w.pc b) c ≠ .none → a = b) ∧
    ((w.control c).published = true → w.frees c = 0 → (∃ a, stageOf (w.pc a) c ≠ .none) ∨
      c ∈ w.registry ∧ ((w.control c).lifecycle = .joinable ∨ (w.control c).lifecycle = .detached)) ∧
    (∀ w', Step Unused w w' → w.task c ≠ .unborn → w'.unmaps c ≠ w.unmaps c ∨ w'.frees c ≠ w.frees c →
      (w.control c).clearTid = 0 ∧ (w.control c).published = true ∧
        ∃ a claim, (∀ b, b ≠ a → stageOf (w.pc b) c = .none) ∧
          (stageOf (w.pc a) c = .unmapping claim ∧ stageOf (w'.pc a) c = .unlinking claim ∨
            stageOf (w.pc a) c = .freeing claim ∧ stageOf (w'.pc a) c = .none)) ∧
    (∀ a thr res, w.pc a = .idle (some (.joined thr res)) →
      ∃ d, (∀ e, (w.task e).tid? = some thr ↔ e = d) ∧ (w.custody d).Exited ∧ res = (w.passed d).getD 0) ∧
    (∀ a thr w', w.Runs a → w.pc a = .joinFind thr ∨ w.pc a = .detachFind thr → (w.task c).tid? = some thr →
      (w.control c).lifecycle ≠ .joinable ∨ c ∉ w.registry → Acts Unused w a w' → w' = w.goto a (refused false)) ∧
    (∀ a w', Step Unused w w' → stageOf (w.pc a) c ≠ .none → stageOf (w'.pc a) c = stageOf (w.pc a) c ∨
      (w.custody c).Follows (w'.custody c) a (stageOf (w.pc a) c)) := by
  obtain ⟨hinv, hjoins⟩ := reachable_joins h
  have hdistinct := reachable_distinct h
  have hc := hinv.custody c
  refine ⟨hc.counts, hc.alone, ?_, ?_, ?_, ?_, ?_⟩
  · intro hp hf
    rcases hc.never_lost hp hf with ⟨a, ha, -⟩ | ⟨ho, -⟩
    · exact .inl ⟨a, ha⟩
    · exact .inr ⟨ho.1.listed, ho.2⟩
  · intro w' hs hborn hchange
    rcases hs.custody hinv c with he | hs
    · rcases hchange with hu | hf
      · exact absurd (congrArg Custody.unmaps he) hu
      · exact absurd (congrArg Custody.frees he) hf
    · exact hs.releases hc hborn hchange
  · intro a thr res hpc
    have hj := hjoins a
    rw [hpc] at hj
    obtain ⟨d, hp, hd, he, hr⟩ := hj
    have hname : (w.task d).tid? = some (w.control d).tid := (hinv.custody d).named hp
    rw [hd] at hname
    refine ⟨d, fun e => ⟨fun ht => hdistinct e d thr ht hname, ?_⟩, he, ?_⟩
    · rintro rfl
      exact hname
    · -- the thread is gone, so it is behind its store
      have hstored := (reachable_stored h).2 d
      rw [← hr]
      apply hstored.stored (hstored.quiet fun tid ht => ?_)
      obtain ⟨u, hu⟩ := he
      have hu : w.task d = .exited u := hu
      rw [ht] at hu
      cases hu
  · intro a thr w' hruns hpc ht hstate hs
    exact hinv.refuses hdistinct ht hstate hruns hpc hs
  · intro a w' hs ha
    rcases hs.custody hinv c with he | hs
    · exact .inl (congrFun (congrArg Custody.stage he) a)
    · exact hs.follows hc ha

/-- The main thread joins the first thread, which exited with 7, and is to unmap
its stack. -/
def unmapping : Threads :=
  (((begun.forked 5).exiting 0 5 7).asked.joinFind .main 5).goto .main (.joinUnmap 5 0)

theorem reachable_unmapping : Reachable Init (Step Unused) unmapping := by
  have hexited := Beside.reachable (reachable_begun fun _ => nofun)
    (@exiting_run Unused (begun.forked 5) 0 5 rfl rfl (by decide) 7)
  have hasked := hexited.next (asked_step rfl rfl)
  have hclaimed := hasked.next (.acts (a := .main) trivial (.joinFind rfl rfl))
  exact hclaimed.next (.acts (a := .main) trivial (@Acts.joinLoad _ _ _ 5 0 rfl))

theorem threads_reclaimed_once_begun :
    (unmapping.control 0).clearTid = 0 ∧ (unmapping.control 0).published = true ∧
      ∃ a claim, (∀ b, b ≠ a → stageOf (unmapping.pc b) 0 = .none) ∧
        (stageOf (unmapping.pc a) 0 = .unmapping claim ∧
            stageOf (((unmapping.unmapStack 0).goto .main (.joinResult 5 0)).pc a) 0 = .unlinking claim ∨
          stageOf (unmapping.pc a) 0 = .freeing claim ∧
            stageOf (((unmapping.unmapStack 0).goto .main (.joinResult 5 0)).pc a) 0 = .none) :=
  (threads_reclaimed_once reachable_unmapping 0).2.2.2.1 _ (.acts (a := .main) trivial (.joinUnmap rfl)) nofun
    (.inl (by decide))

end Threads

end MiniLibc.Thread
