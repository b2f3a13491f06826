import MiniLibc.Thread.Lifecycle
/-!
# Every step is a step of each control

The code's threads, seen from one control: a step of an agent or of the kernel
is a step of the control, or none.
-/
open MiniLibc.Runs

namespace MiniLibc.Thread

namespace Threads

/-! ## The view of a control -/

/-- How `reap_claimed_control` got its control. -/
def reapClaim (restoreJoinable : Bool) : Claim := if restoreJoinable then .detach else .reap

/-- The control an agent holds, and what it is about to do with it. -/
def holds : LifecyclePc → Option (Nat × Stage)
  | .createInsert c => some (c, .inserting)
  | .createClone c => some (c, .cloning)
  | .createPublish c tid => some (c, .publishing tid)
  | .createRemove c _ => some (c, .discarding)
  | .createUnmap c _ => some (c, .unmappingNew)
  | .createFree c _ => some (c, .freeingNew)
  | .joinLoad _ c | .joinWait _ c => some (c, .waiting)
  | .joinUnmap _ c => some (c, .unmapping .join)
  | .joinRestore _ c => some (c, .restoring .join)
  | .joinResult _ c | .joinRemove _ c _ => some (c, .unlinking .join)
  | .joinFree _ c _ => some (c, .freeing .join)
  | .reapUnmap c restoreJoinable => some (c, .unmapping (reapClaim restoreJoinable))
  | .reapRestore c restoreJoinable => some (c, .restoring (reapClaim restoreJoinable))
  | .reapRemove c restoreJoinable => some (c, .unlinking (reapClaim restoreJoinable))
  | .reapFree c restoreJoinable => some (c, .freeing (reapClaim restoreJoinable))
  | _ => none

def stageOf (p : LifecyclePc) (c : Nat) : Stage :=
  match holds p with
  | some (d, s) => if d = c then s else .none
  | none => .none

def custody (w : Threads) (c : Nat) : Custody Agent where
  control := w.control c
  task := w.task c
  listed := c ∈ w.registry
  unmaps := w.unmaps c
  frees := w.frees c
  stage a := stageOf (w.pc a) c

theorem stageOf_some {p : LifecyclePc} {d : Nat} {s : Stage} (h : holds p = some (d, s)) (c : Nat) :
    stageOf p c = if d = c then s else .none := by
  unfold stageOf
  rw [h]

theorem stageOf_self {p : LifecyclePc} {c : Nat} {s : Stage} (h : holds p = some (c, s)) : stageOf p c = s := by
  rw [stageOf_some h, if_pos rfl]

theorem stageOf_none {p : LifecyclePc} (h : holds p = none) (c : Nat) : stageOf p c = .none := by
  unfold stageOf
  rw [h]

theorem custody_goto (w : Threads) (a : Agent) (p : LifecyclePc) (c : Nat) :
    (w.goto a p).custody c = (w.custody c).move a (stageOf p c) := by
  refine congrArg (Custody.mk _ _ _ _ _) ?_
  funext b
  exact Function.apply_update (fun _ p => stageOf p c) w.pc a p b

theorem custody_setControl (w : Threads) (d : Nat) (k : Control) (c : Nat) :
    (w.setControl d k).custody c = if c = d then { w.custody c with control := k } else w.custody c := by
  have hk : (w.setControl d k).control c = if c = d then k else w.control c := Function.update_apply ..
  unfold custody
  rw [hk]
  split <;> rfl

theorem custody_setTask (w : Threads) (d : Nat) (k : Task) (c : Nat) :
    (w.setTask d k).custody c = if c = d then { w.custody c with task := k } else w.custody c := by
  have hk : (w.setTask d k).task c = if c = d then k else w.task c := Function.update_apply ..
  unfold custody
  rw [hk]
  split <;> rfl

theorem custody_unmapStack (w : Threads) (d c : Nat) :
    (w.unmapStack d).custody c = if c = d then { w.custody c with unmaps := w.unmaps c + 1 } else w.custody c := by
  have hk : (w.unmapStack d).unmaps c = if c = d then w.unmaps d + 1 else w.unmaps c := Function.update_apply ..
  unfold custody
  rw [hk]
  split
  · rename_i hc
    rw [hc]
    rfl
  · rfl

theorem custody_freeControl (w : Threads) (d c : Nat) :
    (w.freeControl d).custody c = if c = d then { w.custody c with frees := w.frees c + 1 } else w.custody c := by
  have hk : (w.freeControl d).frees c = if c = d then w.frees d + 1 else w.frees c := Function.update_apply ..
  unfold custody
  rw [hk]
  split
  · rename_i hc
    rw [hc]
    rfl
  · rfl

theorem custody_storeResult (w : Threads) (d : Nat) (result : Int) (c : Nat) :
    (w.storeResult d result).custody c =
      if c = d then { w.custody c with control := { w.control d with result } } else w.custody c :=
  custody_setControl w d _ c

theorem custody_insertControl (w : Threads) (d c : Nat) :
    (w.insertControl d).custody c = if c = d then { w.custody c with listed := True } else w.custody c := by
  have hk : (c ∈ (w.insertControl d).registry) = (c = d ∨ c ∈ w.registry) := propext List.mem_cons
  unfold custody
  rw [hk]
  split
  · rename_i hc
    simp only [hc, true_or]
    rfl
  · rename_i hc
    simp only [hc, false_or]
    rfl

theorem custody_removeControl {w : Threads} (hnodup : w.registry.Nodup) (d c : Nat) :
    (w.removeControl d).custody c = if c = d then { w.custody c with listed := False } else w.custody c := by
  have hk : (c ∈ (w.removeControl d).registry) = (c ≠ d ∧ c ∈ w.registry) := propext hnodup.mem_erase_iff
  unfold custody
  rw [hk]
  split
  · rename_i hc
    simp only [hc, ne_eq, not_true_eq_false, false_and]
    rfl
  · rename_i hc
    simp only [hc, ne_eq, not_false_eq_true, true_and]
    rfl

/-- An agent that keeps its stage. -/
theorem custody_stays {w w' : Threads} {a : Agent} {q p : LifecyclePc} (hpc : w.pc a = q) (hp : holds q = holds p)
    (c : Nat) (hw : w'.custody c = w.custody c) : (w'.goto a p).custody c = w.custody c := by
  have hstage : (w.custody c).stage a = stageOf p c := by
    show stageOf (w.pc a) c = stageOf p c
    unfold stageOf
    rw [hpc, hp]
  rw [custody_goto, hw]
  refine congrArg (Custody.mk _ _ _ _ _) ?_
  rw [← hstage]
  exact Function.update_eq_self a _

/-- An agent that works on control `d` makes a step of it, and of no other. -/
theorem custody_moves {w w' : Threads} {a : Agent} {q p : LifecyclePc} {d : Nat} {s : Stage}
    {f : Nat → Custody Agent} (hpc : w.pc a = q) (hw : ∀ c, w'.custody c = if c = d then f c else w.custody c)
    (hs : Custody.Step (w.custody d) ((f d).move a s)) (hfrom : ∀ c, c ≠ d → stageOf q c = .none)
    (hto : ∀ c, stageOf p c = if d = c then s else .none) (c : Nat) :
    (w'.goto a p).custody c = w.custody c ∨ Custody.Step (w.custody c) ((w'.goto a p).custody c) := by
  by_cases hc : c = d
  · subst hc
    rw [custody_goto, hw, if_pos rfl, hto, if_pos rfl]
    exact .inr hs
  · left
    have hstage : (w.custody c).stage a = stageOf p c := by
      show stageOf (w.pc a) c = stageOf p c
      rw [hpc, hfrom c hc, hto, if_neg (Ne.symm hc)]
    rw [custody_goto, hw, if_neg hc]
    refine congrArg (Custody.mk _ _ _ _ _) ?_
    rw [← hstage]
    exact Function.update_eq_self a _

/-- An agent that keeps its stage changes control `d`. -/
theorem custody_changes {w w' : Threads} {a : Agent} {q p : LifecyclePc} {d : Nat} {f : Nat → Custody Agent}
    (hpc : w.pc a = q) (hp : holds q = holds p) (hw : ∀ c, w'.custody c = if c = d then f c else w.custody c)
    (hstage : (f d).stage = (w.custody d).stage) (hs : Custody.Step (w.custody d) (f d)) (c : Nat) :
    (w'.goto a p).custody c = w.custody c ∨ Custody.Step (w.custody c) ((w'.goto a p).custody c) := by
  by_cases hc : c = d
  · subst hc
    right
    have hkeep : (f c).stage a = stageOf p c := by
      rw [hstage]
      show stageOf (w.pc a) c = stageOf p c
      unfold stageOf
      rw [hpc, hp]
    have hself : (w'.goto a p).custody c = f c := by
      rw [custody_goto, hw, if_pos rfl]
      refine congrArg (Custody.mk _ _ _ _ _) ?_
      rw [← hkeep]
      exact Function.update_eq_self a _
    rwa [hself]
  · left
    refine custody_stays hpc hp c ?_
    rw [hw, if_neg hc]

/-- What an agent without a control is at. -/
theorem free_stage {q : LifecyclePc} {d : Nat} (h : holds q = none) (c : Nat) (_ : c ≠ d) : stageOf q c = .none :=
  stageOf_none h c

/-- What an agent with control `d` is at, elsewhere. -/
theorem other_stage {q : LifecyclePc} {d : Nat} {s : Stage} (h : holds q = some (d, s)) (c : Nat) (hc : c ≠ d) :
    stageOf q c = .none := by
  rw [stageOf_some h, if_neg (Ne.symm hc)]

theorem leaves {p : LifecyclePc} {d : Nat} (h : holds p = none) (c : Nat) :
    stageOf p c = if d = c then .none else .none := by
  rw [stageOf_none h, ite_self]

/-! ## The steps of a control -/

/-- Where an agent holds the registry lock over several steps. -/
def critical : LifecyclePc → Bool
  | .notify _ | .wake _ | .findReapable _ | .findDetached | .observeTid _ _ => true
  | _ => false

/-- The invariant of the threads and their controls. -/
structure Inv (w : Threads) : Prop where
  custody (c : Nat) : (w.custody c).Inv
  unmade (c : Nat) : w.made ≤ c → (w.custody c).Unmade ∧ ∀ a, stageOf (w.pc a) c = .none
  nodup : w.registry.Nodup
  locked (a : Agent) : critical (w.pc a) = true → w.lock = some a
  scan (a : Agent) (rest : List Nat) : w.pc a = .findReapable rest → rest ⊆ w.registry

theorem Init.custody {w : Threads} (h : Init w) (c : Nat) :
    (w.custody c).Unmade ∧ ∀ a, stageOf (w.pc a) c = .none := by
  refine ⟨⟨h.control c, h.task c, ?_, h.unmaps c, h.frees c⟩, ?_⟩
  · intro hl
    have hl : c ∈ w.registry := hl
    rw [h.registry] at hl
    cases hl
  · rintro (_ | d | _)
    · rw [h.main]
      rfl
    · rw [h.child]
      rfl
    · rw [h.reaper]
      rfl

theorem Init.inv {w : Threads} (h : Init w) : Inv w where
  custody c := by
    obtain ⟨hu, hnone⟩ := h.custody c
    refine ⟨?_, ?_, ?_, ?_, fun _ => .inl hu⟩
    · unfold Custody.Word
      rw [hu.task, hu.control]
      rfl
    · intro hp
      rw [hu.control] at hp
      cases hp
    · exact fun a _ ha _ => absurd (hnone a) ha
    · intro a
      show (w.custody c).Held (stageOf (w.pc a) c)
      rw [hnone a]
      trivial
  unmade c _ := h.custody c
  nodup := by
    rw [h.registry]
    exact List.nodup_nil
  locked a hc := by
    rcases a with _ | d | _
    · rw [h.main] at hc
      cases hc
    · rw [h.child] at hc
      cases hc
    · rw [h.reaper] at hc
      cases hc
  scan a rest hpc := by
    rcases a with _ | d | _
    · rw [h.main] at hpc
      cases hpc
    · rw [h.child] at hpc
      cases hpc
    · rw [h.reaper] at hpc
      cases hpc

theorem findControl_some {w : Threads} {thr c : Nat} (h : w.findControl thr = some c) :
    c ∈ w.registry ∧ (w.control c).published = true ∧ (w.control c).tid = thr := by
  have hc := List.find?_some h
  simp only [Bool.and_eq_true, decide_eq_true_eq] at hc
  exact ⟨List.mem_of_find?_eq_some h, hc⟩

variable {fresh : Threads → Nat → Prop}

theorem stage_at {w : Threads} {a : Agent} {q : LifecyclePc} {d : Nat} {s : Stage} (hpc : w.pc a = q)
    (h : holds q = some (d, s)) : (w.custody d).stage a = s := by
  show stageOf (w.pc a) d = s
  rw [hpc, stageOf_self h]

theorem joinFind_custody {w : Threads} {a : Agent} {thr : Nat} (hpc : w.pc a = .joinFind thr) (c : Nat) :
    (w.joinFind a thr).custody c = w.custody c ∨ Custody.Step (w.custody c) ((w.joinFind a thr).custody c) := by
  unfold joinFind
  cases hf : w.findControl thr with
  | none => exact .inl (custody_stays hpc (by rfl) c rfl)
  | some d =>
    obtain ⟨hl, hp, -⟩ := findControl_some hf
    dsimp only
    split
    · rename_i hj
      exact custody_moves hpc (custody_setControl w d _) (.join hl hp hj) (free_stage rfl) (stageOf_some rfl) c
    · exact .inl (custody_stays hpc (by rfl) c rfl)

/-- The target of `thrd_detach` is in the registry and published, or the caller. -/
theorem detachTarget_some {w : Threads} {a : Agent} {thr c : Nat} (hruns : w.Runs a)
    (h : w.detachTarget a thr = some c) :
    (c ∈ w.registry ∧ (w.control c).published = true) ∨ ∃ tid, w.task c = .running tid := by
  have hfind : w.findControl thr = some c → c ∈ w.registry ∧ (w.control c).published = true := by
    intro hf
    obtain ⟨hl, hp, -⟩ := findControl_some hf
    exact ⟨hl, hp⟩
  unfold detachTarget at h
  cases a with
  | child d =>
    dsimp only at h
    split at h
    · cases h
      exact .inr hruns
    · exact .inl (hfind h)
  | main | reaper => exact .inl (hfind h)

theorem detachFind_custody {w : Threads} (hinv : Inv w) {a : Agent} {thr : Nat} {reaper : Bool} (hruns : w.Runs a)
    (hpc : w.pc a = .detachFind thr) (c : Nat) :
    (w.detachFind a thr reaper).custody c = w.custody c ∨
      Custody.Step (w.custody c) ((w.detachFind a thr reaper).custody c) := by
  unfold detachFind
  cases hf : w.detachTarget a thr with
  | none => exact .inl (custody_stays hpc (by rfl) c rfl)
  | some d =>
    have hd := detachTarget_some hruns hf
    dsimp only
    split
    · rename_i hj
      split
      · rename_i hz
        have hl : d ∈ w.registry := by
          rcases hd with ⟨hl, -⟩ | ⟨tid, ht⟩
          · exact hl
          · exact ((hinv.custody d).running ht).1.listed
        exact custody_moves hpc (custody_setControl w d _) (.detachDead hl hz.2 hj hz.1) (free_stage rfl)
          (stageOf_some rfl) c
      · split
        · have hdetach := custody_setControl w d { w.control d with lifecycle := .detached }
          split
          · exact custody_changes hpc (by rfl) hdetach rfl (.detach hd hj) c
          · exact custody_changes hpc (by rfl) hdetach rfl (.detach hd hj) c
        · exact .inl (custody_stays hpc (by rfl) c rfl)
    · exact .inl (custody_stays hpc (by rfl) c rfl)

theorem createPublish_custody {w : Threads} {a : Agent} {d tid : Nat} (hpc : w.pc a = .createPublish d tid) (c : Nat) :
    (w.createPublish a d tid).custody c = w.custody c ∨
      Custody.Step (w.custody c) ((w.createPublish a d tid).custody c) := by
  have hcontrol := custody_setControl w d { w.control d with tid, published := true }
  have hstep : Custody.Step (w.custody d) _ := .publish (stage_at hpc rfl)
  unfold createPublish
  dsimp only
  split
  · exact custody_moves hpc hcontrol hstep (other_stage rfl) (leaves rfl) c
  · exact custody_moves hpc hcontrol hstep (other_stage rfl) (leaves rfl) c

theorem custody_wakeReaper (w : Threads) (c : Nat) : w.wakeReaper.custody c = w.custody c := by
  unfold wakeReaper
  split
  · rename_i hpc
    exact custody_stays hpc (by rfl) c rfl
  · rfl

theorem holds_notified (next : Notified) : holds (notified next) = none := by cases next <;> rfl

variable {fresh : Threads → Nat → Prop}

theorem Acts.custody {w w' : Threads} {a : Agent} (hinv : Inv w) (hruns : w.Runs a) (h : Acts fresh w a w') (c : Nat) :
    w'.custody c = w.custody c ∨ Custody.Step (w.custody c) (w'.custody c) := by
  cases h with
  | createRefused hpc | exit _ hpc | exitStoreMain _ hpc | notify hpc | joinWaited hpc | joinResult hpc
  | reaperLoop hpc | findReapableEnd hpc | pollWait hpc | eventSleep hpc =>
    exact .inl (custody_stays hpc (by rfl) c rfl)
  | join thr hpc =>
    left
    refine custody_stays hpc ?_ c rfl
    split <;> rfl
  | detach thr hpc =>
    left
    refine custody_stays hpc ?_ c rfl
    split <;> rfl
  | create hpc hroom =>
    obtain ⟨hu, hnone⟩ := hinv.unmade w.made (Nat.le_refl _)
    have hcontrol : ∀ c, ({ w.setControl w.made .new with made := w.made + 1 } : Threads).custody c =
        if c = w.made then w.custody c else w.custody c := by
      intro c
      refine (custody_setControl w w.made .new c).trans ?_
      split
      · rename_i hc
        subst hc
        rw [← hu.control]
      · rfl
    exact custody_moves hpc hcontrol (.make hu hnone) (free_stage rfl) (stageOf_some rfl) c
  | @entry ready hpc =>
    left
    refine custody_stays hpc ?_ c rfl
    cases ready <;> rfl
  | @createInsert d hpc hlock =>
    exact custody_moves hpc (custody_insertControl w d) (.insert (stage_at hpc rfl)) (other_stage rfl)
      (stageOf_some rfl) c
  | @createClone d tid hpc hpos =>
    exact custody_moves hpc (custody_setTask w d _) (.clone (stage_at hpc rfl) hpos) (other_stage rfl)
      (stageOf_some rfl) c
  | @createCloneFail d nomem hpc =>
    exact custody_moves hpc (fun c => (ite_self _).symm) (.cloneFail (stage_at hpc rfl)) (other_stage rfl)
      (stageOf_some rfl) c
  | createPublish hpc hlock => exact createPublish_custody hpc c
  | @createRemove d nomem hpc hlock =>
    exact custody_moves hpc (custody_removeControl hinv.nodup d) (.discard (stage_at hpc rfl)) (other_stage rfl)
      (stageOf_some rfl) c
  | @createUnmap d nomem hpc =>
    have hstep := @Custody.Step.unmapNew _ _ (w.custody d) a true (stage_at hpc rfl)
    exact custody_moves hpc (custody_unmapStack w d) hstep (other_stage rfl) (stageOf_some rfl) c
  | @createUnmapFail d nomem hpc =>
    have hstep := @Custody.Step.unmapNew _ _ (w.custody d) a false (stage_at hpc rfl)
    exact custody_moves hpc (fun c => (ite_self _).symm) hstep (other_stage rfl) (stageOf_some rfl) c
  | @createFree d nomem hpc =>
    exact custody_moves hpc (custody_freeControl w d) (.freeNew (stage_at hpc rfl)) (other_stage rfl) (leaves rfl) c
  | @wake next hpc => exact .inl (custody_stays hpc (holds_notified next).symm c (custody_wakeReaper w c))
  | joinFind hpc hlock => exact joinFind_custody hpc c
  | @joinLoad thr d hpc =>
    split
    · rename_i hz
      exact custody_moves hpc (fun c => (ite_self _).symm) (.waited (stage_at hpc rfl) hz) (other_stage rfl)
        (stageOf_some rfl) c
    · exact .inl (custody_stays hpc (by rfl) c rfl)
  | @joinWaitFail thr d hpc =>
    exact custody_moves hpc (fun c => (ite_self _).symm) (.waitFail (stage_at hpc rfl)) (other_stage rfl)
      (stageOf_some rfl) c
  | @joinUnmap thr d hpc =>
    exact custody_moves hpc (custody_unmapStack w d) (.unmap (stage_at hpc rfl)) (other_stage rfl) (stageOf_some rfl) c
  | @joinUnmapFail thr d hpc =>
    exact custody_moves hpc (fun c => (ite_self _).symm) (.unmapFail (stage_at hpc rfl)) (other_stage rfl)
      (stageOf_some rfl) c
  | @joinRestore thr d hpc hlock =>
    exact custody_moves hpc (custody_setControl w d _) (.restore (stage_at hpc rfl)) (other_stage rfl) (leaves rfl) c
  | @joinRemove thr d res hpc hlock =>
    exact custody_moves hpc (custody_removeControl hinv.nodup d) (.unlink (stage_at hpc rfl)) (other_stage rfl)
      (stageOf_some rfl) c
  | @joinFree thr d res hpc =>
    exact custody_moves hpc (custody_freeControl w d) (.free (stage_at hpc rfl)) (other_stage rfl) (leaves rfl) c
  | detachFind hpc hlock => exact detachFind_custody hinv hruns hpc c
  | @reapUnmap d restoreJoinable hpc =>
    exact custody_moves hpc (custody_unmapStack w d) (.unmap (stage_at hpc rfl)) (other_stage rfl) (stageOf_some rfl) c
  | @reapUnmapFail d restoreJoinable hpc =>
    exact custody_moves hpc (fun c => (ite_self _).symm) (.unmapFail (stage_at hpc rfl)) (other_stage rfl)
      (stageOf_some rfl) c
  | @reapRestoreJoinable d hpc hlock =>
    exact custody_moves hpc (custody_setControl w d _) (.restore (stage_at hpc rfl)) (other_stage rfl) (leaves rfl) c
  | @reapRestore d hpc hlock =>
    exact custody_moves hpc (custody_setControl w d _) (.restore (stage_at hpc rfl)) (other_stage rfl) (leaves rfl) c
  | @reapRemove d restoreJoinable hpc hlock =>
    exact custody_moves hpc (custody_removeControl hinv.nodup d) (.unlink (stage_at hpc rfl)) (other_stage rfl)
      (stageOf_some rfl) c
  | @reapFree d restoreJoinable hpc =>
    refine custody_moves hpc (custody_freeControl w d) (.free (stage_at hpc rfl)) (other_stage rfl) (leaves ?_) c
    cases restoreJoinable <;> rfl
  | @exitStore d res ha hpc =>
    subst ha
    obtain ⟨tid, ht⟩ := hruns
    exact custody_changes hpc (by rfl) (custody_storeResult w d res) rfl (.store ht) c
  | exitCount hpc =>
    left
    refine custody_stays hpc ?_ c rfl
    split <;> rfl
  | @findReapable d rest hpc =>
    split
    · rename_i hreap
      simp only [reapableAt, detachedAt, Bool.and_eq_true, decide_eq_true_eq] at hreap
      have hl : d ∈ w.registry := hinv.scan a _ hpc (List.mem_cons_self ..)
      exact custody_moves hpc (custody_setControl w d _) (.reap hl hreap.1.1 hreap.1.2 hreap.2) (free_stage rfl)
        (stageOf_some rfl) c
    · exact .inl (custody_stays hpc (by rfl) c rfl)
  | findDetached hpc =>
    left
    split <;> exact custody_stays hpc (by rfl) c rfl
  | observeTid hpc =>
    left
    refine custody_stays hpc ?_ c rfl
    split <;> rfl
  | eventAgain hpc =>
    left
    rcases hpc with hpc | hpc
    · exact custody_stays hpc (by rfl) c rfl
    · exact custody_stays hpc (by rfl) c rfl

/-! ## What a step leaves alone -/

/-- The lock, the registry and the other agents in a step of agent `a`. -/
structure Frame (w : Threads) (a : Agent) (w' : Threads) : Prop where
  others (b : Agent) : b ≠ a → w'.pc b = w.pc b ∨ w.pc b = .eventAsleep ∧ w'.pc b = .reaperLoop
  lock : w'.lock = w.lock ∨ (w.lock = none ∧ w'.lock = some a) ∨ (critical (w.pc a) = true ∧ w'.lock = none)
  locked : critical (w'.pc a) = true → w'.lock = some a ∨ (critical (w.pc a) = true ∧ w'.lock = w.lock)
  registry : w'.registry = w.registry ∨ w.lock = none ∧
    ((∃ c, w.pc a = .createInsert c ∧ w'.registry = c :: w.registry) ∨ ∃ c, w'.registry = w.registry.erase c)
  scan (rest : List Nat) : w'.pc a = .findReapable rest → w'.registry = w.registry ∧
    (rest = w.registry ∨ ∃ c, w.pc a = .findReapable (c :: rest))
  made : w'.made = w.made ∧ (∀ c, w'.pc a ≠ .createInsert c) ∨
    w'.made = w.made + 1 ∧ w'.pc a = .createInsert w.made

/-- Places an agent comes to without the lock. -/
def quiet : LifecyclePc → Bool
  | .createInsert _ => false
  | p => !critical p

theorem quiet_spec {p : LifecyclePc} (h : quiet p = true) :
    critical p = false ∧ (∀ rest, p ≠ .findReapable rest) ∧ ∀ c, p ≠ .createInsert c := by
  cases p <;> simp_all [quiet, critical]

theorem goto_pc (w : Threads) (a : Agent) (p : LifecyclePc) : (w.goto a p).pc a = p := Function.update_self ..

theorem goto_others {w w' : Threads} {a : Agent} {p : LifecyclePc} (hpc : w'.pc = w.pc) (b : Agent) (hb : b ≠ a) :
    (w'.goto a p).pc b = w.pc b ∨ w.pc b = .eventAsleep ∧ (w'.goto a p).pc b = .reaperLoop := by
  left
  rw [← hpc]
  exact Function.update_of_ne hb _ _

/-- A step outside the lock, or a critical section of one step. -/
theorem Frame.plain {w w' : Threads} {a : Agent} {p : LifecyclePc} (hp : quiet p = true) (hpc : w'.pc = w.pc)
    (hlock : w'.lock = w.lock) (hmade : w'.made = w.made)
    (hregistry : w'.registry = w.registry ∨ w.lock = none ∧
      ((∃ c, w.pc a = .createInsert c ∧ w'.registry = c :: w.registry) ∨ ∃ c, w'.registry = w.registry.erase c)) :
    Frame w a (w'.goto a p) := by
  obtain ⟨hcritical, hscan, hinsert⟩ := quiet_spec hp
  refine ⟨goto_others hpc, .inl hlock, ?_, hregistry, ?_, .inl ⟨hmade, ?_⟩⟩
  · intro hc
    rw [goto_pc, hcritical] at hc
    cases hc
  · intro rest hr
    rw [goto_pc] at hr
    exact absurd hr (hscan rest)
  · intro c hc
    rw [goto_pc] at hc
    exact hinsert c hc

/-- A step that leaves an agent with the lock, or lets go of it. -/
theorem Frame.critical {w w' : Threads} {a : Agent} {p : LifecyclePc} (hinsert : ∀ c, p ≠ .createInsert c)
    (hpc : w'.pc = w.pc) (hmade : w'.made = w.made) (hregistry : w'.registry = w.registry)
    (hscan : ∀ rest, p = .findReapable rest → rest = w.registry ∨ ∃ c, w.pc a = .findReapable (c :: rest))
    (hlock : (w.lock = none ∨ Threads.critical (w.pc a) = true ∧ w.lock = some a) ∧ w'.lock = some a ∨
      Threads.critical (w.pc a) = true ∧ w'.lock = none ∧ Threads.critical p = false) :
    Frame w a (w'.goto a p) := by
  refine ⟨goto_others hpc, ?_, ?_, .inl hregistry, ?_, .inl ⟨hmade, ?_⟩⟩
  · rcases hlock with ⟨hl | ⟨-, hl⟩, hl'⟩ | ⟨hc, hl', -⟩
    · exact .inr (.inl ⟨hl, hl'⟩)
    · exact .inl (hl'.trans hl.symm)
    · exact .inr (.inr ⟨hc, hl'⟩)
  · intro hc
    rw [goto_pc] at hc
    rcases hlock with ⟨-, hl'⟩ | ⟨-, -, hp⟩
    · exact .inl hl'
    · rw [hp] at hc
      cases hc
  · intro rest hr
    rw [goto_pc] at hr
    exact ⟨hregistry, hscan rest hr⟩
  · intro c hc
    rw [goto_pc] at hc
    exact hinsert c hc

theorem Acts.frame {w w' : Threads} {a : Agent} (hinv : Inv w) (h : Acts fresh w a w') : Frame w a w' := by
  cases h with
  | createRefused hpc | exit _ hpc | exitStoreMain _ hpc | joinWaited hpc | joinResult hpc | pollWait hpc
  | eventSleep hpc | createClone hpc | createCloneFail hpc | createUnmap hpc | createUnmapFail hpc | createFree hpc
  | joinWaitFail hpc | joinUnmap hpc | joinUnmapFail hpc | joinRestore hpc | joinFree hpc | reapUnmap hpc
  | reapUnmapFail hpc | reapRestoreJoinable hpc | exitStore _ hpc | eventAgain hpc =>
    exact .plain rfl rfl rfl rfl (.inl rfl)
  | join thr hpc => exact .plain (by split <;> rfl) rfl rfl rfl (.inl rfl)
  | detach thr hpc => exact .plain (by split <;> rfl) rfl rfl rfl (.inl rfl)
  | exitCount hpc => exact .plain (by split <;> rfl) rfl rfl rfl (.inl rfl)
  | joinLoad hpc => exact .plain (by split <;> rfl) rfl rfl rfl (.inl rfl)
  | @entry ready hpc => exact .plain (by cases ready <;> rfl) rfl rfl rfl (.inl rfl)
  | @reapFree d restoreJoinable hpc => exact .plain (by cases restoreJoinable <;> rfl) rfl rfl rfl (.inl rfl)
  | createInsert hpc hlock => exact .plain rfl rfl rfl rfl (.inr ⟨hlock, .inl ⟨_, hpc, rfl⟩⟩)
  | createRemove hpc hlock | joinRemove hpc hlock | reapRemove hpc hlock =>
    exact .plain rfl rfl rfl rfl (.inr ⟨hlock, .inr ⟨_, rfl⟩⟩)
  | create hpc hroom =>
    refine ⟨goto_others rfl, .inl rfl, ?_, .inl rfl, ?_, .inr ⟨rfl, goto_pc _ a _⟩⟩
    · intro hc
      rw [goto_pc] at hc
      cases hc
    · intro rest hr
      rw [goto_pc] at hr
      cases hr
  | createPublish hpc hlock =>
    unfold Threads.createPublish
    dsimp only
    split
    · exact .critical nofun rfl rfl rfl nofun (.inl ⟨.inl hlock, rfl⟩)
    · exact .plain rfl rfl rfl rfl (.inl rfl)
  | notify hpc =>
    have hc : Threads.critical (w.pc a) = true := by rw [hpc]; rfl
    exact .critical nofun rfl rfl rfl nofun (.inl ⟨.inr ⟨hc, hinv.locked a hc⟩, hinv.locked a hc⟩)
  | @wake next hpc =>
    have hc : Threads.critical (w.pc a) = true := by rw [hpc]; rfl
    have hquiet : quiet (notified next) = true := by cases next <;> rfl
    obtain ⟨hcritical, hscan, hinsert⟩ := quiet_spec hquiet
    have hsame : ∀ b, w.wakeReaper.pc b = w.pc b ∨ w.pc b = .eventAsleep ∧ w.wakeReaper.pc b = .reaperLoop := by
      intro b
      unfold wakeReaper
      split
      · rename_i hasleep
        by_cases hb : b = .reaper
        · subst hb
          exact .inr ⟨hasleep, goto_pc ..⟩
        · exact .inl (Function.update_of_ne hb _ _)
      · exact .inl rfl
    have hrest : w.wakeReaper.registry = w.registry ∧ w.wakeReaper.made = w.made := by
      unfold wakeReaper
      split <;> exact ⟨rfl, rfl⟩
    refine ⟨fun b hb => ?_, .inr (.inr ⟨hc, rfl⟩), ?_, .inl hrest.1, ?_, .inl ⟨hrest.2, ?_⟩⟩
    · have hother : ({ w.wakeReaper with lock := none }.goto a (notified next)).pc b = w.wakeReaper.pc b :=
        Function.update_of_ne hb _ _
      rw [hother]
      exact hsame b
    · intro hc'
      rw [goto_pc, hcritical] at hc'
      cases hc'
    · intro rest hr
      rw [goto_pc] at hr
      exact absurd hr (hscan rest)
    · intro c hc'
      rw [goto_pc] at hc'
      exact hinsert c hc'
  | @joinFind thr hpc hlock =>
    unfold Threads.joinFind
    split
    · exact .plain rfl rfl rfl rfl (.inl rfl)
    · split
      · exact .plain rfl rfl rfl rfl (.inl rfl)
      · exact .plain rfl rfl rfl rfl (.inl rfl)
  | @detachFind thr reaper hpc hlock =>
    unfold Threads.detachFind
    split
    · exact .plain rfl rfl rfl rfl (.inl rfl)
    · split
      · split
        · exact .plain rfl rfl rfl rfl (.inl rfl)
        · split
          · dsimp only
            split
            · exact .critical nofun rfl rfl rfl nofun (.inl ⟨.inl hlock, rfl⟩)
            · exact .plain rfl rfl rfl rfl (.inl rfl)
          · exact .plain rfl rfl rfl rfl (.inl rfl)
      · exact .plain rfl rfl rfl rfl (.inl rfl)
  | reapRestore hpc hlock => exact .critical nofun rfl rfl rfl nofun (.inl ⟨.inl hlock, rfl⟩)
  | reaperLoop hpc hlock =>
    exact .critical nofun rfl rfl rfl (by rintro rest ⟨⟩; exact .inl rfl) (.inl ⟨.inl hlock, rfl⟩)
  | @findReapable d rest hpc =>
    have hc : Threads.critical (w.pc a) = true := by rw [hpc]; rfl
    split
    · exact .critical nofun rfl rfl rfl nofun (.inr ⟨hc, rfl, rfl⟩)
    · exact .critical nofun rfl rfl rfl (by rintro rest ⟨⟩; exact .inr ⟨d, hpc⟩)
        (.inl ⟨.inr ⟨hc, hinv.locked a hc⟩, hinv.locked a hc⟩)
  | findReapableEnd hpc =>
    have hc : Threads.critical (w.pc a) = true := by rw [hpc]; rfl
    exact .critical nofun rfl rfl rfl nofun (.inl ⟨.inr ⟨hc, hinv.locked a hc⟩, hinv.locked a hc⟩)
  | findDetached hpc =>
    have hc : Threads.critical (w.pc a) = true := by rw [hpc]; rfl
    split
    · exact .critical nofun rfl rfl rfl nofun (.inl ⟨.inr ⟨hc, hinv.locked a hc⟩, hinv.locked a hc⟩)
    · exact .critical nofun rfl rfl rfl nofun (.inr ⟨hc, rfl, rfl⟩)
  | observeTid hpc =>
    have hc : Threads.critical (w.pc a) = true := by rw [hpc]; rfl
    split
    · exact .critical nofun rfl rfl rfl nofun (.inr ⟨hc, rfl, rfl⟩)
    · exact .critical nofun rfl rfl rfl nofun (.inr ⟨hc, rfl, rfl⟩)

/-- Every step is a step of each control, or none. -/
theorem Step.custody {w w' : Threads} (hinv : Inv w) (h : Step fresh w w') (c : Nat) :
    w'.custody c = w.custody c ∨ Custody.Step (w.custody c) (w'.custody c) := by
  have hkernel : ∀ {d : Nat} {task : Task} {control : Control},
      Custody.Step (w.custody d) { w.custody d with task, control } →
        ((w.setTask d task).setControl d control).custody c = w.custody c ∨
          Custody.Step (w.custody c) (((w.setTask d task).setControl d control).custody c) := by
    intro d task control hs
    rw [custody_setControl, custody_setTask]
    by_cases hc : c = d
    · subst hc
      rw [if_pos rfl, if_pos rfl]
      exact .inr hs
    · rw [if_neg hc, if_neg hc]
      exact .inl rfl
  cases h with
  | acts hruns hacts => exact hacts.custody hinv hruns c
  | start ht => exact hkernel (.run ht)
  | finish ht hpc => exact hkernel (.exit ht)

/-! ## The invariant of every run -/

/-- A control nobody made is made, or stays as it is. -/
theorem Inv.unmade_step {w w' : Threads} (hinv : Inv w) (h : Step fresh w w') {c : Nat} (hc : w.made ≤ c) :
    w'.custody c = w.custody c ∨ ∃ a, (w'.custody c).stage a = .inserting := by
  obtain ⟨hu, hnone⟩ := hinv.unmade c hc
  have hnone : ∀ a, (w.custody c).stage a = .none := hnone
  rcases h.custody hinv c with he | hs
  · exact .inl he
  · right
    generalize w'.custody c = f at hs
    cases hs with
    | @make a => exact ⟨a, Function.update_self ..⟩
    | insert ha | clone ha | cloneFail ha | discard ha | unmapNew ha | freeNew ha | publish ha | waited ha
    | waitFail ha | unmap ha | unmapFail ha | restore ha | unlink ha | free ha =>
      rw [hnone] at ha
      cases ha
    | run ht | store ht | exit ht =>
      rw [hu.task] at ht
      cases ht
    | join hl | detachDead hl | reap hl => exact absurd hl hu.listed
    | detach hwho =>
      rcases hwho with ⟨hl, -⟩ | ⟨tid, ht⟩
      · exact absurd hl hu.listed
      · rw [hu.task] at ht
        cases ht

theorem holds_of_stage {p : LifecyclePc} {c : Nat} {s : Stage} (h : stageOf p c = s) (hs : s ≠ .none) :
    holds p = some (c, s) := by
  cases hp : holds p with
  | none =>
    rw [stageOf_none hp] at h
    exact absurd h.symm hs
  | some x =>
    rw [stageOf_some hp] at h
    split at h
    · rename_i hc
      rw [← hc, ← h]
    · exact absurd h.symm hs

theorem stageOf_inserting {p : LifecyclePc} {c : Nat} (h : stageOf p c = .inserting) : p = .createInsert c := by
  have hp := holds_of_stage h nofun
  cases p with
  | createInsert d =>
    cases hp
    rfl
  | _ => cases hp

/-- A step of an agent, or one of the kernel, which changes no place in the code. -/
theorem Step.frame {w w' : Threads} (hinv : Inv w) (h : Step fresh w w') :
    (∃ a, Frame w a w') ∨ w'.pc = w.pc ∧ w'.lock = w.lock ∧ w'.registry = w.registry ∧ w'.made = w.made := by
  cases h with
  | acts hruns hacts => exact .inl ⟨_, hacts.frame hinv⟩
  | start ht | finish ht => exact .inr ⟨rfl, rfl, rfl, rfl⟩

theorem Frame.unmade {w w' : Threads} {a : Agent} (h : Frame w a w') {b : Agent} {c : Nat}
    (hb : w'.pc b = .createInsert c) (hnone : stageOf (w.pc b) c = .none) : c < w'.made := by
  by_cases hba : b = a
  · subst hba
    rcases h.made with ⟨-, hne⟩ | ⟨hmade, hpc⟩
    · exact absurd hb (hne c)
    · rw [hb] at hpc
      cases hpc
      omega
  · rcases h.others b hba with he | ⟨-, he⟩
    · rw [← he, hb, stageOf_self rfl] at hnone
      cases hnone
    · rw [hb] at he
      cases he

theorem Frame.inv_locked {w w' : Threads} {a : Agent} (h : Frame w a w') (hinv : Inv w) (b : Agent)
    (hc : Threads.critical (w'.pc b) = true) : w'.lock = some b := by
  by_cases hba : b = a
  · subst hba
    rcases h.locked hc with hl | ⟨hc, hl⟩
    · exact hl
    · exact hl.trans (hinv.locked b hc)
  · rcases h.others b hba with he | ⟨-, he⟩
    · rw [he] at hc
      have hb := hinv.locked b hc
      rcases h.lock with hl | ⟨hl, -⟩ | ⟨ha, -⟩
      · exact hl.trans hb
      · rw [hl] at hb
        cases hb
      · rw [hinv.locked a ha] at hb
        cases hb
        exact absurd rfl hba
    · rw [he] at hc
      cases hc

theorem Frame.inv_scan {w w' : Threads} {a : Agent} (h : Frame w a w') (hinv : Inv w) (b : Agent) (rest : List Nat)
    (hb : w'.pc b = .findReapable rest) : rest ⊆ w'.registry := by
  by_cases hba : b = a
  · subst hba
    obtain ⟨hr, rfl | ⟨c, hc⟩⟩ := h.scan rest hb
    · rw [hr]
      exact List.Subset.refl _
    · rw [hr]
      exact fun x hx => hinv.scan b _ hc (List.mem_cons_of_mem c hx)
  · rcases h.others b hba with he | ⟨-, he⟩
    · rw [he] at hb
      have hlock := hinv.locked b (by rw [hb]; rfl)
      rcases h.registry with hr | ⟨hl, -⟩
      · rw [hr]
        exact hinv.scan b rest hb
      · rw [hl] at hlock
        cases hlock
    · rw [hb] at he
      cases he

theorem Frame.inv_nodup {w w' : Threads} {a : Agent} (h : Frame w a w') (hinv : Inv w) : w'.registry.Nodup := by
  rcases h.registry with hr | ⟨-, ⟨c, hc, hr⟩ | ⟨c, hr⟩⟩
  · rw [hr]
    exact hinv.nodup
  · rw [hr]
    have hheld := (hinv.custody c).held a
    rw [stage_at hc rfl] at hheld
    exact List.nodup_cons.2 ⟨hheld.listed, hinv.nodup⟩
  · rw [hr]
    exact hinv.nodup.erase c

theorem Inv.step {w w' : Threads} (hinv : Inv w) (h : Step fresh w w') : Inv w' := by
  have hcustody : ∀ c, (w'.custody c).Inv := by
    intro c
    rcases h.custody hinv c with he | hs
    · rw [he]
      exact hinv.custody c
    · exact (hinv.custody c).step hs
  have hkeep : ∀ c, w.made ≤ c → w'.custody c = w.custody c →
      (w'.custody c).Unmade ∧ ∀ a, stageOf (w'.pc a) c = .none := by
    intro c hc he
    obtain ⟨hu, hnone⟩ := hinv.unmade c hc
    refine ⟨?_, fun a => ?_⟩
    · rw [he]
      exact hu
    · exact (congrFun (congrArg Custody.stage he) a).trans (hnone a)
  rcases h.frame hinv with ⟨a, hf⟩ | ⟨hpc, hlock, hregistry, hmade⟩
  · refine ⟨hcustody, fun c hc => ?_, hf.inv_nodup hinv, hf.inv_locked hinv, hf.inv_scan hinv⟩
    have hle : w.made ≤ c := by
      rcases hf.made with ⟨he, -⟩ | ⟨he, -⟩ <;> omega
    rcases hinv.unmade_step h hle with he | ⟨b, hb⟩
    · exact hkeep c hle he
    · have hlt := hf.unmade (stageOf_inserting hb) ((hinv.unmade c hle).2 b)
      omega
  · refine ⟨hcustody, fun c hc => ?_, by rw [hregistry]; exact hinv.nodup, ?_, ?_⟩
    · rw [hmade] at hc
      rcases hinv.unmade_step h hc with he | ⟨b, hb⟩
      · exact hkeep c hc he
      · have hb : stageOf (w'.pc b) c = .inserting := hb
        rw [hpc, (hinv.unmade c hc).2 b] at hb
        cases hb
    · rw [hpc, hlock]
      exact hinv.locked
    · rw [hpc, hregistry]
      exact hinv.scan

end Threads

end MiniLibc.Thread
