import MiniLibc.Thread.Claims
/-!
# Handles

A handle is the id of a thread, and `find_control_locked` takes the first
published control with it. The kernel gives an id out again once its thread has
exited, so whether a handle names one thread depends on which ids it gives.
-/
open MiniLibc.Runs

namespace MiniLibc.Thread

namespace Threads

variable {fresh : Threads → Nat → Prop}

/-- No thread had the id before. -/
def Unused (w : Threads) (tid : Nat) : Prop := ∀ c, (w.task c).tid? ≠ some tid

/-- No thread whose control is still in the registry had the id. -/
def Unregistered (w : Threads) (tid : Nat) : Prop := ∀ c, c ∈ w.registry → (w.task c).tid? ≠ some tid

/-- The kernel gives the id of any thread that does not run. -/
def AnyTid (_ : Threads) (_ : Nat) : Prop := True

/-- A step gives at most one thread its id. -/
theorem Acts.tids {w w' : Threads} {a : Agent} (h : Acts fresh w a w') :
    w'.task = w.task ∨ w'.registry = w.registry ∧ ∃ c tid, w.pc a = .createClone c ∧ fresh w tid ∧
      w'.task = Function.update w.task c (.born tid) := by
  cases h with
  | createClone hpc hpos hmain hlive hfresh => exact .inr ⟨rfl, _, _, hpc, hfresh, rfl⟩
  | joinFind hpc hlock =>
    left
    unfold Threads.joinFind
    split
    · rfl
    · split <;> rfl
  | detachFind hpc hlock =>
    left
    unfold Threads.detachFind
    split
    · rfl
    · split
      · split
        · rfl
        · split
          · dsimp only
            split <;> rfl
          · rfl
      · rfl
  | createPublish hpc hlock =>
    left
    unfold Threads.createPublish
    dsimp only
    split <;> rfl
  | wake hpc =>
    left
    show w.wakeReaper.task = w.task
    unfold wakeReaper
    split <;> rfl
  | findReapable hpc | findDetached hpc =>
    left
    split <;> rfl
  | _ => exact .inl rfl

theorem Step.tids {w w' : Threads} (h : Step fresh w w') :
    (∀ d, (w'.task d).tid? = (w.task d).tid?) ∨ w'.registry = w.registry ∧ ∃ a c tid, w.pc a = .createClone c ∧
      fresh w tid ∧ ∀ d, (w'.task d).tid? = if d = c then some tid else (w.task d).tid? := by
  have hkernel : ∀ {c : Nat} {t t' : Task}, w.task c = t → t'.tid? = t.tid? → ∀ d,
      (Function.update w.task c t' d).tid? = (w.task d).tid? := by
    intro c t t' ht hid d
    by_cases hd : d = c
    · subst hd
      rw [Function.update_self, hid, ht]
    · rw [Function.update_of_ne hd]
  cases h with
  | acts hruns hacts =>
    rcases hacts.tids with he | ⟨hr, c, tid, hpc, hfresh, ht⟩
    · left
      intro d
      rw [he]
    · refine .inr ⟨hr, _, c, tid, hpc, hfresh, fun d => ?_⟩
      rw [ht, Function.update_apply]
      split <;> rfl
  | start ht => exact .inl (hkernel ht rfl)
  | finish ht hpc => exact .inl (hkernel ht rfl)

/-- What a step puts in the registry has no thread yet. -/
theorem Inv.registry_step {w w' : Threads} (hinv : Inv w) (h : Step fresh w w') {c : Nat} (hc : c ∈ w'.registry) :
    c ∈ w.registry ∨ (w.task c).tid? = none := by
  rcases h.frame hinv with ⟨a, hf⟩ | ⟨-, -, hr, -⟩
  · rcases hf.registry with hr | ⟨-, ⟨d, hd, hr⟩ | ⟨d, hr⟩⟩
    · rw [hr] at hc
      exact .inl hc
    · rw [hr] at hc
      rcases List.mem_cons.1 hc with rfl | hc
      · have hheld := (hinv.custody c).held a
        rw [stage_at hd rfl] at hheld
        exact .inr (congrArg Task.tid? hheld.task)
      · exact .inl hc
    · rw [hr] at hc
      exact .inl (List.mem_of_mem_erase hc)
  · rw [hr] at hc
    exact .inl hc

/-- No two threads whose controls are in the registry have the same id. -/
def ListedDistinct (w : Threads) : Prop :=
  ∀ c d, c ∈ w.registry → d ∈ w.registry → ∀ tid, (w.task c).tid? = some tid → (w.task d).tid? = some tid → c = d

theorem ListedDistinct.step {w w' : Threads} (h : ListedDistinct w) (hinv : Inv w) (hs : Step Unregistered w w') :
    ListedDistinct w' := by
  intro c d hc hd tid hct hdt
  rcases hs.tids with hsame | ⟨hr, a, e, tid', hpc, hfresh, htask⟩
  · rw [hsame] at hct hdt
    rcases hinv.registry_step hs hc with hc | hnone
    · rcases hinv.registry_step hs hd with hd | hnone
      · exact h c d hc hd tid hct hdt
      · rw [hnone] at hdt
        cases hdt
    · rw [hnone] at hct
      cases hct
  · -- the id of the new thread is not one of the registry's
    rw [hr] at hc hd
    rw [htask] at hct hdt
    by_cases hce : c = e
    · by_cases hde : d = e
      · rw [hce, hde]
      · rw [if_pos hce] at hct
        rw [if_neg hde] at hdt
        cases hct
        exact absurd hdt (hfresh d hd)
    · rw [if_neg hce] at hct
      by_cases hde : d = e
      · rw [if_pos hde] at hdt
        cases hdt
        exact absurd hct (hfresh c hc)
      · rw [if_neg hde] at hdt
        exact h c d hc hd tid hct hdt

theorem reachable_listedDistinct {w : Threads} (h : Reachable Init (Step Unregistered) w) :
    Inv w ∧ ListedDistinct w := by
  refine h.invariant (I := fun w => Inv w ∧ ListedDistinct w) ?_ ?_
  · intro w hw
    refine ⟨hw.inv, ?_⟩
    intro c d hc
    rw [hw.registry] at hc
    cases hc
  · rintro w w' ⟨hinv, hd⟩ hs
    exact ⟨hinv.step hs, hd.step hinv hs⟩

/-- A published control that is joinable is in the registry. -/
theorem Inv.joinable_listed {w : Threads} (hinv : Inv w) {c : Nat} (hp : (w.control c).published = true)
    (hj : (w.control c).lifecycle = .joinable) : c ∈ w.registry := by
  have hc := hinv.custody c
  by_cases hf : w.frees c = 0
  · rcases hc.never_lost hp hf with ⟨a, -, -, hl | hl⟩ | ⟨ho, -⟩
    · have hl : (w.control c).lifecycle = .joining := hl
      rw [hj] at hl
      cases hl
    · have hl : (w.control c).lifecycle = .reaping := hl
      rw [hj] at hl
      cases hl
    · exact ho.1.listed
  · exfalso
    by_cases hall : ∀ a, (w.custody c).stage a = .none
    · rcases hc.resting hall with hr | ⟨hr, -⟩ | ⟨-, -, hr, -⟩ | ⟨-, -, -, -, -, hr⟩
      · exact hf hr.frees
      · exact hf hr.frees
      · have hr : w.control c = .new := hr
        rw [hr] at hp
        cases hp
      · have hr : (w.control c).lifecycle = .joining ∨ (w.control c).lifecycle = .reaping := hr
        rw [hj] at hr
        simp at hr
    · obtain ⟨a, ha⟩ := not_forall.1 hall
      exact hf (hc.held_counts ha).2

/-- The published control with a handle is the one the search finds. -/
theorem ListedDistinct.find {w : Threads} (h : ListedDistinct w) (hinv : Inv w) {c thr : Nat} (hl : c ∈ w.registry)
    (hp : (w.control c).published = true) (ht : (w.control c).tid = thr) : w.findControl thr = some c := by
  have hname : ∀ {d}, (w.control d).published = true → (w.control d).tid = thr → (w.task d).tid? = some thr := by
    rintro d hp rfl
    exact (hinv.custody d).named hp
  cases hf : w.findControl thr with
  | none =>
    have := List.find?_eq_none.1 hf c hl
    simp [hp, ht] at this
  | some d =>
    obtain ⟨hdl, hdp, hdt⟩ := findControl_some hf
    rw [h d c hdl hl thr (hname hdp hdt) (hname hp ht)]

/-- What an agent does that is about to search the registry. -/
theorem Acts.of_joinFind {w w' : Threads} {a : Agent} {thr : Nat} (hpc : w.pc a = .joinFind thr)
    (h : Acts fresh w a w') : w' = w.joinFind a thr := by
  cases h
  case joinFind thr' hpc' hlock =>
    rw [hpc] at hpc'
    cases hpc'
    rfl
  all_goals
    exfalso
    simp_all

theorem Acts.of_detachFind {w w' : Threads} {a : Agent} {thr : Nat} (hpc : w.pc a = .detachFind thr)
    (h : Acts fresh w a w') : ∃ reaper, w' = w.detachFind a thr reaper := by
  cases h
  case detachFind thr' reaper hpc' hlock =>
    rw [hpc] at hpc'
    cases hpc'
    exact ⟨reaper, rfl⟩
  all_goals
    exfalso
    simp_all

/-- Handles identify threads. In every run in which `clone` never returns the id
of a thread whose control is still in the registry:
- at most one published control in the registry matches a handle;
- where the control that a `thrd_create` published under a handle is joinable,
  its thread has the handle for its id, `thrd_join` claims this control, and
  `thrd_detach` detaches it, reclaims it or does nothing for want of a reaper. -/
theorem handles_identify_threads {w : Threads} (h : Reachable Init (Step Unregistered) w) (thr : Nat) :
    (∀ c d, c ∈ w.registry → d ∈ w.registry → (w.control c).published = true → (w.control d).published = true →
      (w.control c).tid = thr → (w.control d).tid = thr → c = d) ∧
    ∀ c, (w.control c).published = true → (w.control c).tid = thr → (w.control c).lifecycle = .joinable →
      (w.task c).tid? = some thr ∧
      (∀ a w', w.pc a = .joinFind thr → Acts Unregistered w a w' →
        w' = (w.setLifecycle c .joining).goto a (.joinLoad thr c)) ∧
      ∀ a w', w.Runs a → w.pc a = .detachFind thr → Acts Unregistered w a w' →
        w' = (w.setLifecycle c .reaping).goto a (.reapUnmap c true) ∨
        w' = { w.setLifecycle c .detached with reaperStarted := true, lock := some a }.goto a (.notify .detached) ∨
        w' = w.goto a (refused false) := by
  obtain ⟨hinv, hdistinct⟩ := reachable_listedDistinct h
  refine ⟨?_, ?_⟩
  · rintro c d hc hd hcp hdp hct hdt
    have hcn := (hinv.custody c).named hcp
    have hdn := (hinv.custody d).named hdp
    have hcn : (w.task c).tid? = some (w.control c).tid := hcn
    have hdn : (w.task d).tid? = some (w.control d).tid := hdn
    rw [hct] at hcn
    rw [hdt] at hdn
    exact hdistinct c d hc hd thr hcn hdn
  · intro c hp ht hj
    have hl := hinv.joinable_listed hp hj
    have hfind := hdistinct.find hinv hl hp ht
    have hname : (w.task c).tid? = some thr := by
      rw [← ht]
      exact (hinv.custody c).named hp
    refine ⟨hname, ?_, ?_⟩
    · intro a w' hpc hs
      rw [hs.of_joinFind hpc]
      unfold joinFind
      rw [hfind]
      exact if_pos hj
    · intro a w' hruns hpc hs
      obtain ⟨reaper, rfl⟩ := hs.of_detachFind hpc
      have htarget : w.detachTarget a thr = some c := by
        unfold detachTarget
        cases a with
        | main | reaper => exact hfind
        | child d =>
          dsimp only
          split
          · rename_i hself
            obtain ⟨tid, hrun⟩ := hruns
            have hd : (w.task d).tid? = some thr := by
              rw [hself]
              show (w.task d).tid? = some ((w.task d).tid?.getD 0)
              rw [hrun]
              rfl
            have hdl : d ∈ w.registry := ((hinv.custody d).running hrun).1.listed
            rw [hdistinct d c hdl hl thr hd hname]
          · exact hfind
      unfold detachFind
      rw [htarget]
      dsimp only
      rw [if_pos hj]
      split
      · exact .inl rfl
      · split
        · have hp' : ({ w.setLifecycle c .detached with reaperStarted := true } : Threads).control c =
              { w.control c with lifecycle := .detached } := Function.update_self ..
          rw [hp', if_pos hp]
          exact .inr (.inl rfl)
        · exact .inr (.inr rfl)

/-! ## An id given out again -/

/-- The main thread calls `thrd_create`, up to the `clone`. -/
def forking (w : Threads) : Threads :=
  let made := { w.setControl w.made .new with made := w.made + 1 }.goto .main (.createInsert w.made)
  (made.insertControl w.made).goto .main (.createClone w.made)

/-- It gets the id `tid` and publishes the control. -/
def forked (w : Threads) (tid : Nat) : Threads :=
  let cloned := { w.forking.setTask w.made (.born tid) with userCount := w.userCount + 1 }.goto .main
    (.createPublish w.made tid)
  cloned.createPublish .main w.made tid

/-- A new thread starts, returns `res` and exits. -/
def exiting (w : Threads) (c tid : Nat) (res : Int) : Threads :=
  let started := (w.setTask c (.running tid)).setControl c { w.control c with clearTid := tid }
  let called := ((started.goto (.child c) (.idle none)).callExit (.child c) res).goto (.child c) (.exitStore res)
  let stored := (called.storeResult c res).goto (.child c) .exitCount
  let left := { stored with userCount := stored.userCount - 1 }.goto (.child c) .exitThread
  (left.setTask c (.exited tid)).setControl c { left.control c with clearTid := 0 }

/-- A step beside the reaper. -/
def Beside (fresh : Threads → Nat → Prop) (w w' : Threads) : Prop :=
  Step fresh w w' ∧ w'.pc .reaper = w.pc .reaper

theorem createPublish_reaper (w : Threads) (c tid : Nat) :
    (w.createPublish .main c tid).pc .reaper = w.pc .reaper := by
  unfold createPublish
  dsimp only
  split <;> rfl

theorem forked_run {w : Threads} {last : Option LifecycleReply} (hpc : w.pc .main = .idle last) (hlock : w.lock = none)
    (hroom : w.mappedStacks < stackLimit) {tid : Nat} (hpos : 0 < tid) (hmain : tid ≠ w.mainTid)
    (hlive : ∀ d, w.task d = .born tid ∨ w.task d = .running tid → False) (hfresh : fresh w.forking tid) :
    Relation.ReflTransGen (Beside fresh) w (w.forked tid) := by
  have hmade := Relation.ReflTransGen.single (r := Beside fresh)
    ⟨.acts (a := .main) trivial (.create hpc hroom), rfl⟩
  have hinserted := hmade.tail ⟨.acts (a := .main) trivial (.createInsert (goto_pc ..) hlock), rfl⟩
  have hcloned := hinserted.tail
    ⟨.acts (a := .main) trivial (.createClone (goto_pc ..) hpos hmain hlive hfresh), rfl⟩
  exact hcloned.tail ⟨.acts (a := .main) trivial (.createPublish (goto_pc ..) hlock), createPublish_reaper ..⟩

theorem Acts.leave {w : Threads} {a : Agent} (hpc : w.pc a = .exitCount) (hcount : w.userCount ≠ 1) :
    Acts fresh w a ({ w with userCount := w.userCount - 1 }.goto a .exitThread) := by
  have h : Acts fresh w a _ := .exitCount hpc
  rwa [if_neg hcount] at h

theorem exiting_run {w : Threads} {c tid : Nat} (ht : w.task c = .born tid) (hpc : w.pc (.child c) = .entry)
    (hcount : w.userCount ≠ 1) (res : Int) : Relation.ReflTransGen (Beside fresh) w (w.exiting c tid res) := by
  have hrun : (w.setTask c (.running tid)).task c = .running tid := Function.update_self ..
  have hstart := Relation.ReflTransGen.single (r := Beside fresh) ⟨.start ht, rfl⟩
  have hentry := hstart.tail ⟨.acts (a := .child c) ⟨tid, hrun⟩ (@Acts.entry _ _ _ true hpc), rfl⟩
  have hexit := hentry.tail ⟨.acts (a := .child c) ⟨tid, hrun⟩ (.exit res (goto_pc ..)), rfl⟩
  have hstore := hexit.tail ⟨.acts (a := .child c) ⟨tid, hrun⟩ (.exitStore rfl (goto_pc ..)), rfl⟩
  have hleave := hstore.tail ⟨.acts (a := .child c) ⟨tid, hrun⟩ (.leave (goto_pc ..) hcount), rfl⟩
  exact hleave.tail ⟨.finish hrun (goto_pc ..), rfl⟩

theorem Beside.reachable {w w' : Threads} (h : Reachable Init (Step fresh) w)
    (hrun : Relation.ReflTransGen (Beside fresh) w w') : Reachable Init (Step fresh) w' := by
  induction hrun with
  | refl => exact h
  | tail _ hs ih => exact ih.next hs.1

/-- Before the first `thrd_create`. -/
def begun : Threads where
  made := 0
  control _ := .new
  task _ := .unborn
  unmaps _ := 0
  frees _ := 0
  passed _ := none
  registry := []
  lock := none
  event := 0
  reaperStarted := false
  userCount := 1
  mainTid := 1
  pc
    | .main => .idle none
    | .child _ => .entry
    | .reaper => .reaperLoop

theorem begun_init : Init begun :=
  ⟨rfl, fun _ => rfl, fun _ => rfl, fun _ => rfl, fun _ => rfl, fun _ => rfl, rfl, rfl, rfl, by decide, rfl,
    fun _ => rfl, rfl⟩

/-- The first thread exits, and the second one gets its id. -/
def reused : Threads := ((begun.forked 5).exiting 0 5 7).forked 5

theorem begun_run (hfresh : fresh begun.forking 5) : Relation.ReflTransGen (Beside fresh) begun (begun.forked 5) :=
  forked_run rfl rfl (by decide) (by decide) (by decide) (fun _ h => nomatch h) hfresh

theorem reachable_begun (hfresh : fresh begun.forking 5) : Reachable Init (Step fresh) (begun.forked 5) :=
  Beside.reachable (.start begun_init) (begun_run hfresh)

/-- The main thread joins the first thread. -/
def asked (w : Threads) : Threads := w.goto .main (.joinFind 5)

theorem asked_step {w : Threads} {last : Option LifecycleReply} (hpc : w.pc .main = .idle last) (hmain : w.mainTid = 1) :
    Step fresh w w.asked := by
  have h : Acts fresh w .main _ := .join 5 hpc
  have hother : ¬ (5 = 0 ∨ 5 = w.current .main) := by
    have hcurrent : w.current .main = 1 := hmain
    omega
  rw [if_neg hother] at h
  exact .acts (a := .main) trivial h

theorem handles_identify_threads_begun :
    (begun.forked 5).asked.joinFind .main 5 =
      ((begun.forked 5).asked.setLifecycle 0 .joining).goto .main (.joinLoad 5 0) := by
  have h : Reachable Init (Step Unregistered) (begun.forked 5) := reachable_begun (by rintro c - ⟨⟩)
  have hasked := h.next (asked_step rfl rfl)
  exact ((handles_identify_threads hasked 5).2 0 rfl rfl rfl).2.1 .main _ rfl (.joinFind rfl rfl)

theorem reachable_reused : Reachable Init (Step AnyTid) reused := by
  have hexited := Beside.reachable (reachable_begun trivial)
    (@exiting_run AnyTid (begun.forked 5) 0 5 rfl rfl (by decide) 7)
  refine Beside.reachable hexited ?_
  refine @forked_run AnyTid ((begun.forked 5).exiting 0 5 7) _ rfl rfl (by decide) 5 (by decide) (by decide)
    (fun d hd => ?_) trivial
  have htask : ((begun.forked 5).exiting 0 5 7).task d = if d = 0 then .exited 5 else .unborn := by
    by_cases h0 : d = 0
    · subst h0
      rfl
    · rw [if_neg h0]
      exact (Function.update_of_ne h0 _ _).trans ((Function.update_of_ne h0 _ _).trans (Function.update_of_ne h0 _ _))
  rw [htask] at hd
  split at hd <;> simp at hd

/-- The first thread's handle names two published controls, and a join of it
claims the second thread's. -/
theorem handles_reused : Reachable Init (Step AnyTid) reused ∧
    ((reused.control 0).published = true ∧ (reused.control 0).tid = 5 ∧ (reused.control 0).lifecycle = .joinable) ∧
    ((reused.control 1).published = true ∧ (reused.control 1).tid = 5) ∧ reused.registry = [1, 0] ∧
    (reused.joinFind .main 5).pc .main = .joinLoad 5 1 :=
  ⟨reachable_reused, by decide, by decide, by decide, by decide⟩

end Threads

end MiniLibc.Thread
