import MiniLibc.Thread.Handles
/-!
# The reaper's sleep

A notifier changes a control, increments the event word and wakes the reaper,
all under the registry lock, but the reaper waits outside of it. The event word
counts, modulo its width, the controls that were detached since the reaper
sampled it; there is never room for as many as the word can count.
-/
open MiniLibc.Runs

namespace MiniLibc.Thread

namespace Threads

variable {fresh : Threads → Nat → Prop}

/-! ## Detached controls -/

/-- The published controls in the registry that are detached. -/
def detachedCount (w : Threads) : Nat := w.registry.countP w.detachedAt

def Notifying (w : Threads) : Prop := ∃ a next, w.pc a = .notify next

theorem detachedAt_setControl (w : Threads) (d : Nat) (k : Control) (c : Nat) :
    (w.setControl d k).detachedAt c =
      if c = d then k.published && decide (k.lifecycle = .detached) else w.detachedAt c := by
  have hk : (w.setControl d k).control c = if c = d then k else w.control c := Function.update_apply ..
  unfold detachedAt
  rw [hk]
  split <;> rfl

/-- A control that is changed, but not to or from being detached. -/
theorem detachedCount_setControl {w : Threads} {d : Nat} {k : Control}
    (hk : (k.published && decide (k.lifecycle = .detached)) = w.detachedAt d) :
    (w.setControl d k).detachedCount = w.detachedCount := by
  have hat : (w.setControl d k).detachedAt = w.detachedAt := by
    funext c
    rw [detachedAt_setControl]
    split
    · rename_i hc
      rw [hk, hc]
    · rfl
  show w.registry.countP (w.setControl d k).detachedAt = _
  rw [hat]
  rfl

/-- A control that becomes one of the detached. -/
theorem detachedCount_detach {w : Threads} (hnodup : w.registry.Nodup) {d : Nat} {k : Control} (hd : d ∈ w.registry)
    (hk : (k.published && decide (k.lifecycle = .detached)) = true) (hnot : w.detachedAt d = false) :
    (w.setControl d k).detachedCount = w.detachedCount + 1 := by
  have hperm := List.perm_cons_erase hd
  have hself : (w.setControl d k).detachedAt d = true := by
    rw [detachedAt_setControl, if_pos rfl, hk]
  have hrest : (w.registry.erase d).countP (w.setControl d k).detachedAt =
      (w.registry.erase d).countP w.detachedAt := by
    refine List.countP_congr fun c hc => ?_
    have hne : c ≠ d := ((hnodup.mem_erase_iff).1 hc).1
    rw [detachedAt_setControl, if_neg hne]
  show w.registry.countP (w.setControl d k).detachedAt = w.registry.countP w.detachedAt + 1
  rw [hperm.countP_eq, hperm.countP_eq w.detachedAt, List.countP_cons, List.countP_cons, hself, hnot, hrest]
  simp

theorem detachedCount_insert {w : Threads} {d : Nat} (hnot : w.detachedAt d = false) :
    (w.insertControl d).detachedCount = w.detachedCount := by
  show (d :: w.registry).countP w.detachedAt = _
  rw [List.countP_cons, hnot]
  rfl

theorem detachedCount_remove {w : Threads} {d : Nat} (hnot : w.detachedAt d = false) :
    (w.removeControl d).detachedCount = w.detachedCount := by
  show (w.registry.erase d).countP w.detachedAt = _
  by_cases hd : d ∈ w.registry
  · unfold detachedCount
    rw [(List.perm_cons_erase hd).countP_eq, List.countP_cons, hnot]
    rfl
  · rw [List.erase_of_not_mem hd]
    rfl

/-! ## There is room for few stacks -/

theorem detached_live {w : Threads} (hinv : Inv w) {c : Nat} (hl : c ∈ w.registry) (hd : w.detachedAt c = true) :
    (w.custody c).Live := by
  simp only [detachedAt, Bool.and_eq_true, decide_eq_true_eq] at hd
  exact (hinv.custody c).live hd.1 (.inr hd.2) hl

/-- Every detached control has its stack. -/
theorem detachedCount_le {w : Threads} (hinv : Inv w) : w.detachedCount ≤ w.mappedStacks := by
  unfold detachedCount mappedStacks
  rw [List.countP_eq_length_filter, List.countP_eq_length_filter]
  apply List.Subperm.length_le
  refine (hinv.nodup.filter _).subperm fun c hc => ?_
  obtain ⟨hl, hd⟩ := List.mem_filter.1 hc
  have hlive := detached_live hinv hl hd
  refine List.mem_filter.2 ⟨List.mem_range.2 ?_, decide_eq_true hlive.unmaps⟩
  by_contra hmade
  exact (hinv.unmade c (Nat.le_of_not_lt hmade)).1.listed hl

theorem Acts.room {w w' : Threads} {a : Agent} (h : Acts fresh w a w') :
    w'.made = w.made ∨ w'.made = w.made + 1 ∧ w.mappedStacks < stackLimit := by
  cases h with
  | create hpc hroom => exact .inr ⟨rfl, hroom⟩
  | joinFind hpc hlock =>
    left
    unfold Threads.joinFind
    split
    · rfl
    · split <;> rfl
  | detachFind hpc hlock =>
    left
    unfold Threads.detachFind
    split
    · rfl
    · split
      · split
        · rfl
        · split
          · dsimp only
            split <;> rfl
          · rfl
      · rfl
  | createPublish hpc hlock =>
    left
    unfold Threads.createPublish
    dsimp only
    split <;> rfl
  | wake hpc =>
    left
    show w.wakeReaper.made = w.made
    unfold wakeReaper
    split <;> rfl
  | findReapable hpc | findDetached hpc =>
    left
    split <;> rfl
  | _ => exact .inl rfl

/-- The stacks fit in the address space. -/
theorem mappedStacks_step {w w' : Threads} (hinv : Inv w) (h : Step fresh w w') (hle : w.mappedStacks ≤ stackLimit) :
    w'.mappedStacks ≤ stackLimit := by
  have hkeep : (List.range w.made).countP (fun c => w'.unmaps c = 0) ≤ w.mappedStacks := by
    refine List.countP_mono_left fun c _ hc => ?_
    have hc : w'.unmaps c = 0 := of_decide_eq_true hc
    refine decide_eq_true ?_
    rcases h.custody hinv c with he | hs
    · have he : w'.unmaps c = w.unmaps c := congrArg Custody.unmaps he
      rwa [← he]
    · have hu : w.unmaps c ≤ w'.unmaps c := hs.unmaps_le
      omega
  have hmade : w'.made = w.made ∨ w'.made = w.made + 1 ∧ w.mappedStacks < stackLimit := by
    cases h with
    | acts hruns hacts => exact hacts.room
    | start ht | finish ht hpc => exact .inl rfl
  rcases hmade with hm | ⟨hm, hroom⟩
  · unfold mappedStacks
    rw [hm]
    exact hkeep.trans hle
  · unfold mappedStacks
    rw [hm, List.range_succ, List.countP_append]
    have hone : [w.made].countP (fun c => w'.unmaps c = 0) ≤ 1 := List.countP_le_length
    omega

/-! ## Only the reaper reaps -/

def isReaper : LifecyclePc → Bool
  | .reapUnmap _ restoreJoinable | .reapRestore _ restoreJoinable | .reapRemove _ restoreJoinable
  | .reapFree _ restoreJoinable => !restoreJoinable
  | .notify .reaper | .wake .reaper | .reaperLoop | .findReapable _ | .findDetached | .observeTid _ _ | .pollWait _
  | .eventWait _ | .eventAsleep => true
  | _ => false

/-- An agent in the reaper's code stays there, and no other agent gets there. -/
theorem Acts.isReaper {w w' : Threads} {a : Agent} (h : Acts fresh w a w') :
    Threads.isReaper (w'.pc a) = Threads.isReaper (w.pc a) := by
  have hat : ∀ {w' : Threads} {p q : LifecyclePc}, w.pc a = q → Threads.isReaper p = Threads.isReaper q →
      Threads.isReaper ((w'.goto a p).pc a) = Threads.isReaper (w.pc a) := by
    intro w' p q hq hp
    rw [goto_pc, hq, hp]
  cases h with
  | createRefused hpc | create hpc | exit _ hpc | createInsert hpc | createClone hpc | createCloneFail hpc
  | createRemove hpc | createUnmap hpc | createUnmapFail hpc | createFree hpc | joinWaited hpc | joinWaitFail hpc
  | joinUnmap hpc | joinUnmapFail hpc | joinRestore hpc | joinResult hpc | joinRemove hpc | joinFree hpc
  | reapRestoreJoinable hpc | exitStore _ hpc | exitStoreMain _ hpc | reapUnmap hpc | reapUnmapFail hpc
  | reapRestore hpc | reapRemove hpc | reaperLoop hpc | findReapableEnd hpc | pollWait hpc | eventSleep hpc =>
    exact hat hpc rfl
  | join thr hpc => exact hat hpc (by split <;> rfl)
  | detach thr hpc => exact hat hpc (by split <;> rfl)
  | joinLoad hpc => exact hat hpc (by split <;> rfl)
  | exitCount hpc => exact hat hpc (by split <;> rfl)
  | observeTid hpc => exact hat hpc (by split <;> rfl)
  | @entry ready hpc => exact hat hpc (by cases ready <;> rfl)
  | @notify next hpc => exact hat hpc (by cases next <;> rfl)
  | @wake next hpc => exact hat hpc (by cases next <;> rfl)
  | @reapFree c restoreJoinable hpc => exact hat hpc (by cases restoreJoinable <;> rfl)
  | createPublish hpc hlock =>
    unfold Threads.createPublish
    dsimp only
    split <;> exact hat hpc rfl
  | joinFind hpc hlock =>
    unfold Threads.joinFind
    split
    · exact hat hpc rfl
    · split <;> exact hat hpc rfl
  | detachFind hpc hlock =>
    unfold Threads.detachFind
    split
    · exact hat hpc rfl
    · split
      · split
        · exact hat hpc rfl
        · split
          · dsimp only
            split <;> exact hat hpc rfl
          · exact hat hpc rfl
      · exact hat hpc rfl
  | findReapable hpc | findDetached hpc => split <;> exact hat hpc rfl
  | eventAgain hpc =>
    rcases hpc with hpc | hpc
    · exact hat hpc rfl
    · exact hat hpc rfl

/-! ## Notifications -/

/-- An agent between a change and its wake. -/
def noticing : LifecyclePc → Bool
  | .notify _ | .wake _ => true
  | _ => false

/-- What a step of another agent means to the reaper. -/
inductive Notice (w : Threads) (a : Agent) (w' : Threads) : Prop where
  | quiet : w'.detachedCount = w.detachedCount → w'.event = w.event → noticing (w.pc a) = false →
    noticing (w'.pc a) = false → Notice w a w'
  | change (next : Notified) : w.lock = none → w'.detachedCount = w.detachedCount + 1 → w'.event = w.event →
    w'.pc a = .notify next → Notice w a w'
  | notify (next : Notified) : w.pc a = .notify next → w'.detachedCount = w.detachedCount →
    w'.event = w.event + 1 → w'.pc a = .wake next → Notice w a w'
  | wake (next : Notified) : w.pc a = .wake next → w'.detachedCount = w.detachedCount → w'.event = w.event →
    noticing (w'.pc a) = false → w'.pc .reaper ≠ .eventAsleep → Notice w a w'

theorem Notice.plain {w w' : Threads} {a : Agent} {q p : LifecyclePc} (hpc : w.pc a = q)
    (hcount : w'.detachedCount = w.detachedCount) (hevent : w'.event = w.event) (hq : noticing q = false)
    (hp : noticing p = false) : Notice w a (w'.goto a p) :=
  .quiet hcount hevent (by rw [hpc, hq]) (by rw [goto_pc, hp])

/-- A control that an agent is at a stage of, other than publishing, is not one
of the detached. -/
theorem held_not_detached {w : Threads} (hinv : Inv w) {a : Agent} {c : Nat} {s : Stage}
    (hs : stageOf (w.pc a) c = s) (hne : s ≠ .none) : w.detachedAt c = false := by
  by_contra hd
  simp only [Bool.not_eq_false, detachedAt, Bool.and_eq_true, decide_eq_true_eq] at hd
  have hc := hinv.custody c
  have hstage : (w.custody c).stage a ≠ .none := by
    intro he
    exact hne (hs.symm.trans he)
  rcases hc.never_lost hd.1 (hc.held_counts hstage).2 with ⟨b, -, -, hl | hl⟩ | ⟨-, hnone⟩
  · have hl : (w.control c).lifecycle = .joining := hl
    rw [hd.2] at hl
    cases hl
  · have hl : (w.control c).lifecycle = .reaping := hl
    rw [hd.2] at hl
    cases hl
  · exact hstage (hnone a)

theorem not_detached_of {w : Threads} {c : Nat} (h : (w.control c).lifecycle ≠ .detached) : w.detachedAt c = false := by
  simp [detachedAt, h]

theorem createPublish_notice {w : Threads} (hinv : Inv w) {a : Agent} {c tid : Nat}
    (hpc : w.pc a = .createPublish c tid) (hlock : w.lock = none) : Notice w a (w.createPublish a c tid) := by
  have hheld := (hinv.custody c).held a
  rw [stage_at hpc rfl] at hheld
  have hnot : w.detachedAt c = false := held_not_detached hinv (stage_at hpc rfl) nofun
  have hself : (w.setControl c { w.control c with tid, published := true }).control c =
      { w.control c with tid, published := true } := Function.update_self ..
  unfold Threads.createPublish
  dsimp only
  rw [hself]
  split
  · rename_i hd
    refine .change (.created tid) hlock ?_ rfl (goto_pc ..)
    exact detachedCount_detach hinv.nodup hheld.1.listed (by simpa using hd) hnot
  · rename_i hd
    refine .plain hpc (detachedCount_setControl ?_) rfl rfl rfl
    rw [hnot]
    simpa using hd

theorem detachFind_notice {w : Threads} (hinv : Inv w) {a : Agent} {thr : Nat} {reaper : Bool}
    (hpc : w.pc a = .detachFind thr) (hlock : w.lock = none) : Notice w a (w.detachFind a thr reaper) := by
  unfold Threads.detachFind
  cases hf : w.detachTarget a thr with
  | none => exact .plain hpc rfl rfl rfl rfl
  | some c =>
    dsimp only
    split
    · rename_i hj
      have hnot : w.detachedAt c = false := not_detached_of (by rw [hj]; exact nofun)
      split
      · refine .plain hpc (detachedCount_setControl ?_) rfl rfl rfl
        rw [hnot]
        simp
      · split
        · have hself : (w.setLifecycle c .detached).control c = { w.control c with lifecycle := .detached } :=
            Function.update_self ..
          rw [hself]
          split
          · rename_i hp
            have hl : c ∈ w.registry := hinv.joinable_listed hp hj
            refine .change .detached hlock ?_ rfl (goto_pc ..)
            exact detachedCount_detach hinv.nodup hl (by simpa using hp) hnot
          · rename_i hp
            refine .plain hpc ?_ rfl rfl rfl
            refine detachedCount_setControl (w := w) ?_
            rw [hnot]
            simpa using hp
        · exact .plain hpc rfl rfl rfl rfl
    · exact .plain hpc rfl rfl rfl rfl

theorem Acts.notice {w w' : Threads} {a : Agent} (hinv : Inv w) (h : Acts fresh w a w')
    (ha : Threads.isReaper (w.pc a) = false) : Notice w a w' := by
  cases h with
  | createRefused hpc | exit _ hpc | createClone hpc | createCloneFail hpc | createUnmap hpc | createUnmapFail hpc
  | createFree hpc | joinWaited hpc | joinWaitFail hpc | joinUnmap hpc | joinUnmapFail hpc | joinResult hpc
  | joinFree hpc | exitStoreMain _ hpc | reapUnmap hpc | reapUnmapFail hpc => exact .plain hpc rfl rfl rfl rfl
  | join thr hpc => exact .plain hpc rfl rfl rfl (by split <;> rfl)
  | detach thr hpc => exact .plain hpc rfl rfl rfl (by split <;> rfl)
  | joinLoad hpc => exact .plain hpc rfl rfl rfl (by split <;> rfl)
  | exitCount hpc => exact .plain hpc rfl rfl rfl (by split <;> rfl)
  | @entry ready hpc => exact .plain hpc rfl rfl rfl (by cases ready <;> rfl)
  | @reapFree c restoreJoinable hpc => exact .plain hpc rfl rfl rfl (by cases restoreJoinable <;> rfl)
  | create hpc hroom =>
    obtain ⟨hu, -⟩ := hinv.unmade w.made (Nat.le_refl _)
    have hnew : w.control w.made = .new := hu.control
    refine .plain hpc ?_ rfl rfl rfl
    refine detachedCount_setControl (w := w) ?_
    rw [detachedAt, hnew]
  | @createInsert c hpc hlock =>
    exact .plain hpc (detachedCount_insert (held_not_detached hinv (stage_at hpc rfl) (by rintro ⟨⟩))) rfl rfl rfl
  | @createRemove c nomem hpc hlock | @joinRemove thr c res hpc hlock | @reapRemove c restoreJoinable hpc hlock =>
    exact .plain hpc (detachedCount_remove (held_not_detached hinv (stage_at hpc rfl) (by rintro ⟨⟩))) rfl rfl rfl
  | createPublish hpc hlock => exact createPublish_notice hinv hpc hlock
  | detachFind hpc hlock => exact detachFind_notice hinv hpc hlock
  | @notify next hpc => exact .notify next hpc rfl rfl (goto_pc ..)
  | @wake next hpc =>
    have hsame : w.wakeReaper.detachedCount = w.detachedCount ∧ w.wakeReaper.event = w.event := by
      unfold wakeReaper
      split <;> exact ⟨rfl, rfl⟩
    have hquiet : noticing (notified next) = false := by cases next <;> rfl
    refine .wake next hpc hsame.1 hsame.2 (by rw [goto_pc, hquiet]) ?_
    by_cases hr : a = .reaper
    · rw [hr, goto_pc]
      cases next <;> rintro ⟨⟩
    · have hpc' : ({ w.wakeReaper with lock := none }.goto a (notified next)).pc .reaper = w.wakeReaper.pc .reaper :=
        Function.update_of_ne (Ne.symm hr) _ _
      rw [hpc']
      unfold wakeReaper
      split
      · rw [goto_pc]
        rintro ⟨⟩
      · assumption
  | @joinFind thr hpc hlock =>
    unfold Threads.joinFind
    split
    · exact .plain hpc rfl rfl rfl rfl
    · split
      · rename_i c hf hj
        refine .plain hpc (detachedCount_setControl ?_) rfl rfl rfl
        rw [not_detached_of (by rw [hj]; rintro ⟨⟩)]
        simp
      · exact .plain hpc rfl rfl rfl rfl
  | @joinRestore thr c hpc hlock | @reapRestoreJoinable c hpc hlock =>
    refine .plain hpc (detachedCount_setControl ?_) rfl rfl rfl
    rw [held_not_detached hinv (stage_at hpc rfl) (by rintro ⟨⟩)]
    simp
  | exitStore hchild hpc =>
    refine .plain hpc ?_ rfl rfl rfl
    refine detachedCount_setControl (w := w) ?_
    rfl
  | reapRestore hpc | reaperLoop hpc | findReapable hpc | findReapableEnd hpc | findDetached hpc | observeTid hpc
  | pollWait hpc | eventSleep hpc =>
    rw [hpc] at ha
    cases ha
  | eventAgain hpc =>
    rcases hpc with hpc | hpc
    all_goals
      rw [hpc] at ha
      cases ha

/-! ## The reaper's scan -/

/-- The first detached control, once the scan has looked at its word. -/
def Inspected (w : Threads) (c : Nat) : Prop :=
  w.registry.find? w.detachedAt = some c ∧ ((∃ rest, w.pc .reaper = .findReapable rest ∧ c ∉ rest) ∨
    w.pc .reaper = .findDetached ∨ ∃ observedEvent, w.pc .reaper = .observeTid c observedEvent)

/-- No word is cleared between the look the scan takes at it and the sample. -/
def InTime (w w' : Threads) : Prop :=
  ∀ c, w.Inspected c → (w.control c).clearTid ≠ 0 → (w'.control c).clearTid ≠ 0

structure Scanned (w : Threads) : Prop where
  inspected (c : Nat) : w.Inspected c → (w.control c).clearTid ≠ 0
  sampled (c : Nat) (observedEvent : BitVec 32) : w.pc .reaper = .observeTid c observedEvent →
    w.registry.find? w.detachedAt = some c

/-- What the scan looks at. -/
structure SameScan (w w' : Threads) : Prop where
  registry : w'.registry = w.registry
  detachedAt : w'.detachedAt = w.detachedAt
  clearTid (c : Nat) : (w'.control c).clearTid = (w.control c).clearTid

theorem SameScan.of_control {w w' : Threads} {d : Nat} {k : Control} (hregistry : w'.registry = w.registry)
    (hcontrol : w'.control = Function.update w.control d k) (hpublished : k.published = (w.control d).published)
    (hlifecycle : k.lifecycle = (w.control d).lifecycle) (hclear : k.clearTid = (w.control d).clearTid) :
    SameScan w w' := by
  have hc : ∀ c, (w'.control c).published = (w.control c).published ∧
      (w'.control c).lifecycle = (w.control c).lifecycle ∧ (w'.control c).clearTid = (w.control c).clearTid := by
    intro c
    rw [hcontrol, Function.update_apply]
    split
    · rename_i he
      rw [he]
      exact ⟨hpublished, hlifecycle, hclear⟩
    · exact ⟨rfl, rfl, rfl⟩
  refine ⟨hregistry, ?_, fun c => (hc c).2.2⟩
  funext c
  unfold Threads.detachedAt
  rw [(hc c).1, (hc c).2.1]

/-- While another agent holds the lock, nobody changes what the scan looks at. -/
theorem Acts.sameScan {w w' : Threads} {a : Agent} (hinv : Inv w) (h : Acts fresh w a w') (hlock : w.lock ≠ none)
    (ha : critical (w.pc a) = false) : SameScan w w' := by
  have hrefl : ∀ {w' : Threads}, w'.registry = w.registry → w'.control = w.control → SameScan w w' := by
    intro w' hr hc
    exact .of_control (d := 0) (k := w.control 0) hr (by rw [hc, Function.update_eq_self]) rfl rfl rfl
  cases h with
  | create hpc hroom =>
    obtain ⟨hu, -⟩ := hinv.unmade w.made (Nat.le_refl _)
    have hnew : w.control w.made = .new := hu.control
    exact .of_control rfl rfl (by rw [hnew]) (by rw [hnew]) (by rw [hnew])
  | exitStore hchild hpc => exact .of_control rfl rfl rfl rfl rfl
  | createInsert hpc hl | createPublish hpc hl | createRemove hpc hl | joinFind hpc hl | joinRestore hpc hl
  | joinRemove hpc hl | detachFind hpc hl | reapRestoreJoinable hpc hl | reapRestore hpc hl | reapRemove hpc hl =>
    exact absurd hl hlock
  | notify hpc | wake hpc | findReapable hpc | findReapableEnd hpc | findDetached hpc | observeTid hpc =>
    rw [hpc] at ha
    cases ha
  | _ => exact hrefl rfl rfl

/-- The places of the scan. -/
def scanning : LifecyclePc → Bool
  | .findReapable _ | .findDetached | .observeTid _ _ => true
  | _ => false

theorem Inspected.scanning {w : Threads} {c : Nat} (h : w.Inspected c) : Threads.scanning (w.pc .reaper) = true := by
  rcases h.2 with ⟨rest, hpc, -⟩ | hpc | ⟨observedEvent, hpc⟩
  all_goals
    rw [hpc]
    rfl

/-- The reaper is not in its scan. -/
theorem Scanned.outside {w : Threads} (h : scanning (w.pc .reaper) = false) : Scanned w where
  inspected c hc := by
    rw [hc.scanning] at h
    cases h
  sampled c observedEvent hpc := by
    rw [hpc] at h
    cases h

/-- A step beside the reaper that leaves alone what the scan looks at, but for
words that are cleared. -/
theorem Scanned.beside {w w' : Threads} (h : Scanned w) (hpc : w'.pc .reaper = w.pc .reaper)
    (hregistry : w'.registry = w.registry) (hdetached : w'.detachedAt = w.detachedAt)
    (hclear : ∀ c, w.Inspected c → (w.control c).clearTid ≠ 0 → (w'.control c).clearTid ≠ 0) : Scanned w' where
  inspected c hc := by
    have hw : w.Inspected c := by
      unfold Inspected at hc ⊢
      rwa [hpc, hregistry, hdetached] at hc
    exact hclear c hw (h.inspected c hw)
  sampled c observedEvent hc := by
    rw [hpc] at hc
    rw [hregistry, hdetached]
    exact h.sampled c observedEvent hc

theorem Scanned.reaper {w w' : Threads} (h : Scanned w) (hs : Acts fresh w .reaper w') : Scanned w' := by
  have hout : ∀ {w' : Threads} {p : LifecyclePc}, scanning p = false → Scanned (w'.goto .reaper p) := by
    intro w' p hp
    exact .outside (by rw [goto_pc, hp])
  cases hs with
  | reaperLoop hpc hlock =>
    refine ⟨fun c hc => ?_, fun c observedEvent hc => ?_⟩
    · obtain ⟨hfind, ⟨rest, hrest, hnot⟩ | hpc' | ⟨observedEvent, hpc'⟩⟩ := hc
      · rw [goto_pc] at hrest
        cases hrest
        exact absurd (List.mem_of_find?_eq_some hfind) hnot
      · rw [goto_pc] at hpc'
        cases hpc'
      · rw [goto_pc] at hpc'
        cases hpc'
    · rw [goto_pc] at hc
      cases hc
  | @findReapable d rest hpc =>
    split
    · exact hout rfl
    · rename_i hnot
      refine ⟨fun c hc => ?_, fun c observedEvent hc => ?_⟩
      · obtain ⟨hfind, ⟨rest', hrest, hmem⟩ | hpc' | ⟨observedEvent, hpc'⟩⟩ := hc
        · rw [goto_pc] at hrest
          cases hrest
          by_cases hcd : c = d
          · -- the control just looked at is detached and was not reaped
            subst hcd
            have hdetached : w.detachedAt c = true := List.find?_some hfind
            intro hz
            have hz : (w.control c).clearTid = 0 := hz
            exact hnot (by simp [reapableAt, hdetached, hz])
          · refine h.inspected c ⟨hfind, .inl ⟨_, hpc, ?_⟩⟩
            rw [List.mem_cons]
            rintro (he | he)
            · exact hcd he
            · exact hmem he
        · rw [goto_pc] at hpc'
          cases hpc'
        · rw [goto_pc] at hpc'
          cases hpc'
      · rw [goto_pc] at hc
        cases hc
  | findReapableEnd hpc =>
    refine ⟨fun c hc => ?_, fun c observedEvent hc => ?_⟩
    · exact h.inspected c ⟨hc.1, .inl ⟨[], hpc, List.not_mem_nil⟩⟩
    · rw [goto_pc] at hc
      cases hc
  | findDetached hpc =>
    split
    · rename_i d hfind
      refine ⟨fun c hc => ?_, fun c observedEvent hc => ?_⟩
      · exact h.inspected c ⟨hc.1, .inr (.inl hpc)⟩
      · rw [goto_pc] at hc
        cases hc
        exact hfind
    · exact hout rfl
  | observeTid hpc =>
    refine hout ?_
    split <;> rfl
  | wake hpc =>
    refine hout ?_
    rename_i next
    cases next <;> rfl
  | join thr hpc => exact hout (by split <;> rfl)
  | detach thr hpc => exact hout (by split <;> rfl)
  | joinLoad hpc => exact hout (by split <;> rfl)
  | exitCount hpc => exact hout (by split <;> rfl)
  | @entry ready hpc => exact hout (by cases ready <;> rfl)
  | @reapFree c restoreJoinable hpc => exact hout (by cases restoreJoinable <;> rfl)
  | joinFind hpc hlock =>
    unfold Threads.joinFind
    split
    · exact hout rfl
    · split
      · exact hout rfl
      · exact hout rfl
  | createPublish hpc hlock =>
    unfold Threads.createPublish
    dsimp only
    split
    · exact hout rfl
    · exact hout rfl
  | detachFind hpc hlock =>
    unfold Threads.detachFind
    split
    · exact hout rfl
    · split
      · split
        · exact hout rfl
        · split
          · dsimp only
            split
            · exact hout rfl
            · exact hout rfl
          · exact hout rfl
      · exact hout rfl
  | _ => exact hout rfl

theorem Scanned.step {w w' : Threads} (h : Scanned w) (hinv : Inv w) (hs : Step fresh w w') (htime : InTime w w') :
    Scanned w' := by
  cases hs with
  | @acts _ a hruns hacts =>
    by_cases ha : a = .reaper
    · subst ha
      exact h.reaper hacts
    · rcases (hacts.frame hinv).others .reaper (Ne.symm ha) with hpc | ⟨-, hpc⟩
      · cases hscan : scanning (w.pc .reaper) with
        | false => exact .outside (by rw [hpc, hscan])
        | true =>
          have hlock : w.lock = some .reaper := by
            refine hinv.locked .reaper ?_
            generalize w.pc .reaper = p at hscan
            cases p <;> first | rfl | cases hscan
          have hcritical : critical (w.pc a) = false := by
            by_contra hc
            have := hinv.locked a (by simpa using hc)
            rw [hlock] at this
            cases this
            exact ha rfl
          have hsame := hacts.sameScan hinv (by rw [hlock]; exact nofun) hcritical
          exact h.beside hpc hsame.registry hsame.detachedAt fun c _ hc => by rwa [hsame.clearTid]
      · exact .outside (by rw [hpc]; rfl)
  | start ht | finish ht hpc =>
    refine h.beside rfl rfl ?_ htime
    funext c
    refine (detachedAt_setControl ..).trans ?_
    split
    · rename_i hc
      rw [hc]
      rfl
    · rfl

/-! ## The event word -/

/-- Before its sleep, the event is ahead of what the reaper observed by the
detached controls, but for the one whose notifier is about to increment it. -/
structure Rests (w : Threads) : Prop where
  waiting (observedEvent : BitVec 32) : w.pc .reaper = .eventWait observedEvent →
    ∃ n, w.event = observedEvent + BitVec.ofNat 32 n ∧
      (w.detachedCount = n ∧ ¬w.Notifying ∨ w.detachedCount = n + 1 ∧ w.Notifying)
  asleep : w.pc .reaper = .eventAsleep → w.detachedCount = 0 ∨ ∃ a, noticing (w.pc a) = true

/-- The reaper is neither about to sleep nor asleep. -/
theorem Rests.awake {w : Threads} (hwait : ∀ observedEvent, w.pc .reaper ≠ .eventWait observedEvent)
    (hasleep : w.pc .reaper ≠ .eventAsleep) : Rests w where
  waiting observedEvent hpc := absurd hpc (hwait observedEvent)
  asleep hpc := absurd hpc hasleep

/-- Only the holder of the lock notifies. -/
theorem notifying_holder {w : Threads} (hinv : Inv w) {a b : Agent} (ha : critical (w.pc a) = true) {next : Notified}
    (hb : w.pc b = .notify next) : b = a := by
  have hlock := hinv.locked b (by rw [hb]; rfl)
  rw [hinv.locked a ha] at hlock
  cases hlock
  rfl

theorem Rests.step_other {w w' : Threads} (h : Rests w) (hinv : Inv w) {a : Agent} (hf : Frame w a w')
    (hn : Notice w a w') (hne : a ≠ .reaper) : Rests w' := by
  -- the other agents' notices stay as they are
  have hother : ∀ b, b ≠ a → ∀ next, w'.pc b = .notify next ↔ w.pc b = .notify next := by
    intro b hb next
    rcases hf.others b hb with he | ⟨he, he'⟩
    · rw [he]
    · rw [he, he']
      exact iff_of_false nofun nofun
  have hnoticing : ∀ b, b ≠ a → noticing (w.pc b) = true → noticing (w'.pc b) = true := by
    intro b hb hc
    rcases hf.others b hb with he | ⟨he, -⟩
    · rwa [he]
    · rw [he] at hc
      cases hc
  have hquiet : noticing (w.pc a) = false → noticing (w'.pc a) = false → (w'.Notifying ↔ w.Notifying) := by
    intro hq hq'
    constructor
    · rintro ⟨b, next, hb⟩
      by_cases hba : b = a
      · rw [hba] at hb
        rw [hb] at hq'
        cases hq'
      · exact ⟨b, next, (hother b hba next).1 hb⟩
    · rintro ⟨b, next, hb⟩
      by_cases hba : b = a
      · rw [hba] at hb
        rw [hb] at hq
        cases hq
      · exact ⟨b, next, (hother b hba next).2 hb⟩
  have hwait : ∀ observedEvent, w'.pc .reaper = .eventWait observedEvent →
      w.pc .reaper = .eventWait observedEvent := by
    intro observedEvent hpc
    rcases hf.others .reaper (Ne.symm hne) with he | ⟨-, he⟩
    · rw [← he, hpc]
    · rw [he] at hpc
      cases hpc
  have hasleep : w'.pc .reaper = .eventAsleep → w.pc .reaper = .eventAsleep := by
    intro hpc
    rcases hf.others .reaper (Ne.symm hne) with he | ⟨-, he⟩
    · rw [← he, hpc]
    · rw [he] at hpc
      cases hpc
  cases hn with
  | quiet hcount hevent hq hq' =>
    refine ⟨fun observedEvent hpc => ?_, fun hpc => ?_⟩
    · rw [hcount, hevent, hquiet hq hq']
      exact h.waiting observedEvent (hwait observedEvent hpc)
    · rw [hcount]
      rcases h.asleep (hasleep hpc) with h0 | ⟨b, hb⟩
      · exact .inl h0
      · refine .inr ⟨b, hnoticing b ?_ hb⟩
        rintro rfl
        rw [hq] at hb
        cases hb
  | change next hlock hcount hevent hpca =>
    refine ⟨fun observedEvent hpc => ?_, fun _ => .inr ⟨a, by rw [hpca]; rfl⟩⟩
    obtain ⟨n, hn, hc⟩ := h.waiting observedEvent (hwait observedEvent hpc)
    have hnone : ¬w.Notifying := by
      rintro ⟨b, next, hb⟩
      have := hinv.locked b (by rw [hb]; rfl)
      rw [hlock] at this
      cases this
    refine ⟨n, hevent.trans hn, .inr ⟨?_, a, next, hpca⟩⟩
    rcases hc with ⟨hc, -⟩ | ⟨-, hc⟩
    · rw [hcount, hc]
    · exact absurd hc hnone
  | notify next hpca hcount hevent hpca' =>
    refine ⟨fun observedEvent hpc => ?_, fun _ => .inr ⟨a, by rw [hpca']; rfl⟩⟩
    obtain ⟨n, hn, hc⟩ := h.waiting observedEvent (hwait observedEvent hpc)
    have hnone : ¬w'.Notifying := by
      rintro ⟨b, next', hb⟩
      by_cases hba : b = a
      · rw [hba, hpca'] at hb
        cases hb
      · exact hba (notifying_holder hinv (by rw [hpca]; rfl) ((hother b hba next').1 hb))
    refine ⟨n + 1, ?_, .inl ⟨?_, hnone⟩⟩
    · rw [hevent, hn, BitVec.ofNat_add, BitVec.add_assoc]
      rfl
    · rcases hc with ⟨-, hc⟩ | ⟨hc, -⟩
      · exact absurd ⟨a, next, hpca⟩ hc
      · rw [hcount, hc]
  | wake next hpca hcount hevent hq' hawake =>
    refine ⟨fun observedEvent hpc => ?_, fun hpc => absurd hpc hawake⟩
    obtain ⟨n, hn, hc⟩ := h.waiting observedEvent (hwait observedEvent hpc)
    have hnone : ¬w.Notifying := by
      rintro ⟨b, next', hb⟩
      have hba := notifying_holder hinv (by rw [hpca]; rfl) hb
      rw [hba, hpca] at hb
      cases hb
    have hnone' : ¬w'.Notifying := by
      rintro ⟨b, next', hb⟩
      by_cases hba : b = a
      · rw [hba] at hb
        rw [hb] at hq'
        cases hq'
      · exact hnone ⟨b, next', (hother b hba next').1 hb⟩
    refine ⟨n, hevent.trans hn, .inl ⟨?_, hnone'⟩⟩
    rcases hc with ⟨hc, -⟩ | ⟨-, hc⟩
    · rw [hcount, hc]
    · exact absurd hc hnone

/-- A word too wide to wrap is where it was only if nothing was counted. -/
theorem event_unchanged {w : Threads} (hinv : Inv w) (hroom : w.mappedStacks ≤ stackLimit) {n : Nat}
    (hn : n ≤ w.detachedCount) {e : BitVec 32} (h : e = e + BitVec.ofNat 32 n) : n = 0 := by
  have hle : n ≤ 2 ^ 27 := (hn.trans (detachedCount_le hinv)).trans hroom
  have hnat := congrArg BitVec.toNat h
  rw [BitVec.toNat_add, BitVec.toNat_ofNat] at hnat
  have := e.isLt
  omega

theorem Rests.step_reaper {w w' : Threads} (h : Rests w) (hinv : Inv w) (hroom : w.mappedStacks ≤ stackLimit)
    (hscan : Scanned w) (hr : isReaper (w.pc .reaper) = true) (hs : Acts fresh w .reaper w') : Rests w' := by
  have hout : ∀ {w' : Threads} {p : LifecyclePc}, (∀ observedEvent, p ≠ .eventWait observedEvent) → p ≠ .eventAsleep →
      Rests (w'.goto .reaper p) := by
    intro w' p hp hp'
    refine .awake (fun observedEvent => ?_) ?_
    · rw [goto_pc]
      exact hp observedEvent
    · rw [goto_pc]
      exact hp'
  have hnot : ∀ {q : LifecyclePc}, w.pc .reaper = q → isReaper q = false → False := by
    intro q hpc hq
    rw [hpc, hq] at hr
    cases hr
  cases hs with
  | createRefused hpc | create hpc | join _ hpc | detach _ hpc | exit _ hpc | entry hpc | createInsert hpc
  | createClone hpc | createCloneFail hpc | createPublish hpc | createRemove hpc | createUnmap hpc
  | createUnmapFail hpc | createFree hpc | joinFind hpc | joinLoad hpc | joinWaited hpc | joinWaitFail hpc
  | joinUnmap hpc | joinUnmapFail hpc | joinRestore hpc | joinResult hpc | joinRemove hpc | joinFree hpc
  | detachFind hpc | reapRestoreJoinable hpc | exitStore _ hpc | exitStoreMain _ hpc | exitCount hpc =>
    exact (hnot hpc rfl).elim
  | notify hpc | reapUnmap hpc | reapUnmapFail hpc | reapRestore hpc | reapRemove hpc | reaperLoop hpc
  | findReapableEnd hpc | pollWait hpc | eventAgain hpc => exact hout nofun nofun
  | @wake next hpc => cases next <;> exact hout nofun nofun
  | @reapFree c restoreJoinable hpc => cases restoreJoinable <;> exact hout nofun nofun
  | findReapable hpc =>
    split
    · exact hout nofun nofun
    · exact hout nofun nofun
  | findDetached hpc =>
    split
    · exact hout nofun nofun
    · rename_i hfind
      -- nothing is detached when the event is sampled
      have hcount : w.detachedCount = 0 := by
        refine List.countP_eq_zero.2 fun c hc => ?_
        exact List.find?_eq_none.1 hfind c hc
      refine ⟨fun observedEvent hpc' => ?_, fun hpc' => ?_⟩
      · rw [goto_pc] at hpc'
        cases hpc'
        refine ⟨0, by simp [goto], .inl ⟨hcount, ?_⟩⟩
        rintro ⟨b, next, hb⟩
        by_cases hbr : b = .reaper
        · rw [hbr, goto_pc] at hb
          cases hb
        · have hb' : w.pc b = .notify next := by
            rw [← hb]
            exact (Function.update_of_ne hbr _ _).symm
          exact hbr (notifying_holder hinv (by rw [hpc]; rfl) hb')
      · rw [goto_pc] at hpc'
        cases hpc'
  | @observeTid c observedEvent hpc =>
    have hz := hscan.inspected c ⟨hscan.sampled c observedEvent hpc, .inr (.inr ⟨observedEvent, hpc⟩)⟩
    rw [if_pos hz]
    exact hout nofun nofun
  | @eventSleep observedEvent hpc he =>
    refine ⟨fun observedEvent hpc' => ?_, fun _ => ?_⟩
    · rw [goto_pc] at hpc'
      cases hpc'
    · obtain ⟨n, hn, hc⟩ := h.waiting observedEvent hpc
      rw [he] at hn
      have hle : n ≤ w.detachedCount := by
        rcases hc with ⟨hc, -⟩ | ⟨hc, -⟩ <;> omega
      have h0 := event_unchanged hinv hroom hle hn
      rcases hc with ⟨hc, -⟩ | ⟨-, b, next, hb⟩
      · exact .inl (hc.trans h0)
      · right
        refine ⟨b, ?_⟩
        have hbr : b ≠ .reaper := by
          rintro rfl
          rw [hpc] at hb
          cases hb
        have hpcb : (w.goto .reaper .eventAsleep).pc b = w.pc b := Function.update_of_ne hbr _ _
        rw [hpcb, hb]
        rfl

/-! ## The reaper never sleeps past its work -/

structure ReaperInv (w : Threads) : Prop where
  inv : Inv w
  room : w.mappedStacks ≤ stackLimit
  only (a : Agent) : isReaper (w.pc a) = true ↔ a = .reaper
  scanned : Scanned w
  rests : Rests w

theorem Init.reaperInv {w : Threads} (h : Init w) : ReaperInv w where
  inv := h.inv
  room := by
    unfold mappedStacks
    rw [h.made]
    exact Nat.zero_le _
  only a := by
    rcases a with _ | c | _
    · rw [h.main]
      exact iff_of_false nofun nofun
    · rw [h.child]
      exact iff_of_false nofun nofun
    · rw [h.reaper]
      exact iff_of_true rfl rfl
  scanned := .outside (by rw [h.reaper]; rfl)
  rests := .awake (fun observedEvent => by rw [h.reaper]; exact nofun) (by rw [h.reaper]; exact nofun)

theorem Rests.kernel {w w' : Threads} (h : Rests w) (hpc : w'.pc = w.pc) (hevent : w'.event = w.event)
    (hcount : w'.detachedCount = w.detachedCount) : Rests w' := by
  obtain ⟨hwait, hasleep⟩ := h
  unfold Notifying at hwait
  rw [← hpc, ← hevent, ← hcount] at hwait
  rw [← hpc, ← hcount] at hasleep
  exact ⟨hwait, hasleep⟩

theorem ReaperInv.step {w w' : Threads} (h : ReaperInv w) (hs : Step fresh w w') (htime : InTime w w') :
    ReaperInv w' where
  inv := h.inv.step hs
  room := mappedStacks_step h.inv hs h.room
  scanned := h.scanned.step h.inv hs htime
  only a := by
    cases hs with
    | @acts _ b hruns hacts =>
      by_cases hab : a = b
      · subst hab
        rw [hacts.isReaper]
        exact h.only a
      · rcases (hacts.frame h.inv).others a hab with he | ⟨he, he'⟩
        · rw [he]
          exact h.only a
        · have ha := h.only a
          rw [he] at ha
          rw [he']
          exact ha
    | start ht | finish ht hpc => exact h.only a
  rests := by
    cases hs with
    | @acts _ a hruns hacts =>
      by_cases ha : a = .reaper
      · subst ha
        exact h.rests.step_reaper h.inv h.room h.scanned ((h.only .reaper).2 rfl) hacts
      · have hnot : isReaper (w.pc a) = false := by
          by_contra hc
          exact ha ((h.only a).1 (by simpa using hc))
        exact h.rests.step_other h.inv (hacts.frame h.inv) (hacts.notice h.inv hnot) ha
    | start ht | finish ht hpc =>
      refine h.rests.kernel rfl rfl ?_
      exact detachedCount_setControl (w := w) rfl

/-- The reaper never sleeps past its work: in every run in which the kernel
clears no word between the look of the reaper's scan at it and the sample the
reaper takes of it, while the reaper is in its untimed sleep and no notifier is
between its change and its wake, no published control in the registry is
detached. -/
theorem reaper_never_oversleeps {w : Threads}
    (h : Reachable Init (fun w w' => Step AnyTid w w' ∧ InTime w w') w) (hasleep : w.pc .reaper = .eventAsleep)
    (hnotifier : ∀ a, noticing (w.pc a) = false) :
    ¬∃ c ∈ w.registry, (w.control c).published = true ∧ (w.control c).lifecycle = .detached := by
  have hinv : ReaperInv w := h.invariant (fun _ h => h.reaperInv) fun _ _ h hs => h.step hs.1 hs.2
  rintro ⟨c, hl, hp, hd⟩
  rcases hinv.rests.asleep hasleep with h0 | ⟨a, ha⟩
  · have hnot := List.countP_eq_zero.1 h0 c hl
    simp [detachedAt, hp, hd] at hnot
  · rw [hnotifier a] at ha
    cases ha

/-! ## A word that is cleared in time, and one that is not -/

/-- The main thread detaches a thread and notifies the reaper. -/
def detaching (w : Threads) (thr : Nat) : Threads :=
  let changed := (w.goto .main (.detachFind thr)).detachFind .main thr true
  let counted := { changed with event := changed.event + 1 }.goto .main (.wake .detached)
  { counted.wakeReaper with lock := none }.goto .main (.idle (some .detached))

/-- The reaper scans the one control of the registry and samples the event. -/
def observing (w : Threads) (c : Nat) : Threads :=
  let locked := { w with lock := some .reaper }.goto .reaper (.findReapable [c])
  ((locked.goto .reaper (.findReapable [])).goto .reaper .findDetached).goto .reaper (.observeTid c w.event)

/-- It finds a word cleared and goes to sleep. -/
def sleeping (w : Threads) (observedEvent : BitVec 32) : Threads :=
  ({ w with lock := none }.goto .reaper (.eventWait observedEvent)).goto .reaper .eventAsleep

theorem InTime.outside {w w' : Threads} (h : scanning (w.pc .reaper) = false) : InTime w w' := by
  intro c hc
  rw [hc.scanning] at h
  cases h

theorem Beside.inTime {w w' : Threads} (h : Reachable Init (fun w w' => Step AnyTid w w' ∧ InTime w w') w)
    (hscan : scanning (w.pc .reaper) = false) (hrun : Relation.ReflTransGen (Beside AnyTid) w w') :
    Reachable Init (fun w w' => Step AnyTid w w' ∧ InTime w w') w' ∧ scanning (w'.pc .reaper) = false := by
  induction hrun with
  | refl => exact ⟨h, hscan⟩
  | tail _ hs ih =>
    refine ⟨ih.1.next ⟨hs.1, .outside ih.2⟩, ?_⟩
    rw [hs.2]
    exact ih.2

/-- The reaper reclaims the one control of the registry. -/
def reaping (w : Threads) (c : Nat) : Threads :=
  let locked := { w with lock := some .reaper }.goto .reaper (.findReapable [c])
  let claimed := { locked.setLifecycle c .reaping with lock := none }.goto .reaper (.reapUnmap c false)
  let removed := ((claimed.unmapStack c).goto .reaper (.reapRemove c false)).removeControl c
  ((removed.goto .reaper (.reapFree c false)).freeControl c).goto .reaper .reaperLoop

/-- It finds nothing to do and goes to sleep. -/
def resting (w : Threads) : Threads :=
  let locked := { w with lock := some .reaper }.goto .reaper (.findReapable [])
  (locked.goto .reaper .findDetached).sleeping w.event

/-- The thread exits before the scan. -/
def rested : Threads := ((((begun.forked 5).detaching 5).exiting 0 5 7).reaping 0).resting

theorem reachable_rested : Reachable Init (fun w w' => Step AnyTid w w' ∧ InTime w w') rested := by
  have hforked := (Beside.inTime (.start begun_init) rfl (begun_run trivial)).1
  have hcall := hforked.next ⟨.acts (a := .main) trivial (.detach 5 rfl), .outside rfl⟩
  have hfind := hcall.next ⟨.acts (a := .main) trivial (@Acts.detachFind _ _ _ _ true (goto_pc ..) rfl), .outside rfl⟩
  have hnotify := hfind.next ⟨.acts (a := .main) trivial (@Acts.notify _ _ _ .detached rfl), .outside rfl⟩
  have hdetached := hnotify.next ⟨.acts (a := .main) trivial (.wake (goto_pc ..)), .outside rfl⟩
  have hexited := (Beside.inTime hdetached rfl
    (@exiting_run AnyTid ((begun.forked 5).detaching 5) 0 5 rfl rfl (by decide) 7)).1
  have hlocked := hexited.next ⟨.acts (a := .reaper) rfl (.reaperLoop rfl rfl), .outside rfl⟩
  have hclaimed := hlocked.next ⟨.acts (a := .reaper) rfl (@Acts.findReapable _ _ _ 0 [] rfl),
    fun c _ h => by rcases c with _ | c <;> exact h⟩
  have hunmapped := hclaimed.next ⟨.acts (a := .reaper) rfl (@Acts.reapUnmap _ _ _ 0 false rfl), .outside rfl⟩
  have hremoved := hunmapped.next ⟨.acts (a := .reaper) rfl (.reapRemove (goto_pc ..) rfl), .outside rfl⟩
  have hfreed := hremoved.next ⟨.acts (a := .reaper) rfl (.reapFree (goto_pc ..)), .outside rfl⟩
  have hagain := hfreed.next ⟨.acts (a := .reaper) rfl (.reaperLoop rfl rfl), .outside rfl⟩
  have hscanned := hagain.next ⟨.acts (a := .reaper) rfl (.findReapableEnd rfl), fun _ _ h => h⟩
  have hnone := hscanned.next ⟨.acts (a := .reaper) rfl (.findDetached rfl), fun _ _ h => h⟩
  exact hnone.next ⟨.acts (a := .reaper) rfl (@Acts.eventSleep _ _ _ 1 rfl rfl), .outside rfl⟩

theorem reaper_never_oversleeps_rested :
    ¬∃ c ∈ rested.registry, (rested.control c).published = true ∧ (rested.control c).lifecycle = .detached := by
  refine reaper_never_oversleeps reachable_rested rfl ?_
  rintro (_ | c | _)
  · rfl
  · rcases c with _ | c <;> rfl
  · rfl

/-- The thread exits between the scan and the sample. -/
def overslept : Threads := (((((begun.forked 5).detaching 5).observing 0).exiting 0 5 7).sleeping 1)

theorem reachable_detaching {fresh : Threads → Nat → Prop} (h : Reachable Init (Step fresh) (begun.forked 5)) :
    Reachable Init (Step fresh) ((begun.forked 5).detaching 5) := by
  have hcall := h.next (.acts (a := .main) trivial (.detach 5 rfl))
  have hfind := hcall.next (.acts (a := .main) trivial (@Acts.detachFind _ _ _ _ true (goto_pc ..) rfl))
  have hnotify := hfind.next (.acts (a := .main) trivial (@Acts.notify _ _ _ .detached rfl))
  exact hnotify.next (.acts (a := .main) trivial (.wake (goto_pc ..)))

theorem reachable_overslept : Reachable Init (Step AnyTid) overslept := by
  have hdetached := reachable_detaching (@reachable_begun AnyTid trivial)
  have hlocked := hdetached.next (.acts (a := .reaper) rfl (.reaperLoop rfl rfl))
  have hpassed := hlocked.next (.acts (a := .reaper) rfl (@Acts.findReapable _ _ _ 0 [] rfl))
  have hscanned := hpassed.next (.acts (a := .reaper) rfl (.findReapableEnd rfl))
  have hfound := hscanned.next (.acts (a := .reaper) rfl (.findDetached rfl))
  have hexited := Beside.reachable hfound
    (@exiting_run AnyTid (((begun.forked 5).detaching 5).observing 0) 0 5 rfl rfl (by decide) 7)
  have hobserved := hexited.next (.acts (a := .reaper) rfl (@Acts.observeTid _ _ _ 0 1 rfl))
  exact hobserved.next (.acts (a := .reaper) rfl (@Acts.eventSleep _ _ _ 1 rfl rfl))

/-- The reaper sleeps without a timeout, and a thread that has exited is left
detached. -/
theorem reaper_oversleeps : Reachable Init (Step AnyTid) overslept ∧ overslept.pc .reaper = .eventAsleep ∧
    (∀ a, noticing (overslept.pc a) = false) ∧ overslept.registry = [0] ∧
    (overslept.control 0).published = true ∧ (overslept.control 0).lifecycle = .detached ∧
    (overslept.control 0).clearTid = 0 := by
  refine ⟨reachable_overslept, rfl, ?_, rfl, rfl, rfl, rfl⟩
  rintro (_ | c | _)
  · rfl
  · rcases c with _ | c <;> rfl
  · rfl

end Threads

end MiniLibc.Thread
