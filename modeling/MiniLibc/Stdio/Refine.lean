import MiniLibc.Stdio.Cursor
/-!
# Bytes through a buffer

Every operation of a byte stream over a regular file does on `World.plain` what
`Plain.exec` says when no raw call fails, and what `Plain.Interrupted` allows
when one does. Here are the operations that move bytes.
-/
open MiniLibc.Memory MiniLibc.Runs

namespace MiniLibc.Stdio

/-- The reply of `fgets`. -/
def lineReply (r : List UInt8 × Bool) : Reply := ⟨r.1, if r.2 then some 0 else none⟩

/-- The reply of an operation that only succeeds or fails. -/
def okReply (ok : Bool) : Reply := ⟨[], if ok then some 0 else none⟩

/-- The reply a caller sees, and the world after an operation. -/
def FileOp.run {κ : Type} [Kernel κ] (w : World κ) : FileOp → Reply × World κ
  | .fgetc =>
    let (byte, w) := Stdio.fgetc w
    (⟨byte.toList, byteValue byte⟩, w)
  | .fread size nmemb =>
    let ((bytes, count), w) := Stdio.fread size nmemb w
    (⟨bytes, some count⟩, w)
  | .fgets n =>
    let (line, w) := Stdio.fgets n w
    (lineReply line, w)
  | .ungetc c =>
    let (byte, w) := Stdio.ungetc c w
    (⟨[], byteValue byte⟩, w)
  | .fputc c =>
    let (byte, w) := Stdio.fputc c w
    (⟨[], byteValue byte⟩, w)
  | .fwrite data size nmemb =>
    let (count, w) := Stdio.fwrite data size nmemb w
    (⟨[], some count⟩, w)
  | .fflush =>
    let (ok, w) := Stdio.fflush w
    (okReply ok, w)
  | .fseek offset whence =>
    let (ok, w) := Stdio.fseek offset whence w
    (okReply ok, w)
  | .ftell =>
    let (position, w) := Stdio.ftell w
    (⟨[], position⟩, w)

/-- An operation with this reply did to the file what the abstract one does. -/
structure Refines (w : World Regular) (op : FileOp) (r : Reply) (w' : World Regular) : Prop where
  rep : Rep w'
  mode : w'.file.mode = w.file.mode
  failures : w.kernel.failures ≤ w'.kernel.failures
  done : w'.kernel.failures = w.kernel.failures → (r, w'.plain) = w.plain.exec w.file.mode op
  interrupted : w.kernel.failures < w'.kernel.failures → w.plain.Interrupted w.file.mode op r w'.plain

theorem Refines.of_done {w w' : World Regular} {op : FileOp} {r : Reply} (hrep : Rep w')
    (hm : w'.file.mode = w.file.mode) (hf : w'.kernel.failures = w.kernel.failures)
    (h : (r, w'.plain) = w.plain.exec w.file.mode op) : Refines w op r w' :=
  ⟨hrep, hm, hf.ge, fun _ => h, fun hlt => absurd hf hlt.ne'⟩

/-- The orientation check of a byte stream passes and changes nothing in the file. -/
theorem Rep.requireByte {w : World Regular} (h : Rep w) :
    ∃ w', requireByte w = (true, w') ∧ Rep w' ∧ w'.plain = w.plain ∧ w'.kernel = w.kernel ∧
      w'.file.mode = w.file.mode := by
  unfold Stdio.requireByte
  rw [if_neg (by simp [h.valid])]
  split
  · exact ⟨_, rfl, ⟨h.directed.withState rfl rfl, h.valid, h.notAppend, h.notWide, h.capacity, h.kernel, h.ahead_le,
      h.ahead_size, h.cached, h.pushback_le, h.eof⟩, rfl, rfl, rfl⟩
  · rename_i hn
    have hb : w.file.state.byteOriented = true := by
      by_contra hb
      exact hn ⟨by simpa using hb, by simp [h.notWide]⟩
    rw [if_pos ⟨hb, by simp [h.notWide]⟩]
    exact ⟨w, rfl, h, rfl, rfl, rfl⟩

/-- A wrapped operation refines what its core refines. -/
theorem Rep.byteOp {α : Type} {fail : α} {core : World Regular → α × World Regular} {w : World Regular} {op : FileOp}
    (h : Rep w) (reply : α → Reply)
    (hcore : ∀ w, Rep w → Refines w op (reply (core w).1) (core w).2) :
    Refines w op (reply (byteOp fail core w).1) (byteOp fail core w).2 := by
  obtain ⟨w1, hr, h1, hp, hk, hm⟩ := h.requireByte
  have hc := hcore w1 h1
  unfold Stdio.byteOp
  rw [hr]
  exact ⟨hc.rep, hc.mode.trans hm, hk ▸ hc.failures, fun hs => by
    rw [← hp, ← hm]
    exact hc.done (hs.trans (by rw [hk])), fun hlt => by
    rw [← hp, ← hm]
    exact hc.interrupted (by rw [hk]; exact hlt)⟩

/-! ## Input -/

/-- A raw read of a byte stream. -/
theorem Rep.stdioRead {w : World Regular} (h : Rep w) (n : Nat) :
    Rep (stdioRead w n).2 ∧ (stdioRead w n).2.file.mode = w.file.mode ∧
      w.kernel.failures ≤ (stdioRead w n).2.kernel.failures ∧
      ((stdioRead w n).2.kernel.failures = w.kernel.failures →
        ((stdioRead w n).1, (stdioRead w n).2.plain) = w.plain.read w.file.mode n ∧
        (w.plain.CanRead w.file.mode → (stdioRead w n).1.length < n → (stdioRead w n).2.file.state.eof = true)) ∧
      (w.kernel.failures < (stdioRead w n).2.kernel.failures →
        w.plain.CanRead w.file.mode ∧ (stdioRead w n).1.length < n ∧ (stdioRead w n).1 <+: w.plain.input.take n ∧
          (stdioRead w n).2.plain = w.plain.taken (stdioRead w n).1 true ∧
          (stdioRead w n).2.file.state.eof = false) := by
  rcases stdioRead_cases w n with ⟨h0, hr⟩ | ⟨hbad, h0, hr⟩ | ⟨hm, hs, h0, -⟩
  · rw [hr]
    refine ⟨h, rfl, Nat.le_refl _, fun _ => ⟨?_, fun _ hlt => ?_⟩, fun hlt => absurd hlt (Nat.lt_irrefl _)⟩
    · rw [Plain.read, if_pos (.inl h0)]
    · rw [h0] at hlt
      exact absurd hlt (Nat.not_lt_zero _)
  · have hno : ¬ w.plain.CanRead w.file.mode := by
      rintro ⟨h1, h2⟩
      rcases hbad with hb | hb
      · rw [hb] at h1; contradiction
      · exact absurd (hb.symm.trans h2) (by decide)
    rw [hr]
    refine ⟨(h.markError _).1, rfl, Nat.le_refl _, fun _ => ⟨?_, fun hc => absurd hc hno⟩,
      fun hlt => absurd hlt (Nat.lt_irrefl _)⟩
    rw [Plain.read, if_pos (.inr hno)]
    rfl
  have hcan : w.plain.CanRead w.file.mode := ⟨hm, hs⟩
  have hread : RepRead { w with file := ensureStorage w.file } := {
    toRep := h.ensure
    ready := h.directed.reading hs
    size_pos := ensureStorage_bufferSize _ }
  have hrun := ((stdioRead_run hm hs h.directed.buffered).resolve_right fun hz => h0 hz.1 :
    ReadRun { w with file := ensureStorage w.file } n (Stdio.stdioRead w n).1 (Stdio.stdioRead w n).2)
  obtain ⟨h1, h2, h3, h4, h5, h6, h7, h8⟩ := hrun.readsOn hread
  rw [h.ensure_plain] at h4 h5 h6
  refine ⟨h1.toRep, h2, h3, fun hsame => ⟨?_, fun _ => h7 hsame⟩, fun hlt => ?_⟩
  · obtain ⟨hl, hflag⟩ := h6 hsame
    rw [if_neg h0] at hflag
    rw [Plain.read, if_neg (by simp [h0, hcan])]
    rw [← hl, h5, hflag]
  · obtain ⟨hflag, heof, hless⟩ := h8 hlt
    rw [hflag] at h5
    exact ⟨hcan, hless, h4, h5, heof⟩

theorem fgetcCore_eq {κ : Type} [Kernel κ] (w : World κ) (h : (stdioRead w 1).1.length ≤ 1) :
    fgetcCore w = ((stdioRead w 1).1.head?, (stdioRead w 1).2) := by
  unfold fgetcCore
  generalize stdioRead w 1 = r at h
  obtain ⟨_ | ⟨byte, _ | _⟩, w1⟩ := r
  · rfl
  · rfl
  · simp at h

theorem Plain.read_length (p : Plain) (m : Mode) (n : Nat) : (p.read m n).1.length ≤ n := by
  unfold Plain.read
  split
  · exact Nat.zero_le _
  · exact List.length_take_le _ _

theorem Rep.stdioRead_length {w : World Regular} (h : Rep w) (n : Nat) : (Stdio.stdioRead w n).1.length ≤ n := by
  obtain ⟨-, -, hf, hsame, hlt⟩ := h.stdioRead n
  rcases Nat.lt_or_eq_of_le hf with hf | hf
  · exact (hlt hf).2.2.1.length_le.trans (List.length_take_le _ _)
  · have h1 := congrArg (fun r => r.1.length) (hsame hf.symm).1
    exact h1.le.trans (Plain.read_length _ _ _)

theorem Rep.fgetc {w : World Regular} (h : Rep w) :
    Refines w .fgetc ⟨(fgetcCore w).1.toList, byteValue (fgetcCore w).1⟩ (fgetcCore w).2 := by
  have hlen := h.stdioRead_length 1
  obtain ⟨h1, h2, h3, h4, h5⟩ := h.stdioRead 1
  rw [fgetcCore_eq w hlen]
  have hlist : (Stdio.stdioRead w 1).1.head?.toList = (Stdio.stdioRead w 1).1 := by
    generalize (Stdio.stdioRead w 1).1 = l at hlen
    match l, hlen with
    | [], _ => rfl
    | [_], _ => rfl
  dsimp only
  rw [hlist]
  refine ⟨h1, h2, h3, fun hs => ?_, fun hlt => ?_⟩
  · have := (h4 hs).1
    rw [Plain.exec, ← this]
  · obtain ⟨hcan, -, hfront, hp, -⟩ := h5 hlt
    refine ⟨hcan, _, ?_, rfl, hp⟩
    rw [Plain.exec, Plain.read, if_neg (by simp [hcan])]
    exact hfront

theorem Rep.fread {w : World Regular} (h : Rep w) (size nmemb : Nat) :
    Refines w (.fread size nmemb) ⟨(freadCore size nmemb w).1.1, some ((freadCore size nmemb w).1.2 : Nat)⟩
      (freadCore size nmemb w).2 := by
  unfold freadCore
  by_cases h0 : size = 0 ∨ nmemb = 0
  · rw [if_pos h0]
    refine .of_done h rfl rfl ?_
    rw [Plain.exec]
    by_cases hguard : size = 0 ∨ nmemb > sizeMax / size
    · rw [if_pos hguard]
      rfl
    · have : size * nmemb = 0 := by
        rcases h0 with h0 | h0
        · exact absurd (.inl h0) hguard
        · rw [h0, Nat.mul_zero]
      rw [if_neg hguard, this, Plain.read, if_pos (.inl rfl)]
      dsimp only
      rw [List.length_nil, Nat.zero_div]
  rw [if_neg h0]
  by_cases hbig : nmemb > sizeMax / size
  · rw [if_pos hbig]
    refine .of_done (h.markError _).1 rfl rfl ?_
    rw [Plain.exec, if_pos (.inr hbig)]
    rfl
  rw [if_neg hbig]
  obtain ⟨h1, h2, h3, h4, h5⟩ := h.stdioRead (size * nmemb)
  have hguard : ¬ (size = 0 ∨ nmemb > sizeMax / size) := fun hb => hb.elim (fun hb => h0 (.inl hb)) hbig
  refine ⟨h1, h2, h3, fun hs => ?_, fun hlt => ?_⟩
  · have := (h4 hs).1
    rw [Plain.exec, if_neg hguard, ← this]
  · obtain ⟨hcan, hne, hfront, hp, -⟩ := h5 hlt
    refine ⟨hcan, _, ?_, rfl, hp⟩
    rw [Plain.exec, if_neg hguard, Plain.read, if_neg (by simp only [not_or, not_not]; exact ⟨by omega, hcan⟩)]
    exact hfront

/-- The first line of the input with one byte taken off it. -/
theorem lineOf_cons (room : Nat) (b : UInt8) (l : List UInt8) :
    lineOf (room + 1) (b :: l) =
      if b = 10 then ([b], true) else (b :: (lineOf room l).1, (lineOf room l).2) := rfl

/-- What the loop of `fgets` did to the file. -/
structure LineOn (w w' : World Regular) (room : Nat) (line : List UInt8) (ok : Bool) : Prop where
  rep : Rep w'
  mode : w'.file.mode = w.file.mode
  failures : w.kernel.failures ≤ w'.kernel.failures
  front : line <+: (lineOf room w.plain.input).1
  plain : w'.plain = w.plain.taken line w'.file.state.readNeedsPosition
  complete : w'.kernel.failures = w.kernel.failures → line = (lineOf room w.plain.input).1 ∧ ok = true ∧
    (w'.file.state.readNeedsPosition = if room = 0 then w.file.state.readNeedsPosition else
      (lineOf room w.plain.input).2) ∧
    (0 < room → line = [] → w'.file.state.eof = true)
  failed : w.kernel.failures < w'.kernel.failures → ok = false ∧ w'.file.state.readNeedsPosition = true

theorem Rep.fgetsLoop {w : World Regular} (h : Rep w) (hcan : w.plain.CanRead w.file.mode) (room : Nat) :
    LineOn w (fgetsLoop room w).2.2 room (fgetsLoop room w).1 (fgetsLoop room w).2.1 := by
  induction room generalizing w with
  | zero =>
    exact ⟨h, rfl, Nat.le_refl _, List.nil_prefix, plain_taken_nil w,
      fun _ => ⟨rfl, rfl, rfl, fun h0 => absurd h0 (Nat.lt_irrefl 0)⟩,
      fun hlt => absurd hlt (Nat.lt_irrefl _)⟩
  | succ room ih =>
    obtain ⟨h1, h2, h3, h4, h5⟩ := h.stdioRead 1
    have hlen := h.stdioRead_length 1
    have hcore := fgetcCore_eq w hlen
    have hread : w.plain.read w.file.mode 1 = (w.plain.input.take 1,
        w.plain.taken (w.plain.input.take 1) ((w.plain.input.take 1).length = 1)) := by
      rw [Plain.read, if_neg (by simp [hcan])]
    rw [hread] at h4
    unfold Stdio.fgetsLoop
    rw [hcore]
    generalize Stdio.stdioRead w 1 = r at *
    obtain ⟨l, w1⟩ := r
    dsimp only at *
    cases l with
    | nil =>
      -- The read met the end, or failed.
      dsimp only [List.head?_nil]
      refine ⟨h1, h2, h3, List.nil_prefix, ?_, fun hs => ?_, fun hlt => ?_⟩
      · rcases Nat.lt_or_eq_of_le h3 with hlt | heq
        · have hp := (h5 hlt).2.2.2.1
          rw [show w1.file.state.readNeedsPosition = true from congrArg Plain.reading hp]
          exact hp
        · have hp := congrArg Prod.snd (h4 heq.symm).1
          have hnil := congrArg Prod.fst (h4 heq.symm).1
          dsimp only at hp hnil
          rw [← hnil] at hp
          rw [show w1.file.state.readNeedsPosition = _ from congrArg Plain.reading hp]
          exact hp
      · obtain ⟨he, hend⟩ := h4 hs
        have hnil : w.plain.input = [] := by
          have := (Prod.mk.inj he).1
          cases hin : w.plain.input with
          | nil => rfl
          | cons b rest => rw [hin] at this; simp at this
        have heof := hend hcan Nat.zero_lt_one
        have hp := (Prod.mk.inj he).2
        rw [hnil] at hp ⊢
        exact ⟨rfl, heof, congrArg Plain.reading hp, fun _ _ => heof⟩
      · obtain ⟨-, -, -, hp, heof⟩ := h5 hlt
        exact ⟨heof, congrArg Plain.reading hp⟩
    | cons b tail =>
      obtain rfl : tail = [] := List.length_eq_zero_iff.1 (Nat.le_zero.1 (Nat.le_of_succ_le_succ hlen))
      dsimp only [List.head?_cons]
      -- A failed read would have delivered nothing.
      have hsame : w1.kernel.failures = w.kernel.failures := by
        rcases Nat.lt_or_eq_of_le h3 with hlt | heq
        · exact absurd (h5 hlt).2.1 (Nat.lt_irrefl 1)
        · exact heq.symm
      obtain ⟨rest, hin, hp⟩ : ∃ rest, w.plain.input = b :: rest ∧ w1.plain = w.plain.taken [b] true := by
        obtain ⟨h6, h7⟩ := Prod.mk.inj (h4 hsame).1
        cases hin : w.plain.input with
        | nil => rw [hin] at h6; simp at h6
        | cons c rest =>
          rw [hin] at h6 h7
          obtain rfl : b = c := by simpa using h6
          exact ⟨rest, rfl, by simpa using h7⟩
      have hr : w1.file.state.readNeedsPosition = true := congrArg Plain.reading hp
      have hrest : w1.plain.input = rest := by
        rw [hp, Plain.input_taken (by rw [hin]; exact (List.cons_prefix_cons).2 ⟨rfl, List.nil_prefix⟩), hin]
        rfl
      by_cases hnl : b = 10
      · rw [if_pos hnl]
        refine ⟨h1, h2, h3, by rw [hin, lineOf_cons, if_pos hnl], by rw [hr]; exact hp, fun _ => ?_, fun hlt => ?_⟩
        · rw [hin, lineOf_cons, if_pos hnl, if_neg (Nat.succ_ne_zero room)]
          exact ⟨rfl, rfl, hr, fun _ h0 => absurd h0 (List.cons_ne_nil _ _)⟩
        · exact absurd hsame hlt.ne'
      rw [if_neg hnl]
      have hcan1 : w1.plain.CanRead w1.file.mode := by
        rw [hp, h2]
        exact hcan
      obtain ⟨g1, g2, g3, g4, g5, g6, g7⟩ := ih h1 hcan1
      generalize Stdio.fgetsLoop room w1 = r at *
      obtain ⟨line, ok, w'⟩ := r
      dsimp only at *
      rw [hsame] at g3 g6 g7
      rw [hrest] at g4 g6
      refine ⟨g1, g2.trans h2, g3, ?_, ?_, fun hs => ?_, g7⟩
      · rw [hin, lineOf_cons, if_neg hnl]
        exact (List.cons_prefix_cons).2 ⟨rfl, g4⟩
      · rw [g5, hp, Plain.taken_taken]
        rfl
      · obtain ⟨k1, k2, k3, -⟩ := g6 hs
        rw [hin, lineOf_cons, if_neg hnl, if_neg (Nat.succ_ne_zero room)]
        refine ⟨by rw [k1], k2, ?_, fun _ h0 => absurd h0 (List.cons_ne_nil _ _)⟩
        rw [k3]
        split
        · rename_i h0
          rw [h0, hr]
          rfl
        · rfl

theorem Rep.fgets {w : World Regular} (h : Rep w) (n : Int) :
    Refines w (.fgets n) (lineReply (fgetsCore n w).1) (fgetsCore n w).2 := by
  unfold fgetsCore
  by_cases hbad : n ≤ 0 ∨ (!w.file.mode.readable) = true ∨ w.file.state.writeNeedsSync = true
  · rw [if_pos hbad]
    refine .of_done (h.markError _).1 rfl rfl ?_
    have hguard : n ≤ 0 ∨ ¬ w.plain.CanRead w.file.mode := by
      rcases hbad with hb | hb | hb
      · exact .inl hb
      · exact .inr fun hc => by simp [hc.1] at hb
      · exact .inr fun hc => absurd (hb.symm.trans hc.2) (by decide)
    rw [Plain.exec, if_pos hguard]
    rfl
  rw [if_neg hbad]
  simp only [not_or, not_le, Bool.not_eq_true, Bool.not_eq_false'] at hbad
  have hcan : w.plain.CanRead w.file.mode := ⟨hbad.2.1, hbad.2.2⟩
  have hguard : ¬ (n ≤ 0 ∨ ¬ w.plain.CanRead w.file.mode) := by
    simp only [not_or, not_not]
    exact ⟨by omega, hcan⟩
  by_cases h1 : n = 1
  · rw [if_pos h1]
    refine .of_done h rfl rfl ?_
    rw [Plain.exec, if_neg hguard, if_pos h1]
    rfl
  rw [if_neg h1]
  have hroom : 0 < (n - 1).toNat := by omega
  have hl := h.fgetsLoop hcan (n - 1).toNat
  generalize Stdio.fgetsLoop (n - 1).toNat w = r at hl
  obtain ⟨line, ok, w1⟩ := r
  dsimp only at hl ⊢
  cases ok with
  | false =>
    -- Only a failed read stops the loop so.
    refine ⟨hl.rep, hl.mode, hl.failures, fun hs => ?_, fun hlt => ?_⟩
    · exact absurd (hl.complete hs).2.1 (by decide)
    · refine ⟨hcan, line, ?_, rfl, ?_⟩
      · rw [Plain.exec, if_neg hguard, if_neg h1]
        exact hl.front
      · have hp := hl.plain
        rw [(hl.failed hlt).2] at hp
        exact hp
  | true =>
    have hsame : w1.kernel.failures = w.kernel.failures := by
      rcases Nat.lt_or_eq_of_le hl.failures with hlt | heq
      · exact absurd (hl.failed hlt).1 (by decide)
      · exact heq.symm
    obtain ⟨k1, -, k3, k4⟩ := hl.complete hsame
    rw [if_neg (by omega)] at k3
    have hend : line.length = 0 ∧ w1.file.state.eof = true ↔ line = [] := by
      constructor
      · exact fun hz => List.eq_nil_of_length_eq_zero hz.1
      · exact fun hz => ⟨by rw [hz]; rfl, k4 hroom hz⟩
    have hplain : w1.plain = w.plain.taken line (lineOf (n - 1).toNat w.plain.input).2 := by rw [← k3]; exact hl.plain
    by_cases hnil : line = []
    · rw [if_neg (by simp), if_pos (hend.2 hnil)]
      refine .of_done hl.rep hl.mode hsame ?_
      rw [Plain.exec, if_neg hguard, if_neg h1]
      dsimp only
      rw [← k1, if_pos hnil, hplain, hnil]
      rfl
    · rw [if_neg (by simp), if_neg fun hz => hnil (hend.1 hz)]
      refine .of_done hl.rep hl.mode hsame ?_
      rw [Plain.exec, if_neg hguard, if_neg h1]
      dsimp only
      rw [← k1, if_neg hnil, hplain]
      rfl

theorem Rep.ungetc {w : World Regular} (h : Rep w) (c : Int) :
    Refines w (.ungetc c) ⟨[], byteValue (ungetcCore c w).1⟩ (ungetcCore c w).2 := by
  unfold ungetcCore
  by_cases hc : c = -1
  · rw [if_pos hc]
    refine .of_done h rfl rfl ?_
    rw [Plain.exec, if_pos (.inl hc)]
    rfl
  rw [if_neg hc]
  have hdir := stdioPushback_directed h.directed [unsignedChar c]
  have hpush : w.file.pushback = [] ↔ ¬ w.file.pushbackOffset < w.file.pushbackLength := by
    rw [← List.length_eq_zero_iff, pushback_length]
    omega
  by_cases hcan : w.plain.CanUnget w.file.mode
  · obtain ⟨⟨hm, hs⟩, hnone⟩ := hcan
    have hs' : w.file.state.writeNeedsSync = false := hs
    have hnone' := hpush.1 hnone
    have heq : stdioPushback w [unsignedChar c] = (true, { w with file := { w.file with
        pushbackBytes := fill w.file.pushbackBytes 0 [unsignedChar c]
        pushbackOffset := 0
        pushbackLength := 1
        state := { w.file.state with eof := false, readNeedsPosition := true } } }) := by
      unfold stdioPushback
      rw [if_neg (by simp [hm, hs', hnone'])]
      rfl
    rw [heq] at hdir
    dsimp only
    rw [heq]
    refine .of_done ⟨hdir, h.valid, h.notAppend, h.notWide, h.capacity, h.kernel, h.ahead_le, h.ahead_size, h.cached,
      (by decide : 1 ≤ 4), fun he => absurd (show false = true from he) Bool.false_ne_true⟩ rfl rfl ?_
    rw [Plain.exec, if_neg (by simp only [not_or, not_not]; exact ⟨hc, ⟨hm, hs⟩, hnone⟩)]
    rfl
  · have heq : stdioPushback w [unsignedChar c] = (false, Stdio.markError w einval) := by
      unfold stdioPushback
      rw [if_pos]
      by_contra hn
      simp only [not_or, Bool.not_eq_true, Bool.not_eq_false'] at hn
      exact hcan ⟨⟨hn.1, hn.2.2.2.1⟩, hpush.2 hn.2.2.2.2⟩
    dsimp only
    rw [heq]
    refine .of_done (h.markError _).1 rfl rfl ?_
    rw [Plain.exec, if_pos (.inr hcan)]
    rfl

/-! ## Output -/

theorem Rep.fputc {w : World Regular} (h : Rep w) (c : Int) :
    Refines w (.fputc c) ⟨[], byteValue (fputcCore c w).1⟩ (fputcCore c w).2 := by
  obtain ⟨h1, h2, h3, h4, h5⟩ := h.stdioWrite [unsignedChar c]
  have hcore : fputcCore c w = (if (Stdio.stdioWrite w [unsignedChar c]).1 = 1 then some (unsignedChar c) else none,
      (Stdio.stdioWrite w [unsignedChar c]).2) := by
    unfold fputcCore
    dsimp only
    obtain ⟨n, w1⟩ := Stdio.stdioWrite w [unsignedChar c]
    match n with
    | 0 => rfl
    | 1 => rfl
    | n + 2 => simp
  rw [hcore]
  have hvalue : byteValue (if (Stdio.stdioWrite w [unsignedChar c]).1 = 1 then some (unsignedChar c) else none) =
      if (Stdio.stdioWrite w [unsignedChar c]).1 = 1 then byteValue (some (unsignedChar c)) else none := by
    split <;> rfl
  dsimp only
  rw [hvalue]
  by_cases hcan : w.plain.CanWrite w.file.mode
  · obtain ⟨hle, hp, hfull⟩ := h5 (by simp) hcan
    have hyes : ¬ ([unsignedChar c] = [] ∨ ¬ w.plain.CanWrite w.file.mode) := by simp [hcan]
    refine ⟨h1, h2, h3, fun hs => ?_, fun hlt => ?_⟩
    · rw [Plain.exec, Plain.append, if_neg hyes, hp, hfull hs]
      rfl
    · refine ⟨hcan, _, List.take_prefix _ _, ?_, hp⟩
      rw [List.length_take, Nat.min_eq_left hle]
  · obtain ⟨hz, hp, hf⟩ := h4 (.inr hcan)
    refine .of_done h1 h2 hf ?_
    have hno : [unsignedChar c] = [] ∨ ¬ w.plain.CanWrite w.file.mode := .inr hcan
    rw [Plain.exec, Plain.append, if_pos hno, hz, hp]

theorem Rep.fwrite {w : World Regular} (h : Rep w) (data : List UInt8) (size nmemb : Nat) :
    Refines w (.fwrite data size nmemb) ⟨[], some ((fwriteCore data size nmemb w).1 : Nat)⟩
      (fwriteCore data size nmemb w).2 := by
  unfold fwriteCore
  by_cases hguard : size = 0 ∨ nmemb > sizeMax / size
  · have hexec : w.plain.exec w.file.mode (.fwrite data size nmemb) = (⟨[], some 0⟩, w.plain) := by
      rw [Plain.exec, if_pos hguard]
    by_cases h0 : size = 0 ∨ nmemb = 0
    · rw [if_pos h0]
      exact .of_done h rfl rfl hexec.symm
    rw [if_neg h0]
    by_cases hw : (!w.file.mode.writable) = true
    · rw [if_pos hw]
      exact .of_done (h.markError _).1 rfl rfl hexec.symm
    rw [if_neg hw, if_pos (hguard.resolve_left fun hz => h0 (.inl hz))]
    exact .of_done (h.markError _).1 rfl rfl hexec.symm
  have hexec : w.plain.exec w.file.mode (.fwrite data size nmemb) =
      (⟨[], some ((w.plain.append w.file.mode (data.take (size * nmemb))).1 / size : Nat)⟩,
        (w.plain.append w.file.mode (data.take (size * nmemb))).2) := by
    rw [Plain.exec, if_neg hguard]
  by_cases h0 : size = 0 ∨ nmemb = 0
  · rw [if_pos h0]
    refine .of_done h rfl rfl ?_
    have hz : nmemb = 0 := h0.resolve_left fun hz => hguard (.inl hz)
    rw [hexec, hz, Nat.mul_zero, List.take_zero, Plain.append, if_pos (.inl rfl)]
    dsimp only
    rw [Nat.zero_div]
  rw [if_neg h0]
  by_cases hw : (!w.file.mode.writable) = true
  · rw [if_pos hw]
    refine .of_done (h.markError _).1 rfl rfl ?_
    have hno : ¬ w.plain.CanWrite w.file.mode := fun hc => by simp [hc.1] at hw
    rw [hexec, Plain.append, if_pos (.inr hno)]
    dsimp only
    rw [Nat.zero_div]
    rfl
  rw [if_neg hw, if_neg fun hb => hguard (.inr hb)]
  obtain ⟨h1, h2, h3, h4, h5⟩ := h.stdioWrite (data.take (size * nmemb))
  generalize hl : data.take (size * nmemb) = l at *
  dsimp only
  by_cases hno : l = [] ∨ ¬ w.plain.CanWrite w.file.mode
  · obtain ⟨hz, hp, hf⟩ := h4 hno
    refine .of_done h1 h2 hf ?_
    rw [hexec, Plain.append, if_pos hno, hz, hp]
  · simp only [not_or, not_not] at hno
    obtain ⟨hle, hp, hfull⟩ := h5 hno.1 hno.2
    refine ⟨h1, h2, h3, fun hs => ?_, fun hlt => ?_⟩
    · rw [hexec, Plain.append, if_neg (by simp [hno]), hp, hfull hs, List.take_length]
    · refine ⟨hno.2, _, ?_, ?_, hp⟩
      · rw [hl]
        exact List.take_prefix _ _
      · rw [List.length_take, Nat.min_eq_left hle]

end MiniLibc.Stdio
