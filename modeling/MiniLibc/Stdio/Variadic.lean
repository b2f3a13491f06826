import MiniLibc.Lib.Args
import MiniLibc.Lib.Memory
/-!
# Variadic arguments

`normalize_public_va_list`, `next_word` and `next_double` of `src/stdio/format.c`,
and `va_arg` as the System V ABI describes it. A word is an 8-byte number, and a
`double` stands for its bits.
-/
open MiniLibc.Args MiniLibc.Memory

namespace MiniLibc.Stdio

/-- `va_list`: the offsets of the next general and floating register in the save
area, which has six of 8 bytes and then eight of 16. -/
structure VaList where
  gpOffset : Nat
  fpOffset : Nat
  overflowArgArea : Nat
  regSaveArea : Nat
  gp_valid : gpOffset ≤ 48 ∧ 8 ∣ gpOffset
  fp_valid : 48 ≤ fpOffset ∧ fpOffset ≤ 176 ∧ 16 ∣ fpOffset

/-- `mini_format_args`. `gp_count` and `fp_count` are the lengths of the arrays. -/
structure FormatArgs where
  gp : List Nat
  fp : List Nat
  overflow : Nat
  gpIndex : Nat
  fpIndex : Nat
  gp_length : gp.length ≤ 5
  fp_length : fp.length ≤ 8

/-- `load_public_word`, and `load_double_bits`. -/
def loadPublicWord (m : Mem) (source : Nat) : Nat := load m source 8

/-! ## The caller's list -/

namespace VaList

/-- The argument from the overflow area. -/
def overflowArg (m : Mem) (ap : VaList) : Nat × VaList :=
  (loadPublicWord m ap.overflowArgArea, { ap with overflowArgArea := ap.overflowArgArea + 8 })

theorem next_gp (ap : VaList) (h : ap.gpOffset < 48) : ap.gpOffset + 8 ≤ 48 ∧ 8 ∣ ap.gpOffset + 8 := by
  have := ap.gp_valid
  omega

theorem next_fp (ap : VaList) (h : ap.fpOffset < 176) :
    48 ≤ ap.fpOffset + 16 ∧ ap.fpOffset + 16 ≤ 176 ∧ 16 ∣ ap.fpOffset + 16 := by
  have := ap.fp_valid
  omega

/-- `va_arg` of an integer type, and of `double`. -/
def vaArg (m : Mem) (ap : VaList) : Fetch → Nat × VaList
  | .word =>
    if h : ap.gpOffset < 48 then
      (loadPublicWord m (ap.regSaveArea + ap.gpOffset),
        { ap with gpOffset := ap.gpOffset + 8, gp_valid := ap.next_gp h })
    else ap.overflowArg m
  | .double =>
    if h : ap.fpOffset < 176 then
      (loadPublicWord m (ap.regSaveArea + ap.fpOffset),
        { ap with fpOffset := ap.fpOffset + 16, fp_valid := ap.next_fp h })
    else ap.overflowArg m

/-- The registers that are left, and the overflow area. -/
def lanes (m : Mem) (ap : VaList) : Lanes Nat where
  words := ((List.range 6).map fun i => loadPublicWord m (ap.regSaveArea + 8 * i)).drop (ap.gpOffset / 8)
  doubles := ((List.range 8).map fun i => loadPublicWord m (ap.regSaveArea + (48 + 16 * i))).drop ((ap.fpOffset - 48) / 16)
  stack n := loadPublicWord m (ap.overflowArgArea + 8 * n)

end VaList

/-! ## The formatter's cursor -/

namespace FormatArgs

/-- The argument at the overflow pointer. -/
def nextOverflow (m : Mem) (args : FormatArgs) : Nat × FormatArgs :=
  (loadPublicWord m args.overflow, { args with overflow := args.overflow + 8 })

/-- `next_word`. -/
def nextWord (m : Mem) (args : FormatArgs) : Nat × FormatArgs :=
  if h : args.gpIndex < args.gp.length then (args.gp[args.gpIndex], { args with gpIndex := args.gpIndex + 1 })
  else args.nextOverflow m

/-- `next_double`. -/
def nextDouble (m : Mem) (args : FormatArgs) : Nat × FormatArgs :=
  if h : args.fpIndex < args.fp.length then (args.fp[args.fpIndex], { args with fpIndex := args.fpIndex + 1 })
  else args.nextOverflow m

def next (m : Mem) (args : FormatArgs) : Fetch → Nat × FormatArgs
  | .word => args.nextWord m
  | .double => args.nextDouble m

def lanes (m : Mem) (args : FormatArgs) : Lanes Nat where
  words := args.gp.drop args.gpIndex
  doubles := args.fp.drop args.fpIndex
  stack n := loadPublicWord m (args.overflow + 8 * n)

end FormatArgs

namespace VaList

/-- `args->gp_count`. -/
def gpCount (ap : VaList) : Nat := if ap.gpOffset < 48 then min ((48 - ap.gpOffset) / 8) 5 else 0

/-- `args->fp_count`. -/
def fpCount (ap : VaList) : Nat := if ap.fpOffset < 176 then min ((176 - ap.fpOffset) / 16) 8 else 0

theorem gpCount_le (ap : VaList) : ap.gpCount ≤ 5 := by
  unfold gpCount
  split
  · exact min_le_right _ _
  · exact Nat.zero_le _

theorem fpCount_le (ap : VaList) : ap.fpCount ≤ 8 := by
  unfold fpCount
  split
  · exact min_le_right _ _
  · exact Nat.zero_le _

/-- `normalize_public_va_list`. -/
def normalizePublicVaList (m : Mem) (ap : VaList) : FormatArgs where
  gp := (List.range ap.gpCount).map fun i => loadPublicWord m (ap.regSaveArea + ap.gpOffset + i * 8)
  fp := (List.range ap.fpCount).map fun i => loadPublicWord m (ap.regSaveArea + ap.fpOffset + i * 16)
  overflow := ap.overflowArgArea
  gpIndex := 0
  fpIndex := 0
  gp_length := by simpa using ap.gpCount_le
  fp_length := by simpa using ap.fpCount_le

end VaList

/-! ## Both are lanes -/

/-- The first of the values left in an array. -/
theorem drop_next {l : List Nat} {i : Nat} (h : i < l.length) : l.drop i = l[i] :: l.drop (i + 1) :=
  List.drop_eq_getElem_cons h

theorem stack_next (m : Mem) (a : Nat) :
    (fun n => loadPublicWord m (a + 8 + 8 * n)) = fun n => loadPublicWord m (a + 8 * (n + 1)) := by
  funext n
  rw [Nat.mul_add, Nat.add_right_comm, Nat.add_assoc a]

/-- The cursor takes its arguments from its lanes. -/
theorem FormatArgs.next_lanes (m : Mem) (args : FormatArgs) (f : Fetch) :
    (args.next m f).1 = ((args.lanes m).take f).1 ∧ (args.next m f).2.lanes m = ((args.lanes m).take f).2 := by
  have hspill : (args.nextOverflow m).1 = (args.lanes m).spill.1 ∧
      (args.nextOverflow m).2.lanes m = (args.lanes m).spill.2 := by
    refine ⟨rfl, ?_⟩
    exact congrArg (Lanes.mk _ _) (stack_next m args.overflow)
  cases f with
  | word =>
    dsimp only [next, nextWord]
    by_cases h : args.gpIndex < args.gp.length
    · have hl : (args.lanes m).words = args.gp[args.gpIndex] :: args.gp.drop (args.gpIndex + 1) := drop_next h
      rw [dif_pos h]
      dsimp only [Lanes.take]
      rw [hl]
      exact ⟨rfl, rfl⟩
    · have hl : (args.lanes m).words = [] := List.drop_of_length_le (not_lt.1 h)
      rw [dif_neg h]
      dsimp only [Lanes.take]
      rw [hl]
      exact hspill
  | double =>
    dsimp only [next, nextDouble]
    by_cases h : args.fpIndex < args.fp.length
    · have hl : (args.lanes m).doubles = args.fp[args.fpIndex] :: args.fp.drop (args.fpIndex + 1) := drop_next h
      rw [dif_pos h]
      dsimp only [Lanes.take]
      rw [hl]
      exact ⟨rfl, rfl⟩
    · have hl : (args.lanes m).doubles = [] := List.drop_of_length_le (not_lt.1 h)
      rw [dif_neg h]
      dsimp only [Lanes.take]
      rw [hl]
      exact hspill

/-- The caller's list does so, too. -/
theorem VaList.vaArg_lanes (m : Mem) (ap : VaList) (f : Fetch) :
    (ap.vaArg m f).1 = ((ap.lanes m).take f).1 ∧ (ap.vaArg m f).2.lanes m = ((ap.lanes m).take f).2 := by
  have hspill : (ap.overflowArg m).1 = (ap.lanes m).spill.1 ∧ (ap.overflowArg m).2.lanes m = (ap.lanes m).spill.2 := by
    refine ⟨rfl, ?_⟩
    exact congrArg (Lanes.mk _ _) (stack_next m ap.overflowArgArea)
  cases f with
  | word =>
    obtain ⟨hle, j, hj⟩ := ap.gp_valid
    have hdiv : ap.gpOffset / 8 = j := by omega
    dsimp only [vaArg]
    by_cases h : ap.gpOffset < 48
    · have hnext : (ap.gpOffset + 8) / 8 = j + 1 := by omega
      have hl : (ap.lanes m).words = loadPublicWord m (ap.regSaveArea + ap.gpOffset) ::
          ((List.range 6).map fun i => loadPublicWord m (ap.regSaveArea + 8 * i)).drop (j + 1) := by
        have hlt : j < ((List.range 6).map fun i => loadPublicWord m (ap.regSaveArea + 8 * i)).length := by
          simp
          omega
        dsimp only [lanes]
        rw [hdiv, drop_next hlt, List.getElem_map, List.getElem_range, hj]
      rw [dif_pos h]
      dsimp only [Lanes.take]
      rw [hl]
      refine ⟨rfl, ?_⟩
      dsimp only [lanes]
      rw [hnext]
    · have hl : (ap.lanes m).words = [] := List.drop_of_length_le (by simp; omega)
      rw [dif_neg h]
      dsimp only [Lanes.take]
      rw [hl]
      exact hspill
  | double =>
    obtain ⟨hge, hle, j, hj⟩ := ap.fp_valid
    have hdiv : (ap.fpOffset - 48) / 16 = j - 3 := by omega
    dsimp only [vaArg]
    by_cases h : ap.fpOffset < 176
    · have hnext : (ap.fpOffset + 16 - 48) / 16 = j - 3 + 1 := by omega
      have haddr : 48 + 16 * (j - 3) = ap.fpOffset := by omega
      have hl : (ap.lanes m).doubles = loadPublicWord m (ap.regSaveArea + ap.fpOffset) ::
          ((List.range 8).map fun i => loadPublicWord m (ap.regSaveArea + (48 + 16 * i))).drop (j - 3 + 1) := by
        have hlt : j - 3 < ((List.range 8).map fun i => loadPublicWord m (ap.regSaveArea + (48 + 16 * i))).length := by
          simp
          omega
        dsimp only [lanes]
        rw [hdiv, drop_next hlt, List.getElem_map, List.getElem_range, haddr]
      rw [dif_pos h]
      dsimp only [Lanes.take]
      rw [hl]
      refine ⟨rfl, ?_⟩
      dsimp only [lanes]
      rw [hnext]
    · have hl : (ap.lanes m).doubles = [] := List.drop_of_length_le (by simp; omega)
      rw [dif_neg h]
      dsimp only [Lanes.take]
      rw [hl]
      exact hspill

/-- The normalised cursor has the lanes of the list, with at most five words in
registers. -/
theorem VaList.normalize_lanes (m : Mem) (ap : VaList) :
    (ap.normalizePublicVaList m).lanes m = (ap.lanes m).cap 5 := by
  obtain ⟨hgp, j, hj⟩ := ap.gp_valid
  obtain ⟨hge, hfp, k, hk⟩ := ap.fp_valid
  have hwords : (List.range ap.gpCount).map (fun i => loadPublicWord m (ap.regSaveArea + ap.gpOffset + i * 8)) =
      (((List.range 6).map fun i => loadPublicWord m (ap.regSaveArea + 8 * i)).drop (ap.gpOffset / 8)).take 5 := by
    have hcount : ap.gpCount = min 5 (6 - ap.gpOffset / 8) := by
      unfold gpCount
      split <;> omega
    refine List.ext_getElem (by simpa using hcount) fun i hi hi' => ?_
    rw [List.getElem_map, List.getElem_range, List.getElem_take, List.getElem_drop, List.getElem_map,
      List.getElem_range]
    congr 1
    omega
  have hdoubles : (List.range ap.fpCount).map (fun i => loadPublicWord m (ap.regSaveArea + ap.fpOffset + i * 16)) =
      ((List.range 8).map fun i => loadPublicWord m (ap.regSaveArea + (48 + 16 * i))).drop ((ap.fpOffset - 48) / 16) := by
    have hcount : ap.fpCount = 8 - (ap.fpOffset - 48) / 16 := by
      unfold fpCount
      split <;> omega
    refine List.ext_getElem (by simpa using hcount) fun i hi hi' => ?_
    rw [List.getElem_map, List.getElem_range, List.getElem_drop, List.getElem_map, List.getElem_range]
    congr 1
    omega
  exact congrArg₂ (fun words doubles => Lanes.mk words doubles _) hwords hdoubles

/-- What the cursor delivers, and what `va_arg` would. -/
theorem deliver_eq (m : Mem) (ap : VaList) (fs : List Fetch) :
    deliver (FormatArgs.next m) (ap.normalizePublicVaList m) fs = deliver Lanes.take ((ap.lanes m).cap 5) fs ∧
      deliver (VaList.vaArg m) ap fs = deliver Lanes.take (ap.lanes m) fs := by
  constructor
  · rw [deliver_view (FormatArgs.lanes m) (FormatArgs.next_lanes m), VaList.normalize_lanes]
  · exact deliver_view (VaList.lanes m) (VaList.vaArg_lanes m) ap fs

/-- Of six general registers five are left when one is used. -/
theorem VaList.lanes_cap (m : Mem) {ap : VaList} (h : 0 < ap.gpOffset) : (ap.lanes m).cap 5 = ap.lanes m := by
  have hlen : (ap.lanes m).words.length ≤ 5 := by
    obtain ⟨-, j, hj⟩ := ap.gp_valid
    dsimp only [VaList.lanes]
    simp
    omega
  exact congrArg (fun words => Lanes.mk words _ _) (List.take_of_length_le hlen)

/-- The normalised cursor delivers the arguments of the list when it has used a
general register, or not all six of them are needed. -/
theorem deliver_normalize (m : Mem) (ap : VaList) {fs : List Fetch} (h : 0 < ap.gpOffset ∨ fs.count .word ≤ 5) :
    deliver (FormatArgs.next m) (ap.normalizePublicVaList m) fs = deliver (VaList.vaArg m) ap fs := by
  obtain ⟨hcursor, hlist⟩ := deliver_eq m ap fs
  rw [hcursor, hlist]
  rcases h with h | h
  · rw [VaList.lanes_cap m h]
  · exact deliver_cap _ 5 fs h

/-- A list with the areas elsewhere. -/
def VaList.at (ap : VaList) (overflowArgArea regSaveArea : Nat) : VaList := { ap with overflowArgArea, regSaveArea }

/-- Where every byte is zero but the last general register of a save area. -/
def lastRegister : Mem := poke (fun _ => 0) 40 1

theorem lastRegister_eq {a : Nat} (h : a + 8 ≤ 40 ∨ 41 ≤ a) : loadPublicWord lastRegister a = 0 := by
  have hz : ∀ n a, load (fun _ => 0) a n = 0 := by
    intro n
    induction n with
    | zero => exact fun _ => rfl
    | succ n ih => exact fun a => by rw [load, ih]; rfl
  unfold loadPublicWord
  rw [← hz 8 a]
  exact load_congr fun x h1 h2 => poke_other _ (by omega)

/-- The normalised cursor delivers the arguments of the list, whatever they are
and wherever they are stored, exactly when the list has used a general register,
or not all six of them are needed. -/
theorem normalize_delivers_iff (ap : VaList) (fs : List Fetch) :
    (∀ m overflowArgArea regSaveArea,
      deliver (FormatArgs.next m) ((ap.at overflowArgArea regSaveArea).normalizePublicVaList m) fs =
        deliver (VaList.vaArg m) (ap.at overflowArgArea regSaveArea) fs) ↔
      0 < ap.gpOffset ∨ fs.count .word ≤ 5 := by
  constructor
  · intro h
    by_contra hn
    obtain ⟨hgp, hcount⟩ : ap.gpOffset = 0 ∧ 5 < fs.count .word := by
      constructor
      · exact Nat.eq_zero_of_not_pos fun hp => hn (.inl hp)
      · exact not_le.1 fun hle => hn (.inr hle)
    -- The sixth word is one, and everything else the cursor can deliver is zero.
    obtain ⟨hcursor, hlist⟩ := deliver_eq lastRegister (ap.at 1000 0) fs
    have heq := h lastRegister 1000 0
    rw [hcursor, hlist] at heq
    have hwords : ((ap.at 1000 0).lanes lastRegister).words = [0, 0, 0, 0, 0, 1] := by
      dsimp only [VaList.lanes, VaList.at]
      rw [hgp]
      decide
    have hone : 1 ∈ deliver Lanes.take (((ap.at 1000 0).lanes lastRegister).cap 5) fs := by
      rw [heq]
      have hlen : 5 < ((ap.at 1000 0).lanes lastRegister).words.length := by
        rw [hwords]
        decide
      have hmem := word_delivered hlen hcount
      have hget : ((ap.at 1000 0).lanes lastRegister).words[5] = 1 := by
        simp [hwords]
      rwa [hget] at hmem
    rcases mem_deliver hone with hx | hx | ⟨n, hx⟩
    · have hx : 1 ∈ (((ap.at 1000 0).lanes lastRegister).words.take 5) := hx
      rw [hwords] at hx
      exact absurd hx (by decide)
    · obtain ⟨i, -, hi⟩ := List.mem_map.1 (List.mem_of_mem_drop hx)
      have hzero := @lastRegister_eq ((ap.at 1000 0).regSaveArea + (48 + 16 * i)) (by omega)
      rw [hzero] at hi
      cases hi
    · have hzero := @lastRegister_eq (1000 + 8 * n) (by omega)
      exact absurd (hx.trans hzero) (by decide)
  · exact fun h m overflowArgArea regSaveArea => deliver_normalize m (ap.at overflowArgArea regSaveArea) h

/-- Six integers and a `double` of a caller that has named one general argument. -/
theorem normalize_delivers_six :
    deliver (FormatArgs.next lastRegister)
        (VaList.normalizePublicVaList lastRegister ⟨8, 48, 1000, 0, by decide, by decide⟩)
        (.double :: List.replicate 6 .word) = [0, 0, 0, 0, 0, 1, 0] := by
  have heq := (normalize_delivers_iff ⟨8, 48, 1000, 0, by decide, by decide⟩ (.double :: List.replicate 6 .word)).2
    (.inl (by decide)) lastRegister 1000 0
  apply heq.trans
  decide

/-- Six integers from a list whose caller had no general argument before them. -/
theorem normalize_misses_sixth :
    deliver (FormatArgs.next lastRegister)
        (VaList.normalizePublicVaList lastRegister ⟨0, 48, 1000, 0, by decide, by decide⟩) (List.replicate 6 .word) =
      [0, 0, 0, 0, 0, 0] ∧
    deliver (VaList.vaArg lastRegister) ⟨0, 48, 1000, 0, by decide, by decide⟩ (List.replicate 6 .word) =
      [0, 0, 0, 0, 0, 1] := by
  decide

end MiniLibc.Stdio
