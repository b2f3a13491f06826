import Mathlib
/-!
# Locale states

`src/locale/locale.c`: a state is the mode of each of the five categories. A C
string is the list of its characters, and the environment what `getenv` finds. The
null checks of the internal functions are left out where every caller passes a
state and a name.
-/

namespace MiniLibc.Locale

abbrev Text := List Char

/-- `MINI_LOCALE_MODE_C` and `MINI_LOCALE_MODE_C_UTF8`. -/
inductive Mode where
  | c
  | utf8
deriving DecidableEq, Repr

/-- `struct mini_locale_state`. -/
abbrev State := Vector Mode 5

def lcCtype : Int := 0
def lcNumeric : Int := 1
def lcTime : Int := 2
def lcCollate : Int := 3
def lcMonetary : Int := 4
def lcAll : Int := 6

def localeC : Text := "C".toList
def localeUtf8 : Text := "C.UTF-8".toList
def localeMixed : Text := "LC_CTYPE=C.UTF-8;LC_NUMERIC=C;LC_TIME=C;LC_COLLATE=C;LC_MONETARY=C".toList

def validCategory (category : Int) : Bool :=
  category = lcCtype ∨ category = lcNumeric ∨ category = lcTime ∨ category = lcCollate ∨ category = lcMonetary ∨
    category = lcAll

def stateCategory (category : Int) : Bool := lcCtype ≤ category ∧ category ≤ lcMonetary

def cName (locale : Text) : Bool := locale = "C".toList ∨ locale = "POSIX".toList

def utf8Name (locale : Text) : Bool := locale = "C.UTF-8".toList ∨ locale = "C.utf8".toList

/-! ## The environment -/

def categoryEnvironmentName (category : Int) : Option Text :=
  if category = lcCtype then some "LC_CTYPE".toList
  else if category = lcNumeric then some "LC_NUMERIC".toList
  else if category = lcTime then some "LC_TIME".toList
  else if category = lcCollate then some "LC_COLLATE".toList
  else if category = lcMonetary then some "LC_MONETARY".toList
  else none

abbrev Environment := Text → Option Text

def nonemptyEnvironment (env : Environment) (name : Text) : Option Text :=
  (env name).bind fun value => if value = [] then none else some value

def environmentLocale (env : Environment) (category : Int) : Text :=
  ((nonemptyEnvironment env "LC_ALL".toList).or
    (((categoryEnvironmentName category).bind (nonemptyEnvironment env)).or
      (nonemptyEnvironment env "LANG".toList))).getD localeC

/-! ## States -/

def stateInit : State := Vector.replicate 5 .c

/-- `state->category[category] = mode`. -/
def setMode (state : State) (category : Int) (mode : Mode) : State := state.setIfInBounds category.toNat mode

def currentLcAll (state : State) : Option Text :=
  if state = stateInit then some localeC
  else if state = #v[.utf8, .c, .c, .c, .c] then some localeMixed
  else none

/-- `__mini_locale_state_query`. -/
def stateQuery (state : State) (category : Int) : Option Text :=
  if !validCategory category then none
  else if category = lcAll then currentLcAll state
  else if state[category.toNat]? = some .utf8 then some localeUtf8
  else some localeC

/-- The state it leaves, and whether it applied the name. -/
def applyCategoryUnchecked (state : State) (category : Int) (locale : Text) : State × Bool :=
  if !stateCategory category then (state, false)
  else if cName locale then (setMode state category .c, true)
  else if category = lcCtype ∧ utf8Name locale then (setMode state category .utf8, true)
  else (state, false)

def applyLcAllUnchecked (state : State) (locale : Text) : State × Bool :=
  if cName locale then (stateInit, true)
  else if utf8Name locale ∨ locale = localeMixed then (setMode stateInit lcCtype .utf8, true)
  else (state, false)

/-- `__mini_locale_state_apply`: a candidate takes the name, and replaces the state
only if it did. -/
def stateApply (state : State) (category : Int) (locale : Text) : State × Bool :=
  if !validCategory category then (state, false)
  else
    let candidate := state
    let (candidate, applied) :=
      if category = lcAll then applyLcAllUnchecked candidate locale
      else applyCategoryUnchecked candidate category locale
    if !applied then (state, false) else (candidate, true)

/-- `__mini_locale_state_apply_name`: the empty name asks the environment. -/
def stateApplyName (env : Environment) (state : State) (category : Int) (locale : Text) : State × Bool :=
  if !validCategory category then (state, false)
  else
    let selected := if locale = [] then environmentLocale env category else locale
    stateApply state category selected

/-! ## What an application leaves -/

theorem stateApply_failed {state : State} {category : Int} {locale : Text}
    (h : (stateApply state category locale).2 = false) : (stateApply state category locale).1 = state := by
  unfold stateApply at h ⊢
  split
  · rfl
  · rename_i hv
    rw [if_neg hv] at h
    obtain ⟨p, hp⟩ : ∃ p, (if category = lcAll then applyLcAllUnchecked state locale
      else applyCategoryUnchecked state category locale) = p := ⟨_, rfl⟩
    simp only [hp] at h ⊢
    split
    · rfl
    · rename_i ha
      rw [if_neg ha] at h
      cases h

theorem stateApplyName_failed {env : Environment} {state : State} {category : Int} {locale : Text}
    (h : (stateApplyName env state category locale).2 = false) :
    (stateApplyName env state category locale).1 = state := by
  unfold stateApplyName at h ⊢
  split
  · rfl
  · rename_i hv
    rw [if_neg hv] at h
    exact stateApply_failed h

/-- The state for all categories is one of the two that have a name. -/
theorem currentLcAll_applied {state : State} {locale : Text} (h : (applyLcAllUnchecked state locale).2 = true) :
    currentLcAll (applyLcAllUnchecked state locale).1 ≠ none := by
  unfold applyLcAllUnchecked at h ⊢
  split
  · exact by decide
  · rename_i hc
    rw [if_neg hc] at h
    split
    · exact by decide
    · rename_i hu
      rw [if_neg hu] at h
      cases h

/-- Every category of a state has a name. -/
theorem stateQuery_category {category : Int} (hv : validCategory category = true) (h : category ≠ lcAll)
    (state : State) : stateQuery state category ≠ none := by
  unfold stateQuery
  rw [if_neg (by simp [hv]), if_neg h]
  split
  · exact Option.some_ne_none _
  · exact Option.some_ne_none _

/-- What was applied can be queried. -/
theorem stateQuery_applied {env : Environment} {state : State} {category : Int} {locale : Text}
    (h : (stateApplyName env state category locale).2 = true) :
    stateQuery (stateApplyName env state category locale).1 category ≠ none := by
  by_cases hv : validCategory category = true
  · by_cases hall : category = lcAll
    · subst hall
      unfold stateApplyName stateApply at h ⊢
      simp only [hv, Bool.not_true, Bool.false_eq_true, if_false, if_true] at h ⊢
      generalize (if locale = [] then environmentLocale env lcAll else locale) = selected at h ⊢
      by_cases ha : (applyLcAllUnchecked state selected).2 = true
      · simp only [ha, Bool.not_true, Bool.false_eq_true, if_false]
        exact currentLcAll_applied ha
      · simp [ha] at h
    · exact stateQuery_category hv hall _
  · simp [stateApplyName, hv] at h

end MiniLibc.Locale
