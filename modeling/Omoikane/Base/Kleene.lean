import Omoikane.Base.Text

/-!
# Three-valued logic

Kleene's strong connectives on truth values that may be unknown, which are `none`.  A conjunction is
false as soon as a member is, and unknown only if no member decides it.
-/

namespace Base.Kleene

/-- A truth value, or none where it is unknown. -/
abbrev Truth := Option Bool

def not (value : Truth) : Truth := value.map (!·)

def and : Truth → Truth → Truth
  | some false, _ => some false
  | _, some false => some false
  | some true, some true => some true
  | _, _ => none

def or : Truth → Truth → Truth
  | some true, _ => some true
  | _, some true => some true
  | some false, some false => some false
  | _, _ => none

/-- The conjunction of a list. -/
def all (values : List Truth) : Truth := values.foldr and (some true)

/-- The disjunction of a list. -/
def any (values : List Truth) : Truth := values.foldr or (some false)

variable {value : Truth} {values : List Truth}

@[simp] theorem and_true : and value (some true) = value := by
  rcases value with _ | _ | _ <;> rfl

@[simp] theorem true_and : and (some true) value = value := by
  rcases value with _ | _ | _ <;> rfl

@[simp] theorem false_or : or (some false) value = value := by
  rcases value with _ | _ | _ <;> rfl

@[simp] theorem or_false : or value (some false) = value := by
  rcases value with _ | _ | _ <;> rfl

@[simp] theorem all_cons : all (value :: values) = and value (all values) := rfl

@[simp] theorem any_cons : any (value :: values) = or value (any values) := rfl

theorem all_singleton : all [value] = value := and_true

theorem any_singleton : any [value] = value := or_false

end Base.Kleene
