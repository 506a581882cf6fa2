import Omoikane.Base.Words
import Omoikane.Css.Matcher

/-!
# Attribute selectors

`AttributeOperator.Holds` says what an operator means for the value of an attribute and the text it is
compared with, which keeps the case of both.  The matcher finds the same except for the empty text
(`attributeSelector_holds_iff`): every value has it as a prefix, a suffix and an infix, but no
operator is to match for that reason; and `|=` never matches it.
-/

namespace Omoikane.Css

open Base (Text)

/-- What an operator means for a value and the text after the operator. -/
def AttributeOperator.Holds : AttributeOperator → (actual expected : Text) → Prop
  | .equals, actual, expected => actual = expected
  | .includes, actual, expected => Text.IsWord expected actual
  | .dashMatch, actual, expected => actual = expected ∨ expected ++ ['-'] <+: actual
  | .startsWith, actual, expected => expected ≠ [] ∧ expected <+: actual
  | .endsWith, actual, expected => expected ≠ [] ∧ expected <:+ actual
  | .contains, actual, expected => expected ≠ [] ∧ expected <:+: actual

/-- The operator is not misled by an empty text. -/
def AttributeOperator.Regular : AttributeOperator → (actual expected : Text) → Prop
  | .equals, _, _ | .includes, _, _ => True
  | .startsWith, _, expected | .endsWith, _, expected | .contains, _, expected => expected ≠ []
  | .dashMatch, actual, expected => expected = [] → actual ≠ [] ∧ actual.head? ≠ some '-'

variable {ι : Type} {tree : Tree ι} {node : ι} {name actual expected : Text}
  {operator : AttributeOperator}

/-- What the matcher finds for a value. -/
theorem matchesAttributeSelector_iff (hactual : tree.withAttribute node name = some actual) :
    matchesAttributeSelector tree node name (some operator) (some expected) = true ↔
      match operator with
      | .equals => actual = expected
      | .includes => Text.IsWord expected actual
      | .startsWith => expected <+: actual
      | .endsWith => expected <:+ actual
      | .contains => expected <:+: actual
      | .dashMatch => expected ≠ [] ∧ (actual = expected ∨ expected ++ ['-'] <+: actual) := by
  rw [matchesAttributeSelector, hactual]
  cases operator with
  | equals => simp
  | includes => simp [Text.mem_splitAsciiWhitespace]
  | startsWith => exact Text.startsWith_iff
  | endsWith => exact Text.endsWith_iff
  | contains => exact Text.isSome_splitOnceText
  | dashMatch => simp [Text.startsWith_iff]

/-- What an empty text does to an operator that every value has it in. -/
theorem misled_iff {occurs : Prop} (hempty : expected = [] → occurs) :
    (occurs ↔ expected ≠ [] ∧ occurs) ↔ expected ≠ [] := by
  constructor
  · intro h hnil
    exact (h.mp (hempty hnil)).1 hnil
  · exact fun hne => ⟨fun h => ⟨hne, h⟩, And.right⟩

/-- An attribute selector matches a value as its operator means, unless an empty text misleads it. -/
theorem attributeSelector_holds_iff (hactual : tree.withAttribute node name = some actual) :
    (matchesAttributeSelector tree node name (some operator) (some expected) = true ↔
      operator.Holds actual expected) ↔ operator.Regular actual expected := by
  rw [matchesAttributeSelector_iff hactual]
  cases operator with
  | equals | includes => exact iff_true_intro Iff.rfl
  | startsWith => exact misled_iff fun hnil => hnil ▸ List.nil_prefix
  | endsWith => exact misled_iff fun hnil => hnil ▸ List.nil_suffix
  | contains => exact misled_iff fun hnil => hnil ▸ List.nil_infix
  | dashMatch =>
    rw [AttributeOperator.Holds, AttributeOperator.Regular]
    by_cases hempty : expected = []
    · subst hempty
      cases actual with
      | nil => simp
      | cons c actual => simp [List.cons_prefix_cons, eq_comm]
    · simp [hempty]

/-! ## A title -/

/-- A tree of one element. -/
def loneElement (element : Element) : Tree Unit where
  data _ := .element element
  parentNode _ := none
  childNodes _ := []
  depth _ := 0
  height := 1
  mem_childNodes := by simp
  nodup_childNodes := by simp
  depth_parent := by simp
  depth_lt := by simp

/-- `<a title="home">` -/
def titledLink : Element where
  tagName := "a".toList
  localName := "a".toList
  namespaceUri := some "http://www.w3.org/1999/xhtml".toList
  html := true
  attributeRecords := [⟨"title".toList, none, "title".toList, "home".toList⟩]
  customStates := []
  customElementDefined := none
  userActionState _ := false
  mediaSelectorState _ := false
  popoverOpen := false
  modalDialog := false
  fullscreen := false
  pickerOpen := false
  checked := false
  autofilled := false
  userValidity := false
  cssValidity := none
  formAssociatedCustom := false

/-- `[title^="ho"]` matches the link, as it is to. -/
theorem attributeSelector_holds_titledLink :
    matchesAttributeSelector (loneElement titledLink) () "title".toList (some .startsWith)
        (some "ho".toList) = true ↔
      AttributeOperator.startsWith.Holds "home".toList "ho".toList :=
  (attributeSelector_holds_iff rfl).mpr (show "ho".toList ≠ [] by decide)

/-- `[title^=""]` matches it too. -/
theorem attributeSelector_empty :
    ¬ (matchesAttributeSelector (loneElement titledLink) () "title".toList (some .startsWith)
        (some []) = true ↔ AttributeOperator.startsWith.Holds "home".toList []) := by
  intro h
  exact (h.mp (by decide)).1 rfl

end Omoikane.Css
