import Omoikane.Base.Text

/-!
# Sanitizer configurations

The lists of a sanitizer: which elements and attributes are allowed, removed or
replaced by their children, with local attribute lists of single elements.  A
configuration is canonicalized once and then validated, since the lists depend on
each other.  `Config.Valid` says in parts what `Config.validate` accepts.
-/

namespace Omoikane.Js.Sanitizer

open Base

def html : Text := "http://www.w3.org/1999/xhtml".toList

def svg : Text := "http://www.w3.org/2000/svg".toList

def mathml : Text := "http://www.w3.org/1998/Math/MathML".toList

def xlink : Text := "http://www.w3.org/1999/xlink".toList

structure Name where
  name : Text
  namespaceUri : Option Text
deriving DecidableEq, Repr

namespace Name

def isData (name : Name) : Bool :=
  name.namespaceUri.isNone && name.name.startsWith ['d', 'a', 't', 'a', '-']

def nonReplaceable (name : Name) : Bool :=
  (name.namespaceUri == some html && name.name == ['h', 't', 'm', 'l']) ||
    (name.namespaceUri == some svg && name.name == ['s', 'v', 'g']) ||
      (name.namespaceUri == some mathml && name.name == ['m', 'a', 't', 'h'])

end Name

structure Element where
  key : Name
  attributes : Option (List Name)
  removeAttributes : Option (List Name)
deriving DecidableEq, Repr

structure Pi where
  target : Text
deriving DecidableEq, Repr

structure Config where
  elements : Option (List Element)
  removeElements : Option (List Name)
  replaceWithChildrenElements : Option (List Name)
  attributes : Option (List Name)
  removeAttributes : Option (List Name)
  processingInstructions : Option (List Pi)
  removeProcessingInstructions : Option (List Pi)
  comments : Option Bool
  dataAttributes : Option Bool
  javascriptUrls : Option Bool
deriving DecidableEq, Repr

/-- The constants that are checked in beside the code, less the default configuration. -/
structure Constants where
  unsafeElements : List Name
  navigatingAttributes : List (Name × Name)
  eventAttributes : List Text

/-! ## Lists -/

/-- The items of a list that may be missing. -/
def items {α : Type} (list : Option (List α)) : List α := list.getD []

def contains (list : Option (List Name)) (name : Name) : Bool := list.any (·.contains name)

def duplicates {α : Type} [DecidableEq α] (items : List α) : Bool :=
  items.zipIdx.any fun entry => (items.take entry.2).contains entry.1

def intersection (a b : List Name) : Bool := a.any fun item => b.contains item

@[simp] theorem items_some {α : Type} (list : List α) : items (some list) = list := rfl

theorem contains_eq_true_iff {list : Option (List Name)} {name : Name} :
    contains list name = true ↔ name ∈ items list := by
  cases list with
  | none => exact ⟨nofun, nofun⟩
  | some list => exact List.contains_iff_mem

theorem intersection_eq_false_iff {a b : List Name} :
    intersection a b = false ↔ ∀ item ∈ a, item ∉ b := by
  unfold intersection
  rw [List.any_eq_false]
  simp only [List.contains_iff_mem]

theorem duplicates_concat {α : Type} [DecidableEq α] (items : List α) (item : α) :
    duplicates (items ++ [item]) = (duplicates items || items.contains item) := by
  unfold duplicates
  rw [List.zipIdx_append, List.any_append]
  congr 1
  · rw [Bool.eq_iff_iff, List.any_eq_true, List.any_eq_true]
    refine exists_congr fun entry => and_congr_right fun hentry => ?_
    rw [List.take_append_of_le_length (Nat.le_of_lt (List.snd_lt_of_mem_zipIdx hentry))]
  · rw [List.zipIdx_singleton, List.any_cons, List.any_nil, Bool.or_false, Nat.zero_add,
      List.take_left]

theorem duplicates_eq_false_iff {α : Type} [DecidableEq α] {items : List α} :
    duplicates items = false ↔ items.Nodup := by
  induction items using List.reverseRecOn with
  | nil => exact ⟨fun _ => List.nodup_nil, fun _ => rfl⟩
  | append_singleton items item ih =>
    rw [duplicates_concat, Bool.or_eq_false_iff, ih, List.nodup_append]
    constructor
    · rintro ⟨hitems, hitem⟩
      refine ⟨hitems, List.pairwise_singleton _ _, fun other hother new hnew => ?_⟩
      rw [List.mem_singleton] at hnew
      subst hnew
      rintro rfl
      rw [List.contains_eq_mem] at hitem
      exact of_decide_eq_false hitem hother
    · rintro ⟨hitems, _, hnew⟩
      refine ⟨hitems, ?_⟩
      rw [List.contains_eq_mem]
      exact decide_eq_false fun hitem => hnew item hitem item (List.mem_singleton.mpr rfl) rfl

/-- An element has a local list. -/
def withLocalList (element : Element) : Element :=
  if element.attributes.isNone && element.removeAttributes.isNone then
    { element with removeAttributes := some [] }
  else element

namespace Config

def canonicalize (config : Config) (permissive : Bool) : Config :=
  let config :=
    if config.elements.isNone && config.removeElements.isNone then
      { config with removeElements := some [] }
    else config
  let config :=
    if config.attributes.isNone && config.removeAttributes.isNone then
      { config with removeAttributes := some [] }
    else config
  let config :=
    if config.processingInstructions.isNone && config.removeProcessingInstructions.isNone then
      if permissive then { config with removeProcessingInstructions := some [] }
      else { config with processingInstructions := some [] }
    else config
  let config := { config with
    comments := some (config.comments.getD permissive)
    javascriptUrls := some (config.javascriptUrls.getD permissive) }
  let config :=
    if config.attributes.isSome then
      { config with dataAttributes := some (config.dataAttributes.getD permissive) }
    else config
  { config with
    elements := config.elements.map (·.map withLocalList) }

def validateElement (config : Config) (element : Element) : Except String Unit :=
  let allowed := element.attributes.getD []
  let removed := element.removeAttributes.getD []
  if duplicates allowed || duplicates removed then .error "Duplicate local attribute"
  else
    match config.attributes with
    | some all =>
      if intersection all allowed || removed.any (fun item => !all.contains item) ||
          (config.dataAttributes == some true && allowed.any Name.isData) then
        .error "Redundant local attribute configuration"
      else .ok ()
    | none =>
      match config.removeAttributes with
      | some all =>
        if (element.attributes.isSome && element.removeAttributes.isSome) ||
            intersection all allowed || intersection all removed then
          .error "Redundant local attribute configuration"
        else .ok ()
      | none => .ok ()

def validate (config : Config) : Except String Unit :=
  if config.elements.isSome == config.removeElements.isSome ||
      config.attributes.isSome == config.removeAttributes.isSome ||
      config.processingInstructions.isSome == config.removeProcessingInstructions.isSome then
    .error "Sanitizer allow and remove lists are exclusive"
  else if [config.removeElements, config.replaceWithChildrenElements, config.attributes,
      config.removeAttributes].any fun list => list.any duplicates then
    .error "Duplicate sanitizer name"
  else if [config.processingInstructions, config.removeProcessingInstructions].any
      fun list => list.any duplicates then
    .error "Duplicate processing instruction"
  else
    let elements := config.elements.getD []
    if duplicates (elements.map Element.key) then .error "Duplicate sanitizer element"
    else if (config.replaceWithChildrenElements.getD []).any fun key =>
        key.nonReplaceable || contains config.removeElements key ||
          elements.any fun element => element.key == key then
      .error "Invalid replacement element"
    else if config.attributes.isNone && config.dataAttributes.isSome then
      .error "dataAttributes requires an attribute allow list"
    else if config.dataAttributes == some true && (config.attributes.getD []).any Name.isData then
      .error "Redundant custom data attribute"
    else elements.forM config.validateElement

end Config

/-! ## Decisions -/

/-- What the sanitizer does with an element. -/
inductive Decision where
  | keep
  | remove
  | unwrap
deriving DecidableEq, Repr

def Config.decision (config : Config) (key : Name) : Decision :=
  if contains config.replaceWithChildrenElements key then .unwrap
  else
    let allowed :=
      match config.elements with
      | none => !contains config.removeElements key
      | some list => list.any fun entry => entry.key == key
    if allowed then .keep else .remove

/-! ## What is valid -/

def keysOf (elements : Option (List Element)) : Option (List Name) :=
  elements.map (·.map Element.key)

/-- The lists of elements fit together; of the allowed ones only the keys matter. -/
structure ValidElements (keys removeElements replaceWithChildrenElements : Option (List Name)) :
    Prop where
  exclusive : keys.isSome ≠ removeElements.isSome
  allowed : (items keys).Nodup
  removed : (items removeElements).Nodup
  replaced : (items replaceWithChildrenElements).Nodup
  replaceable : ∀ key ∈ items replaceWithChildrenElements,
    key.nonReplaceable = false ∧ key ∉ items removeElements ∧ key ∉ items keys

structure ValidAttributes (attributes removeAttributes : Option (List Name))
    (dataAttributes : Option Bool) : Prop where
  exclusive : attributes.isSome ≠ removeAttributes.isSome
  allowed : (items attributes).Nodup
  removed : (items removeAttributes).Nodup
  noData : attributes = none → dataAttributes = none
  data : dataAttributes = some true → ∀ name ∈ items attributes, name.isData = false

structure ValidInstructions (allowed removed : Option (List Pi)) : Prop where
  exclusive : allowed.isSome ≠ removed.isSome
  allowed : (items allowed).Nodup
  removed : (items removed).Nodup

/-- The local lists of an element fit the global ones. -/
structure Element.Valid (attributes removeAttributes : Option (List Name))
    (dataAttributes : Option Bool) (element : Element) : Prop where
  allowed : (items element.attributes).Nodup
  removed : (items element.removeAttributes).Nodup
  fits : match attributes with
    | some all =>
      (∀ name ∈ all, name ∉ items element.attributes) ∧
        (∀ name ∈ items element.removeAttributes, name ∈ all) ∧
          (dataAttributes = some true → ∀ name ∈ items element.attributes, name.isData = false)
    | none =>
      (element.attributes = none ∨ element.removeAttributes = none) ∧
        (∀ name ∈ items removeAttributes, name ∉ items element.attributes) ∧
          ∀ name ∈ items removeAttributes, name ∉ items element.removeAttributes

namespace Config

/-- The keys of the allowed elements. -/
def keys (config : Config) : Option (List Name) := keysOf config.elements

structure Valid (config : Config) : Prop where
  elements : ValidElements config.keys config.removeElements config.replaceWithChildrenElements
  attributes : ValidAttributes config.attributes config.removeAttributes config.dataAttributes
  instructions :
    ValidInstructions config.processingInstructions config.removeProcessingInstructions
  locals : ∀ element ∈ items config.elements,
    element.Valid config.attributes config.removeAttributes config.dataAttributes

variable {config : Config} {element : Element}

theorem any_duplicates_eq_false_iff {α : Type} [DecidableEq α] {list : Option (List α)} :
    list.any duplicates = false ↔ (items list).Nodup := by
  cases list with
  | none => exact ⟨fun _ => List.nodup_nil, fun _ => rfl⟩
  | some list => exact duplicates_eq_false_iff

theorem items_keys (config : Config) : items config.keys = (items config.elements).map Element.key := by
  unfold keys keysOf
  cases config.elements <;> rfl

theorem redundant_data_eq_false_iff {dataAttributes : Option Bool} {list : List Name} :
    (dataAttributes == some true && list.any Name.isData) = false ↔
      (dataAttributes = some true → ∀ name ∈ list, name.isData = false) := by
  rw [Bool.and_eq_false_imp, beq_iff_eq, List.any_eq_false]
  simp only [Bool.not_eq_true]

theorem subset_eq_false_iff {list all : List Name} :
    (list.any fun item => !all.contains item) = false ↔ ∀ item ∈ list, item ∈ all := by
  rw [List.any_eq_false]
  simp only [Bool.not_eq_true, Bool.not_eq_false', List.contains_iff_mem]

theorem both_eq_false_iff {a b : Option (List Name)} :
    (a.isSome && b.isSome) = false ↔ a = none ∨ b = none := by
  rw [Bool.and_eq_false_iff, Option.isSome_eq_false_iff, Option.isSome_eq_false_iff,
    Option.isNone_iff_eq_none, Option.isNone_iff_eq_none]

theorem if_error_eq_ok_iff {wrong : Bool} {message : String} {rest : Except String Unit} :
    (if wrong then .error message else rest) = .ok () ↔ wrong = false ∧ rest = .ok () := by
  cases wrong with
  | true => exact ⟨nofun, nofun⟩
  | false => exact (and_iff_right rfl).symm

theorem forM_eq_ok_iff {α : Type} {check : α → Except String Unit} {list : List α} :
    list.forM check = .ok () ↔ ∀ item ∈ list, check item = .ok () := by
  induction list with
  | nil => exact ⟨fun _ => nofun, fun _ => rfl⟩
  | cons item list ih =>
    have hcons : (item :: list).forM check = (check item >>= fun _ => list.forM check) := rfl
    rw [hcons, List.forall_mem_cons, ← ih]
    cases check item with
    | error message => exact ⟨nofun, nofun⟩
    | ok => exact (and_iff_right rfl).symm

theorem validateElement_eq_ok_iff
    (h : config.attributes.isSome ≠ config.removeAttributes.isSome) :
    config.validateElement element = .ok () ↔
      element.Valid config.attributes config.removeAttributes config.dataAttributes := by
  unfold validateElement
  dsimp only
  rw [if_error_eq_ok_iff, Bool.or_eq_false_iff, duplicates_eq_false_iff, duplicates_eq_false_iff]
  cases hattributes : config.attributes with
  | some all =>
    dsimp only
    rw [if_error_eq_ok_iff, Bool.or_eq_false_iff, Bool.or_eq_false_iff, intersection_eq_false_iff,
      subset_eq_false_iff, redundant_data_eq_false_iff]
    constructor
    · rintro ⟨⟨hallowed, hremoved⟩, ⟨⟨hnew, hold⟩, hdata⟩, _⟩
      exact ⟨hallowed, hremoved, hnew, hold, hdata⟩
    · rintro ⟨hallowed, hremoved, hnew, hold, hdata⟩
      exact ⟨⟨hallowed, hremoved⟩, ⟨⟨hnew, hold⟩, hdata⟩, rfl⟩
  | none =>
    cases hremove : config.removeAttributes with
    | none =>
      rw [hattributes, hremove] at h
      exact absurd rfl h
    | some all =>
      dsimp only
      rw [if_error_eq_ok_iff, Bool.or_eq_false_iff, Bool.or_eq_false_iff,
        intersection_eq_false_iff, intersection_eq_false_iff, both_eq_false_iff]
      constructor
      · rintro ⟨⟨hallowed, hremoved⟩, ⟨⟨hone, hnew⟩, hold⟩, _⟩
        exact ⟨hallowed, hremoved, hone, hnew, hold⟩
      · rintro ⟨hallowed, hremoved, hone, hnew, hold⟩
        exact ⟨⟨hallowed, hremoved⟩, ⟨⟨hone, hnew⟩, hold⟩, rfl⟩

theorem any_replacement_eq_false_iff :
    ((config.replaceWithChildrenElements.getD []).any fun key =>
        key.nonReplaceable || contains config.removeElements key ||
          (config.elements.getD []).any fun element => element.key == key) = false ↔
      ∀ key ∈ items config.replaceWithChildrenElements,
        key.nonReplaceable = false ∧ key ∉ items config.removeElements ∧ key ∉ items config.keys := by
  rw [List.any_eq_false]
  refine forall₂_congr fun key _ => ?_
  rw [Bool.not_eq_true, Bool.or_eq_false_iff, Bool.or_eq_false_iff, and_assoc]
  refine and_congr_right fun _ => and_congr ?_ ?_
  · rw [← Bool.not_eq_true, contains_eq_true_iff]
  · rw [← Bool.not_eq_true, List.any_eq_true, items_keys, List.mem_map]
    simp only [beq_iff_eq]
    exact Iff.rfl

theorem validate_eq_ok_iff : config.validate = .ok () ↔ config.Valid := by
  unfold validate
  dsimp only
  rw [if_error_eq_ok_iff, if_error_eq_ok_iff, if_error_eq_ok_iff, if_error_eq_ok_iff,
    if_error_eq_ok_iff, if_error_eq_ok_iff, if_error_eq_ok_iff, forM_eq_ok_iff,
    any_replacement_eq_false_iff, redundant_data_eq_false_iff]
  simp only [List.any_cons, List.any_nil, Bool.or_false, Bool.or_eq_false_iff,
    any_duplicates_eq_false_iff, beq_eq_false_iff_ne, duplicates_eq_false_iff]
  have hkeys : items config.keys = (config.elements.getD []).map Element.key := items_keys config
  have hsome : config.keys.isSome = config.elements.isSome := Option.isSome_map
  have hdata : (config.attributes.isNone && config.dataAttributes.isSome) = false ↔
      (config.attributes = none → config.dataAttributes = none) := by
    rw [Bool.and_eq_false_imp, Option.isNone_iff_eq_none, Option.isSome_eq_false_iff,
      Option.isNone_iff_eq_none]
  rw [hdata, ← hkeys]
  constructor
  · rintro ⟨⟨⟨helements, hattributes⟩, hinstructions⟩,
      ⟨hremoved, hreplaced, hallowedAttributes, hremovedAttributes⟩, ⟨hallowedPis, hremovedPis⟩,
      hallowed, hreplaceable, hnoData, hdata, hlocals⟩
    exact {
      elements := ⟨by rwa [hsome], hallowed, hremoved, hreplaced, hreplaceable⟩
      attributes := ⟨hattributes, hallowedAttributes, hremovedAttributes, hnoData, hdata⟩
      instructions := ⟨hinstructions, hallowedPis, hremovedPis⟩
      locals := fun element helement =>
        (validateElement_eq_ok_iff hattributes).mp (hlocals element helement) }
  · intro h
    refine ⟨⟨⟨hsome ▸ h.elements.exclusive, h.attributes.exclusive⟩, h.instructions.exclusive⟩,
      ⟨h.elements.removed, h.elements.replaced, h.attributes.allowed, h.attributes.removed⟩,
      ⟨h.instructions.allowed, h.instructions.removed⟩, h.elements.allowed,
      h.elements.replaceable, h.attributes.noData, h.attributes.data, fun element helement => ?_⟩
    exact (validateElement_eq_ok_iff h.attributes.exclusive).mpr (h.locals element helement)

end Config

end Omoikane.Js.Sanitizer
