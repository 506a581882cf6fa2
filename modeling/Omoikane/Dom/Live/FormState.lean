import Omoikane.Base.Run
import Omoikane.Base.Table
import Omoikane.Dom.Live.Attributes

/-!
# Attributes and form state

The records of an element have a projection, a map from qualified names to values, and the attributes
`checked` and `selected` in no namespace set the checkedness of a control and the selectedness of an
option until these are dirty.  `InStep` says that all of this agrees with the records.

A record of a flag is counted: there is at most one (`Straight`), and what a call does to the count is
said once for writing (`countP_writeRecord`) and once for removing (`countP_eraseP`).  The calls keep
checkedness in step.  They follow the qualified name of `selected` where an attribute in a namespace may
have it, and one remover does not follow it at all; `Regular` leaves these calls out (`run_inStep`).
-/

namespace Omoikane.Dom.Live

open Base

/-! ## Elements -/

/-- An element with the projection of its attributes and its checkedness. -/
structure FormElement where
  element : Element
  attributes : Table Text Text
  checked : Bool
  dirtyCheckedness : Bool

/-- `rebuild_attribute_projection`. -/
def attributeProjection (records : List AttributeRecord) : Table Text Text :=
  records.foldl (fun attributes record =>
    if (attributes.get record.qualifiedName).isSome then attributes
    else attributes.insert record.qualifiedName record.value) []

/-- `is_html_input`. -/
def Element.isHtmlInput (element : Element) : Bool :=
  element.localNameOrTag == "input".toList &&
    (element.namespaceUri == some "http://www.w3.org/1999/xhtml".toList ||
      (element.namespaceUri.isNone && element.html))

/-- The test of an attribute in no namespace. -/
def isFlag (flag : Text) : AttributeRecord → Bool := (·.isNamed none flag)

namespace FormElement

/-- An element without attributes. -/
def new (tagName : Text) (namespaceUri : Option Text) (localName : Text) (html : Bool) :
    FormElement where
  element :=
    { tagName
      namespaceUri
      localName
      html
      attributeRecords := []
      selected := false
      dirtySelectedness := false
      templateContent := none
      shadowRoot := none }
  attributes := []
  checked := false
  dirtyCheckedness := false

variable (form : FormElement)

/-- `is_checkable_input`. -/
def isCheckableInput : Bool :=
  form.element.isHtmlInput &&
    (form.element.attributeRecords.find? (isFlag "type".toList)).any fun record =>
      Text.eqIgnoreAsciiCase record.value "checkbox".toList ||
        Text.eqIgnoreAsciiCase record.value "radio".toList

/-- `checked`. -/
def isChecked : Bool := form.isCheckableInput && form.checked

/-- `selected`. -/
def isSelected : Bool := form.element.tagName == "option".toList && form.element.selected

/-- What each mutator of attributes does to checkedness. -/
def checkedAfter (call : AttributeCall) : Bool :=
  let records := form.element.attributeRecords
  match call with
  | .setAttributeInternal name _ =>
    let name := form.element.foldName name
    let addsChecked := name == "checked".toList && !records.any (·.qualifiedName == name)
    form.checked || (addsChecked && !form.dirtyCheckedness)
  | .setXmlAttributeNsInternal _ namespaceUri localName _ _ =>
    let addsChecked := namespaceUri.isNone && localName == "checked".toList &&
      !records.any (isFlag "checked".toList)
    form.checked || (addsChecked && !form.dirtyCheckedness)
  | .setAttributeValueNsUtf16 _ _ _ => form.checked
  | .removeAttribute _ | .removeXmlAttribute _ =>
    form.checked && !((call.touched form.element).any (isFlag "checked".toList) &&
      !form.dirtyCheckedness)
  | .removeXmlAttributeNs namespaceUri _ =>
    form.checked && !((call.touched form.element).any (fun record =>
      namespaceUri.isNone && record.qualifiedName == "checked".toList) && !form.dirtyCheckedness)

/-- Whether a mutator rebuilds the projection: a remover does if it removes. -/
def rebuilds (call : AttributeCall) : Bool :=
  match call with
  | .setAttributeInternal _ _ | .setXmlAttributeNsInternal _ _ _ _ _
  | .setAttributeValueNsUtf16 _ _ _ => true
  | .removeAttribute _ | .removeXmlAttribute _ | .removeXmlAttributeNs _ _ =>
    (call.touched form.element).isSome

/-- A mutator of attributes. -/
def performAttribute (call : AttributeCall) : FormElement :=
  match call.perform form.element with
  | none => form
  | some (element, _) =>
    { form with
      element
      checked := form.checkedAfter call
      attributes :=
        if form.rebuilds call then attributeProjection element.attributeRecords
        else form.attributes }

end FormElement

/-- The calls that change form state: the mutators of attributes, and those that make it dirty or
reset it. -/
inductive FormCall where
  | mutate (call : AttributeCall)
  | setChecked (checked : Bool)
  | resetInputCheckedness
  | markSelected (selected : Bool)
deriving DecidableEq, Repr

/-- A call; `markSelected` is `set_option_selectedness` on an option that becomes dirty. -/
def FormElement.perform (form : FormElement) : FormCall → FormElement
  | .mutate call => form.performAttribute call
  | .setChecked checked => { form with checked, dirtyCheckedness := true }
  | .resetInputCheckedness =>
    if form.element.isHtmlInput then
      { form with
        checked := form.element.attributeRecords.any (isFlag "checked".toList)
        dirtyCheckedness := false }
    else form
  | .markSelected selected =>
    { form with element := { form.element with selected, dirtySelectedness := true } }

/-! ## The projection -/

variable {records : List AttributeRecord} {flag name : Text} {form : FormElement}

theorem get_projection_from (records : List AttributeRecord) : ∀ attributes : Table Text Text,
    Table.get (records.foldl (fun attributes record =>
        if (attributes.get record.qualifiedName).isSome then attributes
        else attributes.insert record.qualifiedName record.value) attributes) name =
      (attributes.get name).or ((records.find? (·.qualifiedName == name)).map (·.value)) := by
  induction records with
  | nil => exact fun attributes => (Option.or_none ..).symm
  | cons record records ih =>
    intro attributes
    rw [List.foldl_cons, ih]
    by_cases hname : record.qualifiedName = name
    · rw [List.find?_cons_of_pos (by simpa using hname), hname]
      cases hget : attributes.get name with
      | some value => simp [hget]
      | none => simp
    · rw [List.find?_cons_of_neg (by simpa using hname)]
      split
      · rfl
      · rw [Table.get_insert_of_ne _ (Ne.symm hname)]

/-- The projection maps a qualified name to the value of its first record. -/
theorem get_attributeProjection :
    (attributeProjection records).get name =
      (records.find? (·.qualifiedName == name)).map (·.value) :=
  get_projection_from records []

/-! ## Counting the records of a flag -/

section

variable {found p : AttributeRecord → Bool} {write : AttributeRecord → AttributeRecord}
  {new : Option AttributeRecord}

/-- A writer that leaves a property of records alone adds what a new record has of it. -/
theorem countP_writeRecord (hwrite : ∀ record, p (write record) = p record) :
    (writeRecord found write new records).countP p =
      records.countP p + if records.any found then 0 else new.toList.countP p := by
  induction records with
  | nil => simp [writeRecord]
  | cons record records ih =>
    rw [writeRecord]
    by_cases hfound : found record = true
    · simp [hfound, List.countP_cons, hwrite]
    · rw [if_neg hfound, List.countP_cons, List.countP_cons, ih, List.any_cons,
        Bool.eq_false_iff.mpr hfound, Bool.false_or]
      omega

/-- What is removed is the first record that is found. -/
theorem countP_eraseP (records : List AttributeRecord) :
    (records.eraseP found).countP p + (records.find? found).toList.countP p = records.countP p := by
  induction records with
  | nil => rfl
  | cons record records ih =>
    by_cases hfound : found record = true
    · rw [List.eraseP_cons_of_pos hfound, List.find?_cons_of_pos hfound, List.countP_cons]
      simp [List.countP_cons]
    · rw [List.eraseP_cons_of_neg hfound, List.find?_cons_of_neg hfound, List.countP_cons,
        List.countP_cons, ← ih]
      omega

theorem forall_writeRecord {P : AttributeRecord → Prop} (h : ∀ record ∈ records, P record)
    (hwrite : ∀ record, found record = true → P record → P (write record))
    (hnew : ∀ record ∈ new, P record) : ∀ record ∈ writeRecord found write new records, P record := by
  induction records with
  | nil =>
    intro record hrecord
    exact hnew record (Option.mem_toList.mp hrecord)
  | cons other records ih =>
    rw [List.forall_mem_cons] at h
    rw [writeRecord]
    split
    next hfound => exact List.forall_mem_cons.mpr ⟨hwrite other hfound h.1, h.2⟩
    next => exact List.forall_mem_cons.mpr ⟨h.1, ih h.2⟩

end

/-! ## Flags -/

/-- An attribute in no namespace is the flag by both of its names, and there is at most one. -/
structure Straight (flag : Text) (records : List AttributeRecord) : Prop where
  names : ∀ record ∈ records, record.namespaceUri = none →
    (record.qualifiedName = flag ↔ record.localName = flag)
  unique : records.countP (isFlag flag) ≤ 1

theorem isFlag_iff {record : AttributeRecord} :
    isFlag flag record = true ↔ record.namespaceUri = none ∧ record.localName = flag := by
  rw [isFlag, AttributeRecord.isNamed, Bool.and_eq_true, beq_iff_eq, beq_iff_eq]

/-- Without a record of the qualified name there is none of the flag. -/
theorem Straight.countP_eq_zero (h : Straight flag records)
    (hnone : records.any (·.qualifiedName == flag) = false) :
    records.countP (isFlag flag) = 0 := by
  rw [List.countP_eq_zero]
  intro record hrecord hflag
  obtain ⟨hnamespace, hlocal⟩ := isFlag_iff.mp hflag
  have hname := (h.names record hrecord hnamespace).mpr hlocal
  rw [List.any_eq_false] at hnone
  exact hnone record hrecord (by simpa using hname)

theorem countP_isFlag_eq_zero (hnone : records.any (isFlag flag) = false) :
    records.countP (isFlag flag) = 0 :=
  List.countP_eq_zero.mpr (List.any_eq_false.mp hnone)

/-- The call gives an attribute in no namespace the flag's name as both of its names, or neither. -/
def AttributeCall.NamesStraight (flag : Text) : AttributeCall → Prop
  | .setXmlAttributeNsInternal qualifiedName none localName _ _ =>
    qualifiedName = flag ↔ localName = flag
  | _ => True

theorem isFlag_withValue (flag : Text) (value : DomString) (record : AttributeRecord) :
    isFlag flag (record.withValue value) = isFlag flag record := rfl

/-- The records after a call that does not return early. -/
def AttributeCall.recordsAfter (element : Element) (call : AttributeCall) : List AttributeRecord :=
  match call with
  | .setAttributeInternal name value =>
    writeRecord (·.qualifiedName == element.foldName name) (·.withValue value)
      (some (.new (element.foldName name) none (element.foldName name) value))
      element.attributeRecords
  | .setXmlAttributeNsInternal qualifiedName namespaceUri localName value replaceQualifiedName =>
    writeRecord (·.isNamed namespaceUri localName)
      (fun record =>
        { record.withValue value with
          qualifiedName := if replaceQualifiedName then qualifiedName else record.qualifiedName })
      (some (.new qualifiedName namespaceUri localName value)) element.attributeRecords
  | .setAttributeValueNsUtf16 namespaceUri localName units =>
    writeRecord (·.isNamed namespaceUri localName) (·.withValue (.fromUtf16 units)) none
      element.attributeRecords
  | .removeAttribute _ | .removeXmlAttribute _ | .removeXmlAttributeNs _ _ =>
    element.attributeRecords.eraseP (call.hits element)

theorem perform_attributeRecords {element element' : Element} {call : AttributeCall}
    {names : List Text} (h : call.perform element = some (element', names)) :
    element'.attributeRecords = call.recordsAfter element := by
  cases call with
  | setAttributeInternal | setXmlAttributeNsInternal | removeAttribute | removeXmlAttribute =>
    cases h
    rfl
  | setAttributeValueNsUtf16 | removeXmlAttributeNs =>
    obtain ⟨_, -, heq⟩ := Option.map_eq_some_iff.mp h
    cases heq
    rfl

/-- How many records of a flag a call adds. -/
def AttributeCall.adds (element : Element) (flag : Text) : AttributeCall → Nat
  | .setAttributeInternal name _ =>
    if element.attributeRecords.any (·.qualifiedName == element.foldName name) then 0
    else if element.foldName name = flag then 1 else 0
  | .setXmlAttributeNsInternal _ namespaceUri localName _ _ =>
    if element.attributeRecords.any (·.isNamed namespaceUri localName) then 0
    else if namespaceUri = none ∧ localName = flag then 1 else 0
  | _ => 0

/-- How many it removes. -/
def AttributeCall.drops (element : Element) (flag : Text) (call : AttributeCall) : Nat :=
  match call with
  | .removeAttribute _ | .removeXmlAttribute _ | .removeXmlAttributeNs _ _ =>
    (call.touched element).toList.countP (isFlag flag)
  | _ => 0

/-- What a call does to the number of records of a flag. -/
theorem countP_recordsAfter (element : Element) (flag : Text) (call : AttributeCall) :
    (call.recordsAfter element).countP (isFlag flag) + call.drops element flag =
      element.attributeRecords.countP (isFlag flag) + call.adds element flag := by
  cases call with
  | setAttributeInternal name value =>
    refine (countP_writeRecord (isFlag_withValue flag value)).trans ?_
    simp [AttributeCall.adds, isFlag_iff, AttributeRecord.new, AttributeRecord.withValue,
      List.countP_cons]
  | setXmlAttributeNsInternal qualifiedName namespaceUri localName value replaceQualifiedName =>
    refine (countP_writeRecord ?_).trans ?_
    · exact fun _ => rfl
    · simp [AttributeCall.adds, isFlag_iff, AttributeRecord.new, AttributeRecord.withValue,
        List.countP_cons]
  | setAttributeValueNsUtf16 namespaceUri localName units =>
    refine (countP_writeRecord (isFlag_withValue flag _)).trans ?_
    simp [AttributeCall.adds]
  | removeAttribute | removeXmlAttribute | removeXmlAttributeNs =>
    exact countP_eraseP element.attributeRecords

/-- A record of a flag is added if there is none. -/
theorem Straight.countP_of_adds {element : Element} {call : AttributeCall}
    (h : Straight flag element.attributeRecords) (hadds : call.adds element flag ≠ 0) :
    element.attributeRecords.countP (isFlag flag) = 0 := by
  cases call with
  | setAttributeInternal name value =>
    rw [AttributeCall.adds] at hadds
    split at hadds
    · exact absurd rfl hadds
    next hany =>
      split at hadds
      next hname =>
        rw [hname] at hany
        exact h.countP_eq_zero (Bool.eq_false_iff.mpr hany)
      next => exact absurd rfl hadds
  | setXmlAttributeNsInternal qualifiedName namespaceUri localName value replaceQualifiedName =>
    rw [AttributeCall.adds] at hadds
    split at hadds
    · exact absurd rfl hadds
    next hany =>
      split at hadds
      next hname =>
        obtain ⟨rfl, rfl⟩ := hname
        exact countP_isFlag_eq_zero (Bool.eq_false_iff.mpr hany)
      next => exact absurd rfl hadds
  | setAttributeValueNsUtf16 | removeAttribute | removeXmlAttribute | removeXmlAttributeNs =>
    exact absurd rfl hadds

theorem AttributeCall.adds_le (element : Element) (flag : Text) (call : AttributeCall) :
    call.adds element flag ≤ 1 := by
  cases call with
  | setAttributeInternal | setXmlAttributeNsInternal =>
    rw [AttributeCall.adds]
    split
    · exact Nat.zero_le 1
    · split
      · exact Nat.le_refl 1
      · exact Nat.zero_le 1
  | setAttributeValueNsUtf16 | removeAttribute | removeXmlAttribute | removeXmlAttributeNs =>
    exact Nat.zero_le 1

/-- A call keeps the records of a flag straight. -/
theorem Straight.after {element : Element} {call : AttributeCall}
    (hstraight : Straight flag element.attributeRecords) (hnames : call.NamesStraight flag) :
    Straight flag (call.recordsAfter element) where
  names := by
    cases call with
    | setAttributeInternal name value =>
      refine forall_writeRecord hstraight.names (fun _ _ hrecord => hrecord) ?_
      rintro record ⟨⟩ -
      exact Iff.rfl
    | setXmlAttributeNsInternal qualifiedName namespaceUri localName value replaceQualifiedName =>
      cases namespaceUri with
      | none =>
        refine forall_writeRecord hstraight.names (fun record hfound hrecord hnone => ?_) ?_
        · cases replaceQualifiedName with
          | true =>
            have hlocal : record.localName = localName := (isFlag_iff.mp hfound).2
            exact hlocal ▸ hnames
          | false => exact hrecord hnone
        · rintro record ⟨⟩ -
          exact hnames
      | some namespaceUri =>
        refine forall_writeRecord hstraight.names (fun record hfound hrecord hnone => ?_) ?_
        · simp only [AttributeRecord.isNamed, Bool.and_eq_true, beq_iff_eq] at hfound
          exact absurd (hfound.1.symm.trans hnone) (Option.some_ne_none _)
        · rintro record ⟨⟩ hnone
          cases hnone
    | setAttributeValueNsUtf16 =>
      exact forall_writeRecord hstraight.names (fun _ _ hrecord => hrecord) (by simp)
    | removeAttribute | removeXmlAttribute | removeXmlAttributeNs =>
      exact fun record hrecord => hstraight.names record (List.mem_of_mem_eraseP hrecord)
  unique := by
    have hcount := countP_recordsAfter element flag call
    have hle := hstraight.unique
    have hadds := call.adds_le element flag
    by_cases hzero : call.adds element flag = 0
    · omega
    · have hnone := hstraight.countP_of_adds hzero
      omega

/-! ## The state of a flag -/

theorem AttributeCall.adds_eq_zero_or_drops_eq_zero (element : Element) (flag : Text)
    (call : AttributeCall) : call.adds element flag = 0 ∨ call.drops element flag = 0 := by
  cases call with
  | setAttributeInternal | setXmlAttributeNsInternal => exact .inr rfl
  | setAttributeValueNsUtf16 | removeAttribute | removeXmlAttribute | removeXmlAttributeNs =>
    exact .inl rfl

/-- The state that a call should leave behind. -/
def AttributeCall.flagAfter (element : Element) (flag : Text) (state : Bool) (call : AttributeCall) :
    Bool :=
  (state || call.adds element flag != 0) && call.drops element flag == 0

/-- It says whether there is a record of the flag. -/
theorem Straight.countP_after {element : Element} {call : AttributeCall} {state : Bool}
    (h : Straight flag element.attributeRecords)
    (hstate : element.attributeRecords.countP (isFlag flag) = state.toNat) :
    (call.recordsAfter element).countP (isFlag flag) =
      (call.flagAfter element flag state).toNat := by
  have hcount := countP_recordsAfter element flag call
  have hle := call.adds_le element flag
  have hunique := h.unique
  rw [AttributeCall.flagAfter]
  by_cases hadds : call.adds element flag = 0
  · by_cases hdrops : call.drops element flag = 0
    · simp only [hadds, hdrops, bne_self_eq_false, Bool.or_false, beq_self_eq_true, Bool.and_true]
      omega
    · simp only [beq_eq_false_iff_ne.mpr hdrops, Bool.and_false, Bool.toNat_false]
      omega
  · have hnone := h.countP_of_adds hadds
    have hdrops := (call.adds_eq_zero_or_drops_eq_zero element flag).resolve_left hadds
    simp only [bne_iff_ne.mpr hadds, hdrops, Bool.or_true, beq_self_eq_true, Bool.and_true,
      Bool.toNat_true]
    omega

/-- The record that a remover by namespace and local name touches is the flag by its qualified name. -/
theorem Straight.touched_removeXmlAttributeNs {element : Element} {namespaceUri : Option Text}
    {localName : Text} (h : Straight flag element.attributeRecords) :
    ((AttributeCall.removeXmlAttributeNs namespaceUri localName).touched element).any
        (fun record => namespaceUri.isNone && record.qualifiedName == flag) =
      ((AttributeCall.removeXmlAttributeNs namespaceUri localName).touched element).any
        (isFlag flag) := by
  cases htouched : (AttributeCall.removeXmlAttributeNs namespaceUri localName).touched element with
  | none => rfl
  | some record =>
    have hfound := List.find?_some htouched
    have hmem := List.mem_of_find?_eq_some htouched
    simp only [AttributeCall.hits, AttributeRecord.isNamed, Bool.and_eq_true, beq_iff_eq] at hfound
    rw [Option.any_some, Option.any_some, Bool.eq_iff_iff, isFlag_iff, ← hfound.1,
      Bool.and_eq_true, beq_iff_eq, Option.isNone_iff_eq_none]
    exact and_congr_right fun hnone => h.names record hmem hnone

theorem drops_of_touched {element : Element} {call : AttributeCall} :
    ((call.touched element).toList.countP (isFlag flag) == 0) =
      !(call.touched element).any (isFlag flag) := by
  cases call.touched element with
  | none => rfl
  | some record => cases hflag : isFlag flag record <;> simp [hflag]

namespace FormElement

/-- Checkedness follows its flag. -/
theorem checkedAfter_eq {call : AttributeCall}
    (h : Straight "checked".toList form.element.attributeRecords)
    (hdirty : form.dirtyCheckedness = false) :
    form.checkedAfter call = call.flagAfter form.element "checked".toList form.checked := by
  rw [checkedAfter.eq_def, AttributeCall.flagAfter, hdirty]
  generalize "checked".toList = flag at h ⊢
  cases call with
  | setAttributeInternal name value =>
    simp only [AttributeCall.adds, AttributeCall.drops]
    split
    next hany => simp [hany]
    next hany =>
      rw [Bool.eq_false_iff.mpr hany]
      split
      next hname => simp [hname]
      next hname => simp [hname]
  | setXmlAttributeNsInternal qualifiedName namespaceUri localName value replaceQualifiedName =>
    simp only [AttributeCall.adds, AttributeCall.drops]
    by_cases hflag : namespaceUri = none ∧ localName = flag
    · obtain ⟨rfl, rfl⟩ := hflag
      have hsame : form.element.attributeRecords.any (·.isNamed none localName) =
          form.element.attributeRecords.any (isFlag localName) := rfl
      rw [hsame]
      cases form.element.attributeRecords.any (isFlag localName) <;> simp
    · have hfalse : (namespaceUri.isNone && localName == flag) = false := by
        rw [Bool.eq_false_iff, ne_eq, Bool.and_eq_true, Option.isNone_iff_eq_none, beq_iff_eq]
        exact hflag
      rw [hfalse, if_neg hflag]
      simp
  | setAttributeValueNsUtf16 => simp [AttributeCall.adds, AttributeCall.drops]
  | removeAttribute | removeXmlAttribute =>
    simp [AttributeCall.adds, AttributeCall.drops, drops_of_touched]
  | removeXmlAttributeNs =>
    simp [AttributeCall.adds, AttributeCall.drops, drops_of_touched,
      h.touched_removeXmlAttributeNs]

end FormElement

/-- The mutators that follow the qualified name of `selected`, or do not follow it, are called where that
makes no difference. -/
def AttributeCall.SelectedRegular (element : Element) (call : AttributeCall) : Prop :=
  let present := element.attributeRecords.any (isFlag "selected".toList)
  match call with
  | .setAttributeInternal name _ =>
    element.foldName name = "selected".toList → (call.touched element).isSome → present = true
  | .removeAttribute name =>
    element.foldName name = "selected".toList → ∀ record ∈ call.touched element,
      isFlag "selected".toList record = true ∨ present = false
  | .removeXmlAttribute _ =>
    ∀ record ∈ call.touched element, isFlag "selected".toList record = false
  | _ => True

theorem any_eq_of_countP {state : Bool} (h : records.countP (isFlag flag) = state.toNat) :
    records.any (isFlag flag) = state := by
  cases state with
  | true =>
    rw [List.any_eq_true]
    exact List.countP_pos_iff.mp (by rw [h]; decide)
  | false =>
    rw [List.any_eq_false]
    exact List.countP_eq_zero.mp h

/-- Selectedness follows its flag at regular calls. -/
theorem selected_perform {element element' : Element} {call : AttributeCall} {names : List Text}
    (hperform : call.perform element = some (element', names))
    (h : Straight "selected".toList element.attributeRecords)
    (hnames : call.NamesStraight "selected".toList) (hregular : call.SelectedRegular element)
    (hdirty : element.dirtySelectedness = false)
    (hstate : element.attributeRecords.countP (isFlag "selected".toList) = element.selected.toNat) :
    element'.selected = call.flagAfter element "selected".toList element.selected := by
  have hpresent := any_eq_of_countP hstate
  rw [AttributeCall.SelectedRegular.eq_def, hpresent] at hregular
  cases call with
  | setAttributeInternal name value =>
    cases hperform
    rw [Element.setAttributeInternal, AttributeCall.flagAfter]
    dsimp only [AttributeCall.adds, AttributeCall.drops] at hregular ⊢
    rw [hdirty]
    generalize "selected".toList = flag at *
    split
    next hany =>
      have hsome : ((AttributeCall.setAttributeInternal name value).touched element).isSome := by
        rw [AttributeCall.touched, List.isSome_find?]
        exact hany
      by_cases hname : element.foldName name = flag
      · simp [hregular hname hsome]
      · simp [hname]
    next =>
      split
      next hname => simp [hname]
      next hname => simp [hname]
  | setXmlAttributeNsInternal qualifiedName namespaceUri localName value replaceQualifiedName =>
    cases hperform
    rw [Element.setXmlAttributeNsInternal, AttributeCall.flagAfter]
    dsimp only [AttributeCall.adds, AttributeCall.drops]
    rw [hdirty]
    generalize "selected".toList = flag at *
    cases namespaceUri with
    | some namespaceUri => simp
    | none =>
      rw [AttributeCall.NamesStraight] at hnames
      by_cases hlocal : localName = flag
      · subst hlocal
        have hsame : element.attributeRecords.any (·.isNamed none localName) =
            element.selected := hpresent
        rw [hsame]
        cases element.selected <;> simp [hnames]
      · simp [hlocal, hnames]
  | setAttributeValueNsUtf16 =>
    obtain ⟨_, -, heq⟩ := Option.map_eq_some_iff.mp hperform
    cases heq
    simp [AttributeCall.flagAfter, AttributeCall.adds, AttributeCall.drops,
      Element.setAttributeValueNsUtf16]
  | removeAttribute name =>
    cases hperform
    rw [Element.removeAttribute, AttributeCall.flagAfter]
    dsimp only [AttributeCall.adds, AttributeCall.drops] at hregular ⊢
    rw [hdirty, drops_of_touched]
    generalize "selected".toList = flag at *
    cases htouched : (AttributeCall.removeAttribute name).touched element with
    | none =>
      by_cases hname : element.foldName name = flag
      · have hnone : element.attributeRecords.any (·.qualifiedName == flag) = false := by
          rw [← hname, ← List.isSome_find?]
          exact congrArg Option.isSome htouched
        rw [h.countP_eq_zero hnone] at hstate
        have habsent : element.selected = false := by
          cases hselected : element.selected with
          | true =>
            rw [hselected] at hstate
            cases hstate
          | false => rfl
        simp [habsent]
      · simp [hname]
    | some record =>
      have hfound : record.qualifiedName = element.foldName name := by
        simpa [AttributeCall.hits] using List.find?_some htouched
      rw [Option.any_some]
      by_cases hname : element.foldName name = flag
      · rcases hregular hname record htouched with hflag | habsent
        · simp [hname, hflag]
        · simp [habsent]
      · have hflag : isFlag flag record = false := by
          rw [Bool.eq_false_iff, ne_eq, isFlag_iff]
          rintro ⟨hnone, hlocal⟩
          have hqualified := (h.names record (List.mem_of_find?_eq_some htouched) hnone).mpr hlocal
          exact hname (hfound.symm.trans hqualified)
        simp [hname, hflag]
  | removeXmlAttribute =>
    cases hperform
    rw [Element.removeXmlAttribute, AttributeCall.flagAfter]
    dsimp only [AttributeCall.adds, AttributeCall.drops] at hregular ⊢
    rw [drops_of_touched]
    cases htouched : (AttributeCall.removeXmlAttribute _).touched element with
    | none => simp
    | some record =>
      rw [Option.any_some, hregular record htouched]
      simp
  | removeXmlAttributeNs namespaceUri localName =>
    obtain ⟨record, htouched, heq⟩ := Option.map_eq_some_iff.mp hperform
    cases heq
    have hflag := @Straight.touched_removeXmlAttributeNs _ _ namespaceUri localName h
    rw [Element.removeXmlAttributeNs, AttributeCall.flagAfter]
    dsimp only [AttributeCall.adds, AttributeCall.drops]
    rw [drops_of_touched, ← hflag, htouched, hdirty]
    simp

/-! ## Runs -/

/-- The projection, checkedness and selectedness are those of the records. -/
structure FormElement.InStep (form : FormElement) : Prop where
  attributes : ∀ name, form.attributes.get name =
    (form.element.attributeRecords.find? (·.qualifiedName == name)).map (·.value)
  straightChecked : Straight "checked".toList form.element.attributeRecords
  straightSelected : Straight "selected".toList form.element.attributeRecords
  checked : form.dirtyCheckedness = false →
    form.element.attributeRecords.countP (isFlag "checked".toList) = form.checked.toNat
  selected : form.element.tagName = "option".toList → form.element.dirtySelectedness = false →
    form.element.attributeRecords.countP (isFlag "selected".toList) = form.element.selected.toNat

/-- The calls that keep an element in step. -/
def FormCall.Regular (form : FormElement) : FormCall → Prop
  | .mutate call =>
    call.NamesStraight "checked".toList ∧ call.NamesStraight "selected".toList ∧
      (form.element.tagName = "option".toList → form.element.dirtySelectedness = false →
        call.SelectedRegular form.element)
  | _ => True

namespace FormElement

theorem new_inStep (tagName : Text) (namespaceUri : Option Text) (localName : Text) (html : Bool) :
    (new tagName namespaceUri localName html).InStep where
  attributes _ := rfl
  straightChecked := ⟨by simp [new], by simp [new]⟩
  straightSelected := ⟨by simp [new], by simp [new]⟩
  checked _ := rfl
  selected _ _ := rfl

/-- A mutator that is no remover, or removes, rebuilds the projection; others leave the records. -/
theorem recordsAfter_of_not_rebuilds {call : AttributeCall} (h : form.rebuilds call = false) :
    call.recordsAfter form.element = form.element.attributeRecords := by
  cases call with
  | setAttributeInternal | setXmlAttributeNsInternal | setAttributeValueNsUtf16 => cases h
  | removeAttribute | removeXmlAttribute | removeXmlAttributeNs =>
    rw [rebuilds.eq_def] at h
    exact List.eraseP_of_forall_not (List.find?_eq_none.mp
      (Option.isNone_iff_eq_none.mp (Option.isSome_eq_false_iff.mp h)))

theorem InStep.performAttribute {call : AttributeCall} (h : form.InStep)
    (hregular : (FormCall.mutate call).Regular form) : (form.performAttribute call).InStep := by
  obtain ⟨hchecked, hselected, hfollows⟩ := hregular
  rw [FormElement.performAttribute]
  cases hperform : call.perform form.element with
  | none => exact h
  | some result =>
    obtain ⟨element, names⟩ := result
    obtain ⟨attributeRecords, selected, rfl⟩ := AttributeCall.same_of_perform hperform
    have hrecords : attributeRecords = call.recordsAfter form.element :=
      perform_attributeRecords hperform
    subst hrecords
    refine ⟨fun name => ?_, h.straightChecked.after hchecked, h.straightSelected.after hselected,
      fun hdirty => ?_, fun hoption hdirty => ?_⟩
    · dsimp only
      split
      · exact get_attributeProjection
      next hrebuilds =>
        rw [recordsAfter_of_not_rebuilds (Bool.eq_false_iff.mpr hrebuilds)]
        exact h.attributes name
    · rw [h.straightChecked.countP_after (h.checked hdirty),
        ← checkedAfter_eq h.straightChecked hdirty]
    · rw [h.straightSelected.countP_after (h.selected hoption hdirty)]
      exact congrArg Bool.toNat (selected_perform hperform h.straightSelected hselected
        (hfollows hoption hdirty) hdirty (h.selected hoption hdirty)).symm

/-- A regular call keeps an element in step. -/
theorem InStep.perform {call : FormCall} (h : form.InStep) (hregular : call.Regular form) :
    (form.perform call).InStep := by
  cases call with
  | mutate call => exact h.performAttribute hregular
  | setChecked checked => exact { h with checked := fun hdirty => by cases hdirty }
  | resetInputCheckedness =>
    rw [FormElement.perform]
    split
    · refine { h with checked := fun _ => ?_ }
      have hunique := h.straightChecked.unique
      dsimp only
      cases hany : form.element.attributeRecords.any (isFlag "checked".toList) with
      | true =>
        have hpositive := List.countP_pos_iff.mpr (List.any_eq_true.mp hany)
        rw [Bool.toNat_true]
        omega
      | false => exact countP_isFlag_eq_zero hany
    · exact h
  | markSelected selected =>
    exact { h with selected := fun _ hdirty => by cases hdirty }

/-- The element has an attribute in no namespace. -/
def HasFlag (flag : Text) (form : FormElement) : Prop :=
  ∃ record ∈ form.element.attributeRecords, record.namespaceUri = none ∧ record.localName = flag

instance : Decidable (form.HasFlag flag) := inferInstanceAs (Decidable (∃ record ∈ _, _))

theorem hasFlag_iff_of_countP {state : Bool}
    (h : form.element.attributeRecords.countP (isFlag flag) = state.toNat) :
    state = true ↔ form.HasFlag flag := by
  rw [← any_eq_of_countP h, List.any_eq_true]
  exact exists_congr fun record => and_congr_right fun _ => isFlag_iff

end FormElement

/-- Calls that are regular leave an element whose projection has the first record of each name, whose
checkedness and selectedness follow their attributes. -/
theorem formState_inStep (tagName : Text) (namespaceUri : Option Text) (localName : Text)
    (html : Bool) (calls : List FormCall)
    (hregular : Run.Along FormElement.perform (fun form call => call.Regular form)
      (.new tagName namespaceUri localName html) calls) :
    let form := Run.run FormElement.perform (.new tagName namespaceUri localName html) calls
    (∀ name, form.attributes.get name =
      (form.element.attributeRecords.find? (·.qualifiedName == name)).map (·.value)) ∧
    (form.isCheckableInput = true → form.dirtyCheckedness = false →
      (form.isChecked = true ↔ form.HasFlag "checked".toList)) ∧
    (form.element.tagName = "option".toList → form.element.dirtySelectedness = false →
      (form.isSelected = true ↔ form.HasFlag "selected".toList)) := by
  have h := Run.invariant_along (fun form call h hregular => FormElement.InStep.perform h hregular)
    calls (FormElement.new_inStep tagName namespaceUri localName html) hregular
  refine ⟨h.attributes, fun hcheckable hdirty => ?_, fun hoption hdirty => ?_⟩
  · rw [FormElement.isChecked, hcheckable, Bool.true_and]
    exact FormElement.hasFlag_iff_of_countP (h.checked hdirty)
  · rw [FormElement.isSelected, hoption, beq_self_eq_true, Bool.true_and]
    exact FormElement.hasFlag_iff_of_countP (h.selected hoption hdirty)

/-- A checkbox that is given `checked` is checked. -/
theorem formState_inStep_checkbox :
    let form := Run.run FormElement.perform (.new "input".toList none [] true)
      [.mutate (.setAttribute "type".toList "checkbox".toList),
        .mutate (.setAttribute "checked".toList [])]
    (∀ name, form.attributes.get name =
      (form.element.attributeRecords.find? (·.qualifiedName == name)).map (·.value)) ∧
    (form.isCheckableInput = true → form.dirtyCheckedness = false →
      (form.isChecked = true ↔ form.HasFlag "checked".toList)) ∧
    (form.element.tagName = "option".toList → form.element.dirtySelectedness = false →
      (form.isSelected = true ↔ form.HasFlag "selected".toList)) :=
  formState_inStep "input".toList none [] true _
    ⟨⟨trivial, trivial, fun hoption => absurd hoption (by decide)⟩,
      ⟨trivial, trivial, fun hoption => absurd hoption (by decide)⟩, trivial⟩

/-- An option stays selected when `remove_xml_attribute` removes its `selected`. -/
theorem formState_selected_stays :
    ¬ ∀ calls : List FormCall,
      let form := Run.run FormElement.perform (.new "option".toList none [] true) calls
      form.element.tagName = "option".toList → form.element.dirtySelectedness = false →
        (form.isSelected = true ↔ form.HasFlag "selected".toList) := by
  intro h
  have hcalls := h [.mutate (.setAttribute "selected".toList []),
    .mutate (.removeXmlAttribute "selected".toList)]
  exact absurd hcalls (by decide)

end Omoikane.Dom.Live
