import Omoikane.Base.Text
import Omoikane.Base.Utf16
import Omoikane.Dom.Children

/-!
# Attributes of live elements

An element keeps its attributes as records, which are written and removed by qualified name, by
namespace and local name, or both.  Every writer and remover also passes names to
`invalidate_for_attribute`, and which names it passes depends on the call (`AttributeCall.perform`).

What the setters do to other parts of an element (checkedness, the style source, references to other
elements) is left out.
-/

namespace Omoikane.Dom.Live

open Base

/-! ## Values -/

/-- `from_utf16`: the text of units in which no surrogate stands alone. -/
def fromUtf16 (units : List UInt16) : Option Text :=
  (Utf16.decode units).mapM fun
    | .scalar c => some c
    | .surrogate _ => none

/-- `from_utf16_lossy`. -/
def fromUtf16Lossy (units : List UInt16) : Text :=
  (Utf16.decode units).map fun
    | .scalar c => c
    | .surrogate _ => Char.ofNat 0xfffd

/-- A string of the DOM, with its units where it is no text. -/
inductive DomString where
  | scalar (value : Text)
  | utf16 (units : List UInt16)
deriving DecidableEq, Repr

namespace DomString

/-- `from_utf16`. -/
def fromUtf16 (units : List UInt16) : DomString :=
  match Live.fromUtf16 units with
  | some value => .scalar value
  | none => .utf16 units

/-- `into_parts`. -/
def intoParts : DomString → Text × Option (List UInt16)
  | .scalar value => (value, none)
  | .utf16 units => (fromUtf16Lossy units, some units)

end DomString

/-! ## Records -/

structure AttributeRecord where
  utf16 : Option (List UInt16)
  qualifiedName : Text
  namespaceUri : Option Text
  localName : Text
  value : Text
deriving DecidableEq, Repr

structure Element where
  tagName : Text
  namespaceUri : Option Text
  localName : Text
  html : Bool
  attributeRecords : List AttributeRecord
  selected : Bool
  dirtySelectedness : Bool
  templateContent : Option NodeHandle
  shadowRoot : Option NodeHandle
deriving DecidableEq, Repr

namespace AttributeRecord

/-- The names that the epochs of live collections know an attribute by. -/
def names (record : AttributeRecord) : List Text := [record.qualifiedName, record.localName]

def isNamed (namespaceUri : Option Text) (localName : Text) (record : AttributeRecord) : Bool :=
  record.namespaceUri == namespaceUri && record.localName == localName

/-- The value of a record with its exact units. -/
def withValue (value : DomString) (record : AttributeRecord) : AttributeRecord :=
  { record with value := value.intoParts.1, utf16 := value.intoParts.2 }

/-- A record with a value. -/
def new (qualifiedName : Text) (namespaceUri : Option Text) (localName : Text) (value : DomString) :
    AttributeRecord :=
  withValue value { utf16 := none, qualifiedName, namespaceUri, localName, value := [] }

end AttributeRecord

/-- Rewrites the first record that a test finds; without one, a new record is added, if there is one. -/
def writeRecord (found : AttributeRecord → Bool) (write : AttributeRecord → AttributeRecord)
    (new : Option AttributeRecord) : List AttributeRecord → List AttributeRecord
  | [] => new.toList
  | record :: records =>
    if found record then write record :: records
    else record :: writeRecord found write new records

namespace Element

variable (element : Element)

/-- `local_name`. -/
def localNameOrTag : Text :=
  if element.localName.isEmpty then element.tagName else element.localName

/-- The name an unqualified attribute is kept under. -/
def foldName (name : Text) : Text :=
  if element.html then Text.toAsciiLowercase name else name

/-- `attribute_value_ns`. -/
def attributeValueNs (namespaceUri : Option Text) (localName : Text) : Option Text :=
  (element.attributeRecords.find? (·.isNamed namespaceUri localName)).map (·.value)

/-- `get_attribute`. -/
def getAttribute (name : Text) : Option Text :=
  let named (name : Text) := element.attributeRecords.find? (·.qualifiedName == name)
  ((named name).or
    (if element.html then named (Text.toAsciiLowercase name) else none)).map (·.value)

/-- `set_attribute_internal`. -/
def setAttributeInternal (name : Text) (value : DomString) : Element :=
  let name := element.foldName name
  { element with
    selected := element.selected || (name == "selected".toList && !element.dirtySelectedness)
    attributeRecords := writeRecord (·.qualifiedName == name) (·.withValue value)
      (some (.new name none name value)) element.attributeRecords }

/-- `set_xml_attribute_ns_internal`. -/
def setXmlAttributeNsInternal (qualifiedName : Text) (namespaceUri : Option Text) (localName : Text)
    (value : DomString) (replaceQualifiedName : Bool) : Element :=
  { element with
    selected := element.selected || (namespaceUri.isNone && qualifiedName == "selected".toList &&
      !element.dirtySelectedness)
    attributeRecords := writeRecord (·.isNamed namespaceUri localName)
      (fun record =>
        { record.withValue value with
          qualifiedName := if replaceQualifiedName then qualifiedName else record.qualifiedName })
      (some (.new qualifiedName namespaceUri localName value)) element.attributeRecords }

/-- `set_attribute_value_ns_utf16`. -/
def setAttributeValueNsUtf16 (namespaceUri : Option Text) (localName : Text)
    (units : List UInt16) : Element :=
  { element with
    attributeRecords := writeRecord (·.isNamed namespaceUri localName)
      (·.withValue (.fromUtf16 units)) none element.attributeRecords }

/-- `remove_attribute`. -/
def removeAttribute (name : Text) : Element :=
  let name := element.foldName name
  { element with
    selected := element.selected && !(name == "selected".toList && !element.dirtySelectedness)
    attributeRecords := element.attributeRecords.eraseP (·.qualifiedName == name) }

/-- `remove_xml_attribute`. -/
def removeXmlAttribute (qualifiedName : Text) : Element :=
  { element with
    attributeRecords := element.attributeRecords.eraseP (·.qualifiedName == qualifiedName) }

/-- `remove_xml_attribute_ns` of an attribute with this qualified name. -/
def removeXmlAttributeNs (namespaceUri : Option Text) (localName qualifiedName : Text) : Element :=
  { element with
    selected := element.selected && !(namespaceUri.isNone &&
      qualifiedName == "selected".toList && !element.dirtySelectedness)
    attributeRecords := element.attributeRecords.eraseP (·.isNamed namespaceUri localName) }

end Element

/-! ## Calls -/

/-- A call that writes or removes an attribute. -/
inductive AttributeCall where
  | setAttributeInternal (name : Text) (value : DomString)
  | setXmlAttributeNsInternal (qualifiedName : Text) (namespaceUri : Option Text)
      (localName : Text) (value : DomString) (replaceQualifiedName : Bool)
  | setAttributeValueNsUtf16 (namespaceUri : Option Text) (localName : Text)
      (units : List UInt16)
  | removeAttribute (name : Text)
  | removeXmlAttribute (qualifiedName : Text)
  | removeXmlAttributeNs (namespaceUri : Option Text) (localName : Text)
deriving DecidableEq, Repr

namespace AttributeCall

/-- `set_attribute`. -/
def setAttribute (name value : Text) : AttributeCall := .setAttributeInternal name (.scalar value)

/-- `set_attribute_utf16`. -/
def setAttributeUtf16 (name : Text) (units : List UInt16) : AttributeCall :=
  .setAttributeInternal name (.fromUtf16 units)

/-- `set_attribute_owned`. -/
def setAttributeOwned (name : Text) (data : DomString) : AttributeCall :=
  .setAttributeInternal name data

/-- `set_xml_attribute_ns`. -/
def setXmlAttributeNs (qualifiedName : Text) (namespaceUri : Option Text) (localName value : Text) :
    AttributeCall :=
  .setXmlAttributeNsInternal qualifiedName namespaceUri localName (.scalar value) false

/-- `set_xml_attribute`. -/
def setXmlAttribute (name value : Text) : AttributeCall := setXmlAttributeNs name none name value

/-- `replace_xml_attribute_ns`. -/
def replaceXmlAttributeNs (qualifiedName : Text) (namespaceUri : Option Text)
    (localName value : Text) : AttributeCall :=
  .setXmlAttributeNsInternal qualifiedName namespaceUri localName (.scalar value) true

/-- `set_xml_attribute_ns_owned`. -/
def setXmlAttributeNsOwned (qualifiedName : Text) (namespaceUri : Option Text) (localName : Text)
    (data : DomString) (replaceQualifiedName : Bool) : AttributeCall :=
  .setXmlAttributeNsInternal qualifiedName namespaceUri localName data replaceQualifiedName

/-- The record that a call looks for. -/
def hits (element : Element) : AttributeCall → AttributeRecord → Bool
  | .setAttributeInternal name _ | .removeAttribute name =>
    fun record => record.qualifiedName == element.foldName name
  | .removeXmlAttribute qualifiedName => fun record => record.qualifiedName == qualifiedName
  | .setXmlAttributeNsInternal _ namespaceUri localName _ _
  | .setAttributeValueNsUtf16 namespaceUri localName _
  | .removeXmlAttributeNs namespaceUri localName => (·.isNamed namespaceUri localName)

/-- The record that a call writes or removes, if there is one. -/
def touched (element : Element) (call : AttributeCall) : Option AttributeRecord :=
  element.attributeRecords.find? (call.hits element)

/-- What a call does to an element, with the names it passes to `invalidate_for_attribute`; `none`
when it returns before that. -/
def perform (element : Element) (call : AttributeCall) : Option (Element × List Text) :=
  match call with
  | .setAttributeInternal name value =>
    some (element.setAttributeInternal name value, [element.foldName name])
  | .setXmlAttributeNsInternal qualifiedName namespaceUri localName value replaceQualifiedName =>
    some (element.setXmlAttributeNsInternal qualifiedName namespaceUri localName value
      replaceQualifiedName, [qualifiedName, localName])
  | .setAttributeValueNsUtf16 namespaceUri localName units =>
    (call.touched element).map fun _ =>
      (element.setAttributeValueNsUtf16 namespaceUri localName units, [localName])
  | .removeAttribute name => some (element.removeAttribute name, [element.foldName name])
  | .removeXmlAttribute qualifiedName =>
    some (element.removeXmlAttribute qualifiedName, [qualifiedName])
  | .removeXmlAttributeNs namespaceUri localName =>
    (call.touched element).map fun record =>
      (element.removeXmlAttributeNs namespaceUri localName record.qualifiedName,
        [record.qualifiedName, localName])

/-- The names that a call passes to `invalidate_for_attribute`. -/
def passed (element : Element) (call : AttributeCall) : List Text :=
  match call with
  | .setAttributeInternal name _ | .removeAttribute name => [element.foldName name]
  | .setXmlAttributeNsInternal qualifiedName _ localName _ _ => [qualifiedName, localName]
  | .setAttributeValueNsUtf16 _ localName _ => [localName]
  | .removeXmlAttribute qualifiedName => [qualifiedName]
  | .removeXmlAttributeNs _ localName =>
    ((call.touched element).map (·.qualifiedName)).toList ++ [localName]

/-- What becomes of the record that a call hits. -/
def rewritten (record : AttributeRecord) : AttributeCall → Option AttributeRecord
  | .setAttributeInternal _ value => some (record.withValue value)
  | .setXmlAttributeNsInternal qualifiedName _ _ value replaceQualifiedName =>
    some { record.withValue value with
      qualifiedName := if replaceQualifiedName then qualifiedName else record.qualifiedName }
  | .setAttributeValueNsUtf16 _ _ units => some (record.withValue (.fromUtf16 units))
  | .removeAttribute _ | .removeXmlAttribute _ | .removeXmlAttributeNs _ _ => none

/-! ## What a call does to the records -/

/-- What a call does to the records: the one it hits is rewritten or removed, and without one there
may be a new one under the names that are passed. -/
inductive Does (element : Element) (call : AttributeCall) (records : List AttributeRecord) : Prop
  | hit {pre post : List AttributeRecord} {record : AttributeRecord} :
      element.attributeRecords = pre ++ record :: post → call.touched element = some record →
      records = pre ++ ((call.rewritten record).toList ++ post) → Does element call records
  | miss : call.touched element = none → records = element.attributeRecords →
      Does element call records
  | add {record : AttributeRecord} : call.touched element = none →
      record.names ⊆ call.passed element → records = element.attributeRecords ++ [record] →
      Does element call records

theorem writeRecord_of_hit {found : AttributeRecord → Bool}
    {write : AttributeRecord → AttributeRecord} {new : Option AttributeRecord}
    {records pre post : List AttributeRecord} {record : AttributeRecord}
    (hsplit : records = pre ++ record :: post) (hpre : ∀ other ∈ pre, found other = false)
    (hfound : found record = true) :
    writeRecord found write new records = pre ++ (write record :: post) := by
  subst hsplit
  induction pre with
  | nil => exact if_pos hfound
  | cons other pre ih =>
    rw [List.cons_append, writeRecord, if_neg (Bool.eq_false_iff.mp (hpre other List.mem_cons_self)),
      ih fun other hother => hpre other (List.mem_cons_of_mem _ hother), List.cons_append]

theorem writeRecord_of_miss {found : AttributeRecord → Bool}
    {write : AttributeRecord → AttributeRecord} {new : Option AttributeRecord}
    {records : List AttributeRecord} (hmiss : ∀ other ∈ records, found other = false) :
    writeRecord found write new records = records ++ new.toList := by
  induction records with
  | nil => rfl
  | cons other records ih =>
    rw [writeRecord, if_neg (Bool.eq_false_iff.mp (hmiss other List.mem_cons_self)),
      ih fun other hother => hmiss other (List.mem_cons_of_mem _ hother), List.cons_append]

theorem eraseP_of_hit {found : AttributeRecord → Bool} {records pre post : List AttributeRecord}
    {record : AttributeRecord} (hsplit : records = pre ++ record :: post)
    (hpre : ∀ other ∈ pre, found other = false) (hfound : found record = true) :
    records.eraseP found = pre ++ post := by
  rw [hsplit, List.eraseP_append_right _ fun other hother => Bool.eq_false_iff.mp (hpre other hother),
    List.eraseP_cons_of_pos hfound]

/-- A call passes the names it is said to pass, and does to the records what it is said to do. -/
theorem does_of_perform {element element' : Element} {call : AttributeCall} {names : List Text}
    (h : call.perform element = some (element', names)) :
    names = call.passed element ∧ call.Does element element'.attributeRecords := by
  cases htouched : call.touched element with
  | some record =>
    obtain ⟨hfound, pre, post, hsplit, hpre⟩ := List.find?_eq_some_iff_append.mp htouched
    have hpre' : ∀ other ∈ pre, call.hits element other = false := fun other hother => by
      simpa using hpre other hother
    cases call with
    | setAttributeInternal | setXmlAttributeNsInternal =>
      cases h
      exact ⟨rfl, .hit hsplit htouched (writeRecord_of_hit hsplit hpre' hfound)⟩
    | setAttributeValueNsUtf16 =>
      rw [perform, htouched] at h
      cases h
      exact ⟨rfl, .hit hsplit htouched (writeRecord_of_hit hsplit hpre' hfound)⟩
    | removeAttribute | removeXmlAttribute =>
      cases h
      exact ⟨rfl, .hit hsplit htouched (eraseP_of_hit hsplit hpre' hfound)⟩
    | removeXmlAttributeNs =>
      rw [perform, htouched] at h
      cases h
      refine ⟨?_, .hit hsplit htouched (eraseP_of_hit hsplit hpre' hfound)⟩
      rw [passed, htouched]
      rfl
  | none =>
    have hmiss : ∀ other ∈ element.attributeRecords, call.hits element other = false :=
      fun other hother => Bool.eq_false_iff.mpr (List.find?_eq_none.mp htouched other hother)
    cases call with
    | setAttributeInternal name value =>
      cases h
      refine ⟨rfl, .add htouched (fun name hname => ?_) (writeRecord_of_miss hmiss)⟩
      simpa [AttributeRecord.names, AttributeRecord.new, AttributeRecord.withValue,
        passed] using hname
    | setXmlAttributeNsInternal =>
      cases h
      refine ⟨rfl, .add htouched ?_ (writeRecord_of_miss hmiss)⟩
      exact List.Subset.refl _
    | setAttributeValueNsUtf16 | removeXmlAttributeNs =>
      rw [perform, htouched] at h
      cases h
    | removeAttribute | removeXmlAttribute =>
      cases h
      exact ⟨rfl, .miss htouched (List.eraseP_of_forall_not fun other hother =>
        Bool.eq_false_iff.mp (hmiss other hother))⟩

/-- A call writes attributes and selectedness only. -/
theorem same_of_perform {element element' : Element} {call : AttributeCall} {names : List Text}
    (h : call.perform element = some (element', names)) :
    ∃ attributeRecords selected, element' = { element with attributeRecords, selected } := by
  cases call with
  | setAttributeInternal | setXmlAttributeNsInternal | removeAttribute | removeXmlAttribute =>
    cases h
    exact ⟨_, _, rfl⟩
  | setAttributeValueNsUtf16 | removeXmlAttributeNs =>
    obtain ⟨_, -, heq⟩ := Option.map_eq_some_iff.mp h
    cases heq
    exact ⟨_, _, rfl⟩

/-- An element leads where it led. -/
theorem leads_of_perform {element element' : Element} {call : AttributeCall} {names : List Text}
    (h : call.perform element = some (element', names)) :
    element'.templateContent = element.templateContent ∧ element'.shadowRoot = element.shadowRoot := by
  obtain ⟨_, _, rfl⟩ := same_of_perform h
  exact ⟨rfl, rfl⟩

/-- A call that returns early hits nothing. -/
theorem touched_of_perform_eq_none {element : Element} {call : AttributeCall}
    (h : call.perform element = none) : call.touched element = none := by
  cases call with
  | setAttributeValueNsUtf16 | removeXmlAttributeNs => exact Option.map_eq_none_iff.mp h
  | setAttributeInternal | setXmlAttributeNsInternal | removeAttribute | removeXmlAttribute => cases h

/-! ## What is heard of a call -/

section

variable (relevant : AttributeRecord → Bool) (heard : List Text → Bool)

/-- A call that changes a relevant record passes names that are heard. -/
def Announces (element : Element) (call : AttributeCall) : Prop :=
  ∀ record, call.touched element = some record → relevant record = true →
    call.rewritten record ≠ some record → heard (call.passed element) = true

variable {relevant heard} {element element' : Element} {call : AttributeCall} {names : List Text}

theorem rewritten_names {record record' : AttributeRecord}
    (htouched : call.touched element = some record) (h : call.rewritten record = some record') :
    record'.names = record.names ∨ record'.names ⊆ call.passed element := by
  cases call with
  | setAttributeInternal | setAttributeValueNsUtf16 =>
    cases h
    exact .inl rfl
  | setXmlAttributeNsInternal qualifiedName namespaceUri localName value replaceQualifiedName =>
    cases h
    have hlocal : record.localName = localName := by
      have hfound := List.find?_some htouched
      simp only [hits, AttributeRecord.isNamed, Bool.and_eq_true, beq_iff_eq] at hfound
      exact hfound.2
    cases replaceQualifiedName with
    | false => exact .inl rfl
    | true =>
      refine .inr fun name hname => ?_
      rw [passed, ← hlocal]
      exact hname
  | removeAttribute | removeXmlAttribute | removeXmlAttributeNs => cases h

/-- The relevant records stay unless the call is heard, if it is announced; and no other way. -/
theorem filter_kept_iff (hnames : ∀ record record' : AttributeRecord,
      record'.names = record.names → relevant record' = relevant record)
    (hheard : ∀ (record : AttributeRecord) (names : List Text), record.names ⊆ names →
      relevant record = true → heard names = true)
    (h : call.perform element = some (element', names)) :
    (element'.attributeRecords.filter relevant = element.attributeRecords.filter relevant ∨
      heard names = true) ↔ call.Announces relevant heard element := by
  obtain ⟨rfl, hdoes⟩ := does_of_perform h
  cases hdoes with
  | @hit pre post record hsplit htouched heq =>
    rw [heq, hsplit]
    simp only [List.filter_append, List.filter_cons, List.append_cancel_left_eq]
    constructor
    · rintro (hkept | hheard') record' htouched' hrelevant hchanged
      · rw [htouched] at htouched'
        cases htouched'
        rw [if_pos hrelevant, ← List.singleton_append, List.append_cancel_right_eq] at hkept
        refine (hchanged ?_).elim
        cases hrewritten : call.rewritten record with
        | none => rw [hrewritten] at hkept; cases hkept
        | some record' =>
          rw [hrewritten, Option.toList_some, List.filter_cons, List.filter_nil] at hkept
          split at hkept
          next => rw [List.singleton_inj.mp hkept]
          next => cases hkept
      · exact hheard'
    · intro hannounces
      cases hrelevant : relevant record with
      | true =>
        by_cases hchanged : call.rewritten record = some record
        · refine .inl ?_
          rw [hchanged, Option.toList_some, List.filter_cons, List.filter_nil, if_pos hrelevant]
          rfl
        · exact .inr (hannounces record htouched hrelevant hchanged)
      | false =>
        cases hrewritten : call.rewritten record with
        | none => exact .inl rfl
        | some record' =>
          cases hrelevant' : relevant record' with
          | false =>
            refine .inl ?_
            rw [Option.toList_some, List.filter_cons, List.filter_nil, hrelevant']
            rfl
          | true =>
            refine .inr ?_
            rcases rewritten_names htouched hrewritten with hsame | hsub
            · rw [hnames _ _ hsame, hrelevant] at hrelevant'
              cases hrelevant'
            · exact hheard record' _ hsub hrelevant'
  | miss htouched heq =>
    refine ⟨fun _ record hrecord => ?_, fun _ => .inl (by rw [heq])⟩
    rw [htouched] at hrecord
    cases hrecord
  | @add record htouched hpassed heq =>
    refine ⟨fun _ record hrecord => ?_, fun _ => ?_⟩
    · rw [htouched] at hrecord
      cases hrecord
    · cases hrelevant : relevant record with
      | true => exact .inr (hheard record _ hpassed hrelevant)
      | false =>
        refine .inl ?_
        rw [heq, List.filter_append, List.filter_cons, List.filter_nil, hrelevant]
        exact List.append_nil _

end

end AttributeCall

end Omoikane.Dom.Live
