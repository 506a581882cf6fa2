import Omoikane.Dom.Live.Mutations

/-!
# Live collections

A live collection keeps its members for as long as the epoch of its attribute mask stays.  The epoch
stays only while no link changes.  An attribute that the mask selects may change behind its back: a
call passes some names to `invalidate_for_attribute`, and the attribute that it changes may be
tracked under the other name only.  `Mutation.Announced` rules that out, and no less
(`total_lt_or_unchanged_iff`); in a run of announced calls nothing changes that the epoch is for
(`live_collection_epoch_sound`).
-/

namespace Omoikane.Dom.Live

open Base

/-- A collection with this mask depends on an attribute. -/
def selected (mask : Option (BitVec 32)) (record : AttributeRecord) : Bool :=
  Epochs.hears mask record.names

/-- No link changed, and no attribute that a mask selects was added, removed or changed. -/
structure Unchanged (mask : Option (BitVec 32)) (dom dom' : Documents) : Prop where
  parentNode : ∀ node < dom.nextId, dom'.parentNode node = dom.parentNode node
  childNodes : ∀ node < dom.nextId, dom'.childNodes node = dom.childNodes node
  attributes : ∀ node < dom.nextId,
    (dom'.records node).filter (selected mask) = (dom.records node).filter (selected mask)

/-- A call that changes an attribute that a mask selects passes a name by which it is selected. -/
def Mutation.Announced (mask : Option (BitVec 32)) (dom : Documents) : Mutation → Prop
  | .attributes node call => ∀ element, dom.data node = .element element →
      call.Announces (selected mask) (Epochs.hears mask) element
  | _ => True

variable {mask : Option (BitVec 32)} {dom dom' : Documents} {mutation : Mutation}

theorem Documents.Keeps.unchanged (h : dom.Keeps dom') : Unchanged mask dom dom' where
  parentNode node hnode := by
    rw [Documents.parentNode, LinkedNodes.parentNode, h.links node hnode]
    rfl
  childNodes node hnode := by
    rw [Documents.childNodes, LinkedNodes.childNodes, h.links node hnode]
    rfl
  attributes node hnode := by rw [h.records node hnode]

theorem hears_mono {names names' : List Text} (hnames : names ⊆ names')
    (h : Epochs.hears mask names = true) : Epochs.hears mask names' = true := by
  cases mask with
  | none => rfl
  | some mask =>
    simp only [Epochs.hears, tracks, List.any_eq_true, Bool.and_eq_true] at h ⊢
    obtain ⟨index, hindex, hselects, name, hname, hequal⟩ := h
    exact ⟨index, hindex, hselects, name, hnames hname, hequal⟩

theorem selected_congr (record record' : AttributeRecord) (h : record'.names = record.names) :
    selected mask record' = selected mask record := by
  rw [selected, selected, h]

theorem Mutation.Ends.le (h : mutation.Ends dom dom') : dom.epochs.Le dom'.epochs := by
  cases Mutation.did_of_ends h with
  | keeps hkeeps => exact hkeeps.epochs
  | moves _ hmoves => exact hmoves.le
  | attributes _ _ hepochs _ _ _ => exact Epochs.invalidateForAttribute_le hepochs

/-- No epoch goes back in a run. -/
theorem Steps.le {steps : List Step} (h : Steps dom steps dom') : dom.epochs.Le dom'.epochs := by
  induction h with
  | nil => exact .refl
  | @cons step _ _ _ ih => exact step.ends.le.trans ih

/-- An announced call advances the epoch of a mask or changes nothing that the epoch is for, and one
that is not announced does neither. -/
theorem total_lt_or_unchanged_iff (h : mutation.Ends dom dom') :
    (dom.epochs.total mask < dom'.epochs.total mask ∨ Unchanged mask dom dom') ↔
      mutation.Announced mask dom := by
  have hdid := Mutation.did_of_ends h
  cases hdid with
  | keeps hkeeps hsilent =>
    refine ⟨fun _ => ?_, fun _ => .inr hkeeps.unchanged⟩
    cases mutation with
    | attributes node call =>
      intro element helement record htouched
      have hnone := hsilent node call element rfl helement
      rw [AttributeCall.touched_of_perform_eq_none hnone] at htouched
      cases htouched
    | _ => trivial
  | moves _ hmoves => exact ⟨fun _ => trivial, fun _ => .inl (hmoves.total_lt mask)⟩
  | @attributes node call element element' names _ helement hperform hepochs _ hlinks hdata =>
    have hkept := AttributeCall.filter_kept_iff (@selected_congr mask)
      (fun record names => hears_mono) hperform
    have hafter : dom'.records node = element'.attributeRecords :=
      Documents.records_of_element (by rw [hdata, Documents.setData_self])
    rw [Epochs.total_lt_iff hepochs]
    constructor
    · intro hor element'' helement''
      rw [helement] at helement''
      cases helement''
      refine hkept.mp (hor.symm.imp_left fun hunchanged => ?_)
      have hnode := hunchanged.attributes node (h.1 node (List.mem_singleton_self _))
      rwa [Documents.records_of_element helement, hafter] at hnode
    · intro hannounced
      refine (hkept.mpr (hannounced element helement)).symm.imp_right fun hfilter =>
        ⟨fun _ _ => ?_, fun _ _ => ?_, fun other _ => ?_⟩
      · rw [Documents.parentNode, hlinks, ← Documents.parentNode]
      · rw [Documents.childNodes, hlinks, ← Documents.childNodes]
      · by_cases hother : other = node
        · rw [hother, Documents.records_of_element helement, hafter]
          exact hfilter
        · have hsame : dom'.data other = dom.data other := by
            rw [hdata, Documents.setData_of_ne _ hother]
          rw [Documents.records_congr hsame]

/-- Where the epoch of a mask is the same at two points of a run of announced calls, no link changed
in between, and no attribute that the mask selects was added, removed or changed. -/
theorem live_collection_epoch_sound {steps : List Step} {epoch : Nat} (hrun : Steps dom steps dom')
    (hannounced : ∀ step ∈ steps, step.mutation.Announced mask step.before)
    (hstart : dom.epochs.liveCollectionEpoch mask = some epoch)
    (hend : dom'.epochs.liveCollectionEpoch mask = some epoch) :
    ∀ step ∈ steps, Unchanged mask step.before step.after := by
  have hle : dom'.epochs.total mask ≤ dom.epochs.total mask := by
    rw [← Epochs.liveCollectionEpoch_eq hstart, ← Epochs.liveCollectionEpoch_eq hend]
  clear hstart hend
  induction hrun with
  | nil => exact fun step hmem => by cases hmem
  | @cons first steps dom' hrest ih =>
    have hfirst := first.ends.le.total_le mask
    have hsteps := hrest.le.total_le mask
    intro step hmem
    rcases List.mem_cons.mp hmem with rfl | hmem
    · refine ((total_lt_or_unchanged_iff step.ends).mpr
        (hannounced step List.mem_cons_self)).resolve_left ?_
      omega
    · exact ih (fun step hmem => hannounced step (List.mem_cons_of_mem _ hmem)) (by omega) step hmem

/-- An element has a class, by an attribute in a namespace. -/
def prefixedClass : List Mutation :=
  [.create (.element (.newXml "x".toList none)),
    .attributes 0 (.setXmlAttributeNs "p:class".toList (some "urn".toList) "class".toList "a".toList)]

/-- An attribute that is not tracked is set. -/
theorem live_collection_epoch_sound_id : ∃ steps dom',
    Steps (.after 0 prefixedClass) steps dom' ∧
      steps.map Step.mutation = [.attributes 0 (.setAttribute "id".toList [])] ∧
      ∀ step ∈ steps, Unchanged (some 1#32) step.before step.after := by
  let step : Step := {
    before := .after 0 prefixedClass
    mutation := .attributes 0 (.setAttribute "id".toList [])
    after := .after 0 (prefixedClass ++ [.attributes 0 (.setAttribute "id".toList [])])
    ends := ⟨by decide, 0, rfl⟩ }
  have hsteps : Steps (.after 0 prefixedClass) [step] step.after := @Steps.cons step _ _ .nil
  refine ⟨[step], _, hsteps, rfl, live_collection_epoch_sound hsteps (fun other hmem => ?_) rfl rfl⟩
  cases List.mem_singleton.mp hmem
  intro element helement record htouched
  cases helement
  cases htouched

/-- The value of an attribute changes whose local name is `class`, by a call that names it as it is
qualified. -/
theorem live_collection_epoch_unsound : ∃ steps dom dom' epoch,
    dom.Reachable ∧ Steps dom steps dom' ∧
      dom.epochs.liveCollectionEpoch (some 1#32) = some epoch ∧
      dom'.epochs.liveCollectionEpoch (some 1#32) = some epoch ∧
      dom.records 0 = [⟨none, "p:class".toList, some "urn".toList, "class".toList, "a".toList⟩] ∧
      dom'.records 0 = [⟨none, "p:class".toList, some "urn".toList, "class".toList, "b".toList⟩] ∧
      ¬ ∀ step ∈ steps, Unchanged (some 1#32) step.before step.after := by
  let step : Step := {
    before := .after 0 prefixedClass
    mutation := .attributes 0 (.setAttribute "p:class".toList "b".toList)
    after := .after 0 (prefixedClass ++ [.attributes 0 (.setAttribute "p:class".toList "b".toList)])
    ends := ⟨by decide, 0, rfl⟩ }
  obtain ⟨before, hbefore, -⟩ := @Steps.of_performAll 0 prefixedClass .initial step.before rfl
  refine ⟨[step], step.before, step.after, 1, ⟨before, hbefore⟩, @Steps.cons step _ _ .nil, rfl, rfl,
    by decide, by decide, fun hunchanged => ?_⟩
  have hattributes := (hunchanged step (List.mem_singleton_self _)).attributes 0 (by decide)
  revert hattributes
  decide

end Omoikane.Dom.Live
