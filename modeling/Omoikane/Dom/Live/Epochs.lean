import Omoikane.Base.Text
import Omoikane.Dom.LinkedNodes

/-!
# Mutation epochs

Counters of the mutations of all documents of a thread.  A change of the tree advances three of
them, a change of an attribute those that listen to one of the names it is announced under.  A
counter that is exhausted panics, and then an operation returns `none`.
-/

namespace Omoikane.Dom.Live

open Base

/-- `advance_epoch`. -/
def advanceEpoch (epoch : Nat) : Option Nat := nextRevision epoch

/-- `checked_add` on `u64`. -/
def checkedAdd (a b : Nat) : Option Nat := if a + b < 2 ^ 64 then some (a + b) else none

/-- `TRACKED_COLLECTION_ATTRIBUTES`. -/
def trackedCollectionAttributes : Fin 3 → Text :=
  ![("class".toList), ("href".toList), ("name".toList)]

/-- Whether one of some names is that of a tracked attribute. -/
def tracks (index : Fin 3) (names : List Text) : Bool :=
  names.any (Text.eqIgnoreAsciiCase · (trackedCollectionAttributes index))

/-- Whether a mask has the bit of a tracked attribute. -/
def selects (mask : BitVec 32) (index : Fin 3) : Bool := mask &&& (1#32 <<< index.val) ≠ 0

/-- The attributes that change slot assignment. -/
def assigns (name : Text) : Bool := name == "slot".toList || name == "name".toList

structure Epochs where
  slotAssignment : Nat
  liveCollection : Nat
  treeCollection : Nat
  trackedAttribute : Fin 3 → Nat

namespace Epochs

variable (epochs : Epochs)

/-- `invalidate_slot_assignments`. -/
def invalidateSlotAssignments : Option Epochs := do
  let slotAssignment ← advanceEpoch epochs.slotAssignment
  let treeCollection ← advanceEpoch epochs.treeCollection
  let liveCollection ← advanceEpoch epochs.liveCollection
  return { epochs with slotAssignment, treeCollection, liveCollection }

/-- The loop of `invalidate_for_attribute` over the tracked attributes. -/
def advanceTracked (names : List Text) : List (Fin 3) → Epochs → Option Epochs
  | [], epochs => some epochs
  | index :: indices, epochs => do
    if tracks index names then
      let epoch ← advanceEpoch (epochs.trackedAttribute index)
      advanceTracked names indices { epochs with
        trackedAttribute := Function.update epochs.trackedAttribute index epoch }
    else advanceTracked names indices epochs

/-- `invalidate_for_attribute`. -/
def invalidateForAttribute (names : List Text) : Option Epochs := do
  let slotAssignment ←
    (if names.any assigns then advanceEpoch epochs.slotAssignment else some epochs.slotAssignment)
  let liveCollection ← advanceEpoch epochs.liveCollection
  advanceTracked names (List.finRange 3) { epochs with slotAssignment, liveCollection }

/-- `live_collection_epoch`. -/
def liveCollectionEpoch (attributeMask : Option (BitVec 32)) : Option Nat :=
  match attributeMask with
  | none => some epochs.liveCollection
  | some mask =>
    ((List.finRange 3).filter (selects mask)).foldlM
      (fun sum index => checkedAdd sum (epochs.trackedAttribute index)) epochs.treeCollection

/-! ## What the counters do -/

/-- Some counters are at least as far as others. -/
structure Le (epochs epochs' : Epochs) : Prop where
  slotAssignment : epochs.slotAssignment ≤ epochs'.slotAssignment
  liveCollection : epochs.liveCollection ≤ epochs'.liveCollection
  treeCollection : epochs.treeCollection ≤ epochs'.treeCollection
  trackedAttribute : ∀ index, epochs.trackedAttribute index ≤ epochs'.trackedAttribute index

variable {epochs} {epochs' : Epochs}

theorem Le.refl : Le epochs epochs := ⟨le_rfl, le_rfl, le_rfl, fun _ => le_rfl⟩

theorem Le.trans {epochs'' : Epochs} (h : Le epochs epochs') (h' : Le epochs' epochs'') :
    Le epochs epochs'' :=
  ⟨h.1.trans h'.1, h.2.trans h'.2, h.3.trans h'.3, fun index => (h.4 index).trans (h'.4 index)⟩

theorem advanceEpoch_eq {epoch epoch' : Nat} (h : advanceEpoch epoch = some epoch') :
    epoch' = epoch + 1 := by
  unfold advanceEpoch nextRevision at h
  split at h
  next => exact (Option.some.inj h).symm
  next => cases h

theorem invalidateSlotAssignments_eq (h : epochs.invalidateSlotAssignments = some epochs') :
    epochs' = { epochs with
      slotAssignment := epochs.slotAssignment + 1
      liveCollection := epochs.liveCollection + 1
      treeCollection := epochs.treeCollection + 1 } := by
  obtain ⟨slotAssignment, hslot, h⟩ := Option.bind_eq_some_iff.mp h
  obtain ⟨treeCollection, htree, h⟩ := Option.bind_eq_some_iff.mp h
  obtain ⟨liveCollection, hlive, h⟩ := Option.bind_eq_some_iff.mp h
  cases h
  rw [advanceEpoch_eq hslot, advanceEpoch_eq htree, advanceEpoch_eq hlive]

/-- Each tracked attribute of a list without repetitions is advanced if it is heard. -/
theorem advanceTracked_eq {names : List Text} {indices : List (Fin 3)} {epochs epochs' : Epochs}
    (hnodup : indices.Nodup) (h : advanceTracked names indices epochs = some epochs') :
    epochs' = { epochs with trackedAttribute := fun index => epochs.trackedAttribute index +
      if index ∈ indices ∧ tracks index names = true then 1 else 0 } := by
  induction indices generalizing epochs with
  | nil =>
    cases h
    simp
  | cons index indices ih =>
    obtain ⟨hnew, hnodup⟩ := List.nodup_cons.mp hnodup
    rw [advanceTracked] at h
    cases htracks : tracks index names with
    | false =>
      rw [htracks, if_neg Bool.false_ne_true] at h
      rw [ih hnodup h]
      congr 1
      funext other
      by_cases hother : other = index
      · rw [hother, htracks, if_neg (by simp), if_neg (by simp)]
      · simp [hother]
    | true =>
      rw [htracks, if_pos rfl] at h
      obtain ⟨epoch, hepoch, h⟩ := Option.bind_eq_some_iff.mp h
      rw [ih hnodup h, advanceEpoch_eq hepoch]
      congr 1
      funext other
      by_cases hother : other = index
      · simp [hother, htracks, hnew]
      · simp [hother]

theorem invalidateForAttribute_eq {names : List Text}
    (h : epochs.invalidateForAttribute names = some epochs') :
    epochs' = { epochs with
      slotAssignment := epochs.slotAssignment + if names.any assigns then 1 else 0
      liveCollection := epochs.liveCollection + 1
      trackedAttribute := fun index =>
        epochs.trackedAttribute index + if tracks index names then 1 else 0 } := by
  obtain ⟨slotAssignment, hslot, h⟩ := Option.bind_eq_some_iff.mp h
  obtain ⟨liveCollection, hlive, h⟩ := Option.bind_eq_some_iff.mp h
  rw [advanceTracked_eq (List.nodup_finRange 3) h, advanceEpoch_eq hlive]
  have hslot' : slotAssignment = epochs.slotAssignment + if names.any assigns then 1 else 0 := by
    split at hslot
    next hassigns => rw [if_pos hassigns, advanceEpoch_eq hslot]
    next hassigns => rw [if_neg hassigns, ← Option.some.inj hslot, Nat.add_zero]
  simp [hslot', List.mem_finRange]

/-! ## The epoch of a collection -/

theorem foldlM_checkedAdd {α : Type} {f : α → Nat} : ∀ {items : List α} {start total : Nat},
    items.foldlM (fun sum item => checkedAdd sum (f item)) start = some total →
      total = start + (items.map f).sum
  | [], start, total, h => by
    cases h
    rfl
  | item :: items, start, total, h => by
    rw [List.foldlM_cons] at h
    obtain ⟨sum, hsum, h⟩ := Option.bind_eq_some_iff.mp h
    unfold checkedAdd at hsum
    split at hsum
    next =>
      rw [foldlM_checkedAdd h, ← Option.some.inj hsum, List.map_cons, List.sum_cons, Nat.add_assoc]
    next => cases hsum

/-- Whether a change announced under some names is in the epoch of a collection. -/
def hears (attributeMask : Option (BitVec 32)) (names : List Text) : Bool :=
  match attributeMask with
  | none => true
  | some mask => (List.finRange 3).any fun index => selects mask index && tracks index names

/-- `live_collection_epoch` where it does not overflow. -/
def total (attributeMask : Option (BitVec 32)) (epochs : Epochs) : Nat :=
  match attributeMask with
  | none => epochs.liveCollection
  | some mask => epochs.treeCollection +
      (((List.finRange 3).filter (selects mask)).map epochs.trackedAttribute).sum

theorem liveCollectionEpoch_eq {attributeMask : Option (BitVec 32)} {epoch : Nat}
    (h : epochs.liveCollectionEpoch attributeMask = some epoch) :
    epoch = epochs.total attributeMask := by
  cases attributeMask with
  | none => exact (Option.some.inj h).symm
  | some mask => exact foldlM_checkedAdd h

theorem Le.total_le (h : Le epochs epochs') (attributeMask : Option (BitVec 32)) :
    epochs.total attributeMask ≤ epochs'.total attributeMask := by
  cases attributeMask with
  | none => exact h.liveCollection
  | some mask =>
    exact Nat.add_le_add h.treeCollection
      (List.sum_le_sum fun index _ => h.trackedAttribute index)

theorem invalidateSlotAssignments_le (h : epochs.invalidateSlotAssignments = some epochs') :
    Le epochs epochs' := by
  rw [invalidateSlotAssignments_eq h]
  exact ⟨Nat.le_succ _, Nat.le_succ _, Nat.le_succ _, fun _ => le_rfl⟩

theorem invalidateForAttribute_le {names : List Text}
    (h : epochs.invalidateForAttribute names = some epochs') : Le epochs epochs' := by
  rw [invalidateForAttribute_eq h]
  exact ⟨Nat.le_add_right .., Nat.le_succ _, le_rfl, fun _ => Nat.le_add_right ..⟩

/-- A change of the tree is in the epoch of every collection. -/
theorem total_lt_of_invalidateSlotAssignments (h : epochs.invalidateSlotAssignments = some epochs')
    (attributeMask : Option (BitVec 32)) :
    epochs.total attributeMask < epochs'.total attributeMask := by
  rw [invalidateSlotAssignments_eq h]
  cases attributeMask with
  | none => exact Nat.lt_succ_self _
  | some mask => exact Nat.add_lt_add_right (Nat.lt_succ_self _) _

/-- A change of an attribute is in the epochs of the collections that hear it, and of no other. -/
theorem total_lt_iff {names : List Text} (h : epochs.invalidateForAttribute names = some epochs')
    (attributeMask : Option (BitVec 32)) :
    epochs.total attributeMask < epochs'.total attributeMask ↔ hears attributeMask names = true := by
  rw [invalidateForAttribute_eq h]
  cases attributeMask with
  | none => exact ⟨fun _ => rfl, fun _ => Nat.lt_succ_self _⟩
  | some mask =>
    have hsum : ∀ indices : List (Fin 3),
        (indices.map fun index => epochs.trackedAttribute index +
          if tracks index names = true then 1 else 0).sum =
        (indices.map epochs.trackedAttribute).sum + indices.countP (tracks · names) := by
      intro indices
      induction indices with
      | nil => rfl
      | cons index indices ih =>
        rw [List.map_cons, List.sum_cons, ih, List.map_cons, List.sum_cons, List.countP_cons]
        omega
    have htotal : ∀ a b c : Nat, a + b < a + (b + c) ↔ 0 < c := by omega
    rw [total, total, hsum, htotal, List.countP_pos_iff, hears, List.any_eq_true]
    simp only [List.mem_filter, Bool.and_eq_true, and_assoc]

end Epochs

end Omoikane.Dom.Live
