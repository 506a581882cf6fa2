import Omoikane.Dom.Children

/-!
# The children as a list

`Represents storage entries free` says that the links of a storage run through
the slots of `entries` and that its free slots are those of `free`.  Insertion and
removal are insertion and removal in `entries`.
-/

namespace Omoikane.Dom

open Base

/-! ## Slots -/

/-- The links of a slot that has a node. -/
def Slot.link (slot : Slot) : Option (Link Nat) := slot.node.map fun _ => ⟨slot.previous, slot.next⟩

/-- The free slots from one on. -/
def FreeChain (slots : List Slot) : List Nat → Prop
  | [] => True
  | i :: free => (∃ previous, slots[i]? = some ⟨none, previous, free.head?⟩) ∧ FreeChain slots free

theorem FreeChain.congr {slots slots' : List Slot} {free : List Nat} (h : FreeChain slots free)
    (heq : ∀ i ∈ free, slots'[i]? = slots[i]?) : FreeChain slots' free := by
  induction free with
  | nil => trivial
  | cons i free ih =>
    obtain ⟨⟨previous, hslot⟩, hrest⟩ := h
    refine ⟨⟨previous, (heq i (List.mem_cons_self ..)).trans hslot⟩, ih hrest fun j hj => ?_⟩
    exact heq j (List.mem_cons_of_mem _ hj)

namespace Storage

/-- The links of the slots that have a node. -/
def links (storage : Storage) : Nat → Option (Link Nat) :=
  fun i => storage.slots[i]?.bind Slot.link

variable {storage storage' : Storage}

theorem slot_eq {i : Nat} {link : Link Nat} {node : NodeHandle} (hlink : storage.links i = some link)
    (hnode : storage.node i = some node) :
    storage.slots[i]? = some ⟨some node, link.previous, link.next⟩ := by
  obtain ⟨slot, hslot, hlink⟩ := Option.bind_eq_some_iff.mp hlink
  rw [Storage.node, hslot] at hnode
  have hnode : slot.node = some node := hnode
  obtain ⟨_, _, heq⟩ := Option.map_eq_some_iff.mp hlink
  rw [hslot, ← heq, ← hnode]

/-- A change of the links of one slot, at most. -/
structure Relinked (storage storage' : Storage) (place : Option Nat) : Prop where
  node : storage'.node = storage.node
  length : storage'.slots.length = storage.slots.length
  others : ∀ i, place ≠ some i → storage'.slots[i]? = storage.slots[i]?
  free : storage'.free = storage.free
  len : storage'.len = storage.len

theorem getElem?_set_slot {slot : Nat} {entry new : Slot} (h : storage.slots[slot]? = some entry)
    (i : Nat) : (storage.slots.set slot new)[i]? = if i = slot then some new else storage.slots[i]? := by
  obtain ⟨hlt, -⟩ := List.getElem?_eq_some_iff.mp h
  rw [List.getElem?_set]
  by_cases hi : i = slot
  · rw [hi, if_pos rfl, if_pos rfl, if_pos hlt]
  · rw [if_neg (Ne.symm hi), if_neg hi]

theorem relinked_set {slot : Nat} {entry new : Slot} (h : storage.slots[slot]? = some entry)
    (hnode : new.node = entry.node) :
    Relinked storage { storage with slots := storage.slots.set slot new } (some slot) ∧
      ∀ i, ({ storage with slots := storage.slots.set slot new } : Storage).links i =
        if i = slot then new.link else storage.links i := by
  refine ⟨⟨?_, List.length_set .., fun i hi => ?_, rfl, rfl⟩, fun i => ?_⟩
  · funext i
    show (storage.slots.set slot new)[i]?.bind Slot.node = _
    rw [getElem?_set_slot h]
    split
    next hi =>
      rw [hi, Storage.node, h]
      exact hnode
    next => rfl
  · show (storage.slots.set slot new)[i]? = _
    rw [getElem?_set_slot h, if_neg]
    exact fun heq => hi (congrArg some heq.symm)
  · show (storage.slots.set slot new)[i]?.bind Slot.link = _
    rw [getElem?_set_slot h]
    split <;> rfl

theorem linkPrevious_spec {previous : Option Nat} (next : Option Nat)
    (h : ∀ i, previous = some i → i < storage.slots.length) :
    ∃ storage', storage.linkPrevious previous next = some storage' ∧
      Relinked storage storage' previous ∧
      storage'.links = Link.setNext storage.links previous next ∧
      storage'.first = (if previous = none then next else storage.first) ∧
      storage'.last = storage.last := by
  cases previous with
  | none => exact ⟨_, rfl, ⟨rfl, rfl, fun _ _ => rfl, rfl, rfl⟩, rfl, rfl, rfl⟩
  | some previous =>
    obtain ⟨entry, hslot⟩ : ∃ entry, storage.slots[previous]? = some entry :=
      ⟨_, List.getElem?_eq_getElem (h previous rfl)⟩
    have hnode : ({ entry with next } : Slot).node = entry.node := rfl
    obtain ⟨hrelinked, hlinks⟩ := relinked_set hslot hnode
    refine ⟨_, by rw [linkPrevious, setNext, hslot]; rfl, hrelinked, ?_, rfl, rfl⟩
    funext i
    rw [hlinks, Link.setNext]
    by_cases hi : i = previous
    · rw [if_pos hi, if_pos (congrArg some hi.symm), links, hi, hslot]
      simp [Slot.link, Function.comp_def]
    · rw [if_neg hi, if_neg fun heq => hi (Option.some.inj heq).symm]

theorem linkNext_spec {next : Option Nat} (previous : Option Nat)
    (h : ∀ i, next = some i → i < storage.slots.length) :
    ∃ storage', storage.linkNext next previous = some storage' ∧
      Relinked storage storage' next ∧
      storage'.links = Link.setPrevious storage.links next previous ∧
      storage'.last = (if next = none then previous else storage.last) ∧
      storage'.first = storage.first := by
  cases next with
  | none => exact ⟨_, rfl, ⟨rfl, rfl, fun _ _ => rfl, rfl, rfl⟩, rfl, rfl, rfl⟩
  | some next =>
    obtain ⟨entry, hslot⟩ : ∃ entry, storage.slots[next]? = some entry :=
      ⟨_, List.getElem?_eq_getElem (h next rfl)⟩
    have hnode : ({ entry with previous } : Slot).node = entry.node := rfl
    obtain ⟨hrelinked, hlinks⟩ := relinked_set hslot hnode
    refine ⟨_, by rw [linkNext, setPrevious, hslot]; rfl, hrelinked, ?_, rfl, rfl⟩
    funext i
    rw [hlinks, Link.setPrevious]
    by_cases hi : i = next
    · rw [if_pos hi, if_pos (congrArg some hi.symm), links, hi, hslot]
      simp [Slot.link, Function.comp_def]
    · rw [if_neg hi, if_neg fun heq => hi (Option.some.inj heq).symm]

end Storage

/-! ## The representation -/

/-- The slots of some entries, in order. -/
abbrev slotsOf (entries : List (Nat × NodeHandle)) : List Nat := entries.map Prod.fst

/-- A storage holds the nodes of some entries at their slots, in order, and its
other slots are free. -/
structure Represents (storage : Storage) (entries : List (Nat × NodeHandle)) (free : List Nat) :
    Prop where
  node_iff : ∀ i node, storage.node i = some node ↔ (i, node) ∈ entries
  segment : Link.Segment storage.links none (slotsOf entries) none
  first : storage.first = (slotsOf entries).head?
  last : storage.last = (slotsOf entries).getLast?
  len : storage.len = entries.length
  partition : (slotsOf entries ++ free).Perm (List.range storage.slots.length)
  free_head : storage.free = free.head?
  free_chain : FreeChain storage.slots free

theorem Represents.default : Represents .default [] [] where
  node_iff i node := by simp [Storage.node, Storage.default]
  segment := trivial
  first := rfl
  last := rfl
  len := rfl
  partition := List.Perm.nil
  free_head := rfl
  free_chain := trivial

namespace Represents

variable {storage : Storage} {entries pre post : List (Nat × NodeHandle)} {free : List Nat}

theorem nodup (h : Represents storage entries free) : (slotsOf entries ++ free).Nodup :=
  h.partition.nodup_iff.mpr List.nodup_range

theorem lt_length (h : Represents storage entries free) {i : Nat} :
    i < storage.slots.length ↔ i ∈ slotsOf entries ∨ i ∈ free := by
  rw [← List.mem_append, h.partition.mem_iff, List.mem_range]

/-- An entry was put at a slot that had no node, and `rest` are the slots that stay free. -/
structure Placed (storage : Storage) (entries : List (Nat × NodeHandle)) (index : Nat)
    (entry : Slot) (rest : List Nat) (placed : Storage) : Prop where
  slots : ∀ i, placed.slots[i]? = if i = index then some entry else storage.slots[i]?
  partition : (slotsOf entries ++ index :: rest).Perm (List.range placed.slots.length)
  free_head : placed.free = rest.head?
  free_chain : FreeChain storage.slots rest
  first : placed.first = storage.first
  last : placed.last = storage.last
  len : placed.len = storage.len

/-- A new entry is put at the end of the vector, or at the first free slot. -/
theorem placed (h : Represents storage entries free) (entry : Slot) :
    ∃ index allocated rest, storage.allocate = some (index, allocated) ∧
      Placed storage entries index entry rest (allocated.place index entry) := by
  have hpartition := h.partition
  have hhead := h.free_head
  cases free with
  | nil =>
    have hallocate : storage.allocate = some (storage.slots.length, storage) := by
      rw [Storage.allocate, hhead]
      rfl
    have hplace : (storage.place storage.slots.length entry).slots = storage.slots ++ [entry] :=
      if_pos rfl
    refine ⟨_, _, [], hallocate, fun i => ?_, ?_, hhead, trivial, rfl, rfl, rfl⟩
    · rw [hplace, List.getElem?_append]
      split
      next hlt => rw [if_neg (Nat.ne_of_lt hlt)]
      next hge =>
        by_cases hi : i = storage.slots.length
        · rw [hi, if_pos rfl, Nat.sub_self]
          rfl
        · have hge : storage.slots.length ≤ i := Nat.le_of_not_lt hge
          have hout : [entry].length ≤ i - storage.slots.length := by
            show 1 ≤ i - storage.slots.length
            omega
          rw [if_neg hi, List.getElem?_eq_none hout, List.getElem?_eq_none hge]
    · rw [hplace, List.length_append]
      show List.Perm _ (List.range (storage.slots.length + 1))
      rw [List.range_succ]
      rw [List.append_nil] at hpartition
      exact hpartition.append_right _
  | cons index rest =>
    obtain ⟨⟨previous, hslot⟩, hrest⟩ := h.free_chain
    obtain ⟨hlt, -⟩ := List.getElem?_eq_some_iff.mp hslot
    have hallocate : storage.allocate = some (index, { storage with free := rest.head? }) := by
      rw [Storage.allocate, hhead]
      show storage.slots[index]?.map _ = _
      rw [hslot]
      rfl
    have hplace : (({ storage with free := rest.head? } : Storage).place index entry).slots =
        storage.slots.set index entry := if_neg (Nat.ne_of_lt hlt)
    refine ⟨_, _, rest, hallocate, fun i => ?_, ?_, rfl, hrest, rfl, rfl, rfl⟩
    · rw [hplace]
      exact Storage.getElem?_set_slot hslot i
    · rw [hplace, List.length_set]
      exact hpartition

theorem Placed.spec {storage placed : Storage} {index : Nat} {node : NodeHandle}
    {previous next : Option Nat} {rest : List Nat} (h : Represents storage entries free)
    (hplaced : Placed storage entries index ⟨some node, previous, next⟩ rest placed) :
    index ∉ slotsOf entries ∧
    placed.links = Function.update storage.links index (some ⟨previous, next⟩) ∧
    (∀ i other, placed.node i = some other ↔ (i, other) = (index, node) ∨ (i, other) ∈ entries) ∧
    FreeChain placed.slots rest := by
  have hnodup : (slotsOf entries ++ index :: rest).Nodup :=
    hplaced.partition.nodup_iff.mpr List.nodup_range
  have hfresh : index ∉ slotsOf entries := fun hm =>
    (List.nodup_append.mp hnodup).2.2 index hm index (List.mem_cons_self ..) rfl
  have hindex : index ∉ rest := (List.nodup_cons.mp (List.nodup_append.mp hnodup).2.1).1
  refine ⟨hfresh, ?_, fun i other => ?_, hplaced.free_chain.congr fun i hi => ?_⟩
  · funext i
    rw [Storage.links, hplaced.slots]
    by_cases hi : i = index
    · rw [hi, if_pos rfl, Function.update_self]
      rfl
    · rw [if_neg hi, Function.update_of_ne hi]
      rfl
  · rw [Storage.node, hplaced.slots]
    by_cases hi : i = index
    · rw [hi, if_pos rfl]
      constructor
      · intro hother
        cases hother
        exact Or.inl rfl
      · rintro (heq | hm)
        · cases heq
          rfl
        · exact absurd (List.mem_map_of_mem hm) hfresh
    · rw [if_neg hi]
      refine (h.node_iff i other).trans ⟨Or.inr, fun hor => hor.resolve_left fun heq => ?_⟩
      exact hi (congrArg Prod.fst heq)
  · rw [hplaced.slots, if_neg fun heq : i = index => hindex (heq ▸ hi)]

/-- The neighbors are relinked; the slots of neither are free. -/
theorem relink {storage linked linked' : Storage} {previous next : Option Nat} {rest : List Nat}
    (hchain : FreeChain storage.slots rest) (hprevious : ∀ i ∈ rest, previous ≠ some i)
    (hnext : ∀ i ∈ rest, next ≠ some i) (hfirst : Storage.Relinked storage linked previous)
    (hsecond : Storage.Relinked linked linked' next) :
    linked'.node = storage.node ∧ linked'.slots.length = storage.slots.length ∧
      linked'.free = storage.free ∧ linked'.len = storage.len ∧ FreeChain linked'.slots rest := by
  refine ⟨hsecond.node.trans hfirst.node, hsecond.length.trans hfirst.length,
    hsecond.free.trans hfirst.free, hsecond.len.trans hfirst.len, hchain.congr fun i hi => ?_⟩
  rw [hsecond.others i (hnext i hi), hfirst.others i (hprevious i hi)]

/-- An insertion between two neighbors is an insertion in the list. -/
theorem insertBetween (h : Represents storage (pre ++ post) free) (node : NodeHandle) :
    ∃ index storage' rest,
      storage.insertBetween node (slotsOf pre).getLast? (slotsOf post).head? =
        some (index, storage') ∧
      index ∉ slotsOf (pre ++ post) ∧
      Represents storage' (pre ++ (index, node) :: post) rest := by
  obtain ⟨index, allocated, rest, hallocate, hplaced⟩ :=
    h.placed ⟨some node, (slotsOf pre).getLast?, (slotsOf post).head?⟩
  obtain ⟨hfresh, hlinks, hnode, hchain⟩ := Placed.spec h hplaced
  revert hallocate hplaced hlinks hnode hchain
  generalize hplace : allocated.place index
    ⟨some node, (slotsOf pre).getLast?, (slotsOf post).head?⟩ = placed
  intro hallocate hplaced hlinks hnode hchain
  have hslots : slotsOf (pre ++ post) = slotsOf pre ++ slotsOf post := List.map_append
  have hnodup : (slotsOf (pre ++ post) ++ index :: rest).Nodup :=
    hplaced.partition.nodup_iff.mpr List.nodup_range
  have hlt : ∀ i ∈ slotsOf (pre ++ post), i < placed.slots.length := fun i hi =>
    List.mem_range.mp (hplaced.partition.mem_iff.mp (List.mem_append_left _ hi))
  have hrest : ∀ i ∈ rest, i ∉ slotsOf (pre ++ post) := fun i hi hm =>
    (List.nodup_append.mp hnodup).2.2 i hm i (List.mem_cons_of_mem _ hi) rfl
  -- the neighbors are in the list, so their slots exist and are not free
  have hprevious : ∀ i, (slotsOf pre).getLast? = some i → i ∈ slotsOf (pre ++ post) :=
    fun i hi => hslots ▸ List.mem_append_left _ (List.mem_of_getLast? hi)
  have hnext : ∀ i, (slotsOf post).head? = some i → i ∈ slotsOf (pre ++ post) :=
    fun i hi => hslots ▸ List.mem_append_right _ (List.mem_of_head? hi)
  obtain ⟨linked, hfirstEq, hfirstRelinked, hfirstLinks, hfirst, hlast⟩ :=
    Storage.linkPrevious_spec (some index) fun i hi => hlt i (hprevious i hi)
  obtain ⟨linked', hsecondEq, hsecondRelinked, hsecondLinks, hlast', hfirst'⟩ :=
    Storage.linkNext_spec (some index) fun i hi =>
      hfirstRelinked.length ▸ hlt i (hnext i hi)
  obtain ⟨hnode', hlength, hfree, hlen, hchain'⟩ := relink hchain
    (fun i hi heq => hrest i hi (hprevious i heq)) (fun i hi heq => hrest i hi (hnext i heq))
    hfirstRelinked hsecondRelinked
  refine ⟨index, { linked' with len := linked'.len + 1 }, rest, ?_, hfresh, ?_⟩
  · simp only [Storage.insertBetween, hallocate, hplace, hfirstEq, hsecondEq, Option.bind_eq_bind,
      Option.bind_some, Option.pure_def]
  · have hinsert := (hslots ▸ h.segment).insert (hslots ▸ (List.nodup_append.mp hnodup).1)
      (hslots ▸ hfresh)
    have hnew : slotsOf (pre ++ (index, node) :: post) =
        slotsOf pre ++ index :: slotsOf post := List.map_append
    refine ⟨fun i other => ?_, ?_, ?_, ?_, ?_, ?_, ?_, hchain'⟩
    · show linked'.node i = some other ↔ _
      rw [hnode', hnode, List.mem_append, List.mem_append, List.mem_cons]
      tauto
    · show Link.Segment linked'.links none _ none
      rw [hsecondLinks, hfirstLinks, hlinks, hnew]
      exact hinsert
    · show linked'.first = _
      rw [hfirst', hfirst, hplaced.first, h.first, hnew, hslots]
      cases slotsOf pre <;> simp
    · show linked'.last = _
      rw [hlast', hlast, hplaced.last, h.last, hnew, hslots]
      rcases List.eq_nil_or_concat (slotsOf post) with hnil | ⟨init, last, hconcat⟩
      · rw [hnil]
        simp
      · rw [hconcat]
        simp [List.getLast?_cons]
    · show linked'.len + 1 = _
      rw [hlen, hplaced.len, h.len]
      simp only [List.length_append, List.length_cons]
      omega
    · show List.Perm _ (List.range linked'.slots.length)
      rw [hlength, hnew]
      refine List.Perm.trans ?_ hplaced.partition
      rw [hslots]
      simp only [List.append_assoc, List.cons_append]
      exact (List.perm_middle.symm).append_left _
    · show linked'.free = _
      rw [hfree]
      exact hplaced.free_head

/-- A slot without its node, at the front of the free list. -/
theorem freed {slot : Nat} {entry : Slot} (h : Represents storage entries free)
    (hslot : storage.slots[slot]? = some entry) (hused : slot ∉ free) :
    let freed : Storage := { storage with
      slots := storage.slots.set slot { entry with node := none, next := storage.free }
      free := some slot }
    (∀ i, freed.node i = if i = slot then none else storage.node i) ∧
    freed.links = Function.update storage.links slot none ∧
    FreeChain freed.slots (slot :: free) := by
  intro freed
  have hget : ∀ i, freed.slots[i]? = if i = slot then
      some { entry with node := none, next := storage.free } else storage.slots[i]? :=
    Storage.getElem?_set_slot hslot
  refine ⟨fun i => ?_, ?_, ⟨entry.previous, ?_⟩, h.free_chain.congr fun i hi => ?_⟩
  · rw [Storage.node, hget]
    split <;> rfl
  · funext i
    rw [Storage.links, hget]
    by_cases hi : i = slot
    · rw [hi, if_pos rfl, Function.update_self]
      rfl
    · rw [if_neg hi, Function.update_of_ne hi]
      rfl
  · rw [hget, if_pos rfl, h.free_head]
  · rw [hget, if_neg fun heq : i = slot => hused (heq ▸ hi)]

/-- A removal is a removal in the list, and its slot becomes the first free one. -/
theorem unlink {slot : Nat} {node : NodeHandle}
    (h : Represents storage (pre ++ (slot, node) :: post) free) :
    ∃ entry storage', storage.slots[slot]? = some entry ∧ entry.node = some node ∧
      storage.unlink slot entry = some storage' ∧
      Represents storage' (pre ++ post) (slot :: free) := by
  have hslots : slotsOf (pre ++ (slot, node) :: post) = slotsOf pre ++ slot :: slotsOf post :=
    List.map_append
  have hnew : slotsOf (pre ++ post) = slotsOf pre ++ slotsOf post := List.map_append
  have hnodup := h.nodup
  rw [hslots] at hnodup
  obtain ⟨horder, -, hdisjoint⟩ := List.nodup_append.mp hnodup
  obtain ⟨hlink, hsegment⟩ := (hslots ▸ h.segment).remove horder
  have hslot := Storage.slot_eq hlink
    ((h.node_iff slot node).mpr (List.mem_append_right _ (List.mem_cons_self ..)))
  have hmem : slot ∈ slotsOf pre ++ slot :: slotsOf post :=
    List.mem_append_right _ (List.mem_cons_self ..)
  have hused : slot ∉ free := fun hm => hdisjoint slot hmem slot hm rfl
  obtain ⟨hnode, hlinks, hchain⟩ := h.freed hslot hused
  revert hnode hlinks hchain
  generalize hfreed : ({ storage with
    slots := storage.slots.set slot ⟨none, (slotsOf pre).getLast?, storage.free⟩
    free := some slot } : Storage) = freed
  intro hnode hlinks hchain
  have hlength : freed.slots.length = storage.slots.length := by
    rw [← hfreed]
    exact List.length_set ..
  -- the neighbors stay in the list, so they are neither this slot nor free
  have horder' : (slotsOf pre ++ slotsOf post).Nodup :=
    horder.sublist ((List.sublist_cons_self ..).append_left _)
  have hstays : ∀ i ∈ slotsOf pre ++ slotsOf post, i ∈ slotsOf pre ++ slot :: slotsOf post :=
    fun i hi => ((List.sublist_cons_self ..).append_left _).subset hi
  have hlt : ∀ i ∈ slotsOf pre ++ slotsOf post, i < freed.slots.length := fun i hi =>
    hlength ▸ h.lt_length.mpr (Or.inl (hslots ▸ hstays i hi))
  have hgone : slot ∉ slotsOf pre ++ slotsOf post :=
    (List.nodup_cons.mp (List.perm_middle.nodup_iff.mp horder)).1
  have hfree : ∀ i ∈ slot :: free, i ∉ slotsOf pre ++ slotsOf post := by
    intro i hi hm
    rcases List.mem_cons.mp hi with rfl | hi
    · exact hgone hm
    · exact hdisjoint i (hstays i hm) i hi rfl
  have hprevious : ∀ i, (slotsOf pre).getLast? = some i → i ∈ slotsOf pre ++ slotsOf post :=
    fun i hi => List.mem_append_left _ (List.mem_of_getLast? hi)
  have hnext : ∀ i, (slotsOf post).head? = some i → i ∈ slotsOf pre ++ slotsOf post :=
    fun i hi => List.mem_append_right _ (List.mem_of_head? hi)
  obtain ⟨linked, hfirstEq, hfirstRelinked, hfirstLinks, hfirst, hlast⟩ :=
    Storage.linkPrevious_spec (slotsOf post).head? fun i hi => hlt i (hprevious i hi)
  obtain ⟨linked', hsecondEq, hsecondRelinked, hsecondLinks, hlast', hfirst'⟩ :=
    Storage.linkNext_spec (slotsOf pre).getLast? fun i hi =>
      hfirstRelinked.length ▸ hlt i (hnext i hi)
  obtain ⟨hnode', hlength', hfree', hlen, hchain'⟩ := relink hchain
    (fun i hi heq => hfree i hi (hprevious i heq)) (fun i hi heq => hfree i hi (hnext i heq))
    hfirstRelinked hsecondRelinked
  refine ⟨_, { linked' with len := linked'.len - 1 }, hslot, rfl, ?_, ?_⟩
  · simp only [Storage.unlink, hfreed, hfirstEq, hsecondEq, Option.bind_eq_bind,
      Option.bind_some, Option.pure_def]
  · have hstorageFirst : freed.first = storage.first := by rw [← hfreed]
    have hstorageLast : freed.last = storage.last := by rw [← hfreed]
    have hstorageLen : freed.len = storage.len := by rw [← hfreed]
    have hstorageFree : freed.free = some slot := by rw [← hfreed]
    refine ⟨fun i other => ?_, ?_, ?_, ?_, ?_, ?_, hfree'.trans hstorageFree, hchain'⟩
    · show linked'.node i = some other ↔ _
      rw [hnode', hnode]
      by_cases hi : i = slot
      · rw [if_pos hi, hi]
        refine ⟨nofun, fun hm => absurd ?_ hgone⟩
        rw [← hnew]
        exact List.mem_map_of_mem hm
      · rw [if_neg hi, h.node_iff, List.mem_append, List.mem_append, List.mem_cons]
        have hne : (i, other) ≠ (slot, node) := fun heq => hi (congrArg Prod.fst heq)
        tauto
    · show Link.Segment linked'.links none _ none
      rw [hsecondLinks, hfirstLinks, hlinks, hnew]
      exact hsegment
    · show linked'.first = _
      rw [hfirst', hfirst, hstorageFirst, h.first, hslots, hnew]
      cases slotsOf pre <;> simp
    · show linked'.last = _
      rw [hlast', hlast, hstorageLast, h.last, hslots, hnew]
      rcases List.eq_nil_or_concat (slotsOf post) with hnil | ⟨init, last, hconcat⟩
      · rw [hnil]
        simp
      · rw [hconcat]
        simp [List.getLast?_cons]
    · show linked'.len - 1 = _
      rw [hlen, hstorageLen, h.len]
      simp only [List.length_append, List.length_cons]
      omega
    · show List.Perm _ (List.range linked'.slots.length)
      rw [hlength', hlength, hnew]
      refine List.Perm.trans ?_ h.partition
      rw [hslots]
      simp only [List.append_assoc, List.cons_append]
      exact (List.perm_middle).append_left _

end Represents

end Omoikane.Dom
