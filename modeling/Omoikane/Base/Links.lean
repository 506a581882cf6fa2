import Mathlib

/-!
# Doubly linked lists

The links of a doubly linked list are a partial function from places to the
places before and after.  `Segment links before order after` says that they run
through `order`, from the place before it to the place after it.  A place is put
in with `Segment.insert` and taken out with `Segment.remove`; both change the
links of a neighbor only where there is one, as an implementation does.
-/

namespace Base

variable {ι : Type}

/-- The places before and after a place. -/
structure Link (ι : Type) where
  previous : Option ι
  next : Option ι
deriving DecidableEq, Repr

namespace Link

variable {links links' : ι → Option (Link ι)} {before after : Option ι} {order pre post : List ι}

/-- The links run through some places. -/
def Segment (links : ι → Option (Link ι)) : Option ι → List ι → Option ι → Prop
  | _, [], _ => True
  | before, i :: order, after =>
    links i = some ⟨before, order.head?.or after⟩ ∧ Segment links (some i) order after

theorem head?_append_or (xs ys : List ι) (after : Option ι) :
    (xs ++ ys).head?.or after = xs.head?.or (ys.head?.or after) := by
  rw [List.head?_append, Option.or_assoc]

/-- Two segments that meet are one. -/
theorem segment_append : Segment links before (pre ++ post) after ↔
    Segment links before pre (post.head?.or after) ∧
      Segment links (pre.getLast?.or before) post after := by
  induction pre generalizing before with
  | nil => exact ⟨fun h => ⟨trivial, h⟩, fun h => h.2⟩
  | cons i pre ih =>
    have hlast : (i :: pre).getLast?.or before = pre.getLast?.or (some i) := by
      rw [List.getLast?_cons]
      cases pre.getLast? <;> rfl
    rw [List.cons_append, Segment, Segment, ih, head?_append_or, hlast, and_assoc]

/-- Only the links of its places matter to a segment. -/
theorem Segment.congr (h : Segment links before order after)
    (heq : ∀ i ∈ order, links' i = links i) : Segment links' before order after := by
  induction order generalizing before with
  | nil => trivial
  | cons i order ih =>
    refine ⟨(heq i (List.mem_cons_self ..)).trans h.1, ih h.2 fun j hj => ?_⟩
    exact heq j (List.mem_cons_of_mem _ hj)

/-- The last place of a segment. -/
theorem Segment.last {i : ι} (h : Segment links before (pre ++ [i]) after) :
    Segment links before pre (some i) ∧ links i = some ⟨pre.getLast?.or before, after⟩ := by
  obtain ⟨hpre, hlast, -⟩ := segment_append.mp h
  exact ⟨hpre, hlast⟩

theorem getLast?_ne_of_not_mem {i : ι} (h : i ∉ pre) : pre.getLast? ≠ some i :=
  fun heq => h (List.mem_of_getLast? heq)

theorem head?_ne_of_not_mem {i : ι} (h : i ∉ post) : post.head? ≠ some i :=
  fun heq => h (List.mem_of_head? heq)

variable [DecidableEq ι]

/-- The link to the next place is changed, where there is a place. -/
def setNext (links : ι → Option (Link ι)) (place next : Option ι) : ι → Option (Link ι) :=
  fun i => if place = some i then (links i).map fun link => { link with next } else links i

/-- The link to the previous place is changed, where there is a place. -/
def setPrevious (links : ι → Option (Link ι)) (place previous : Option ι) : ι → Option (Link ι) :=
  fun i => if place = some i then (links i).map fun link => { link with previous } else links i

theorem setNext_of_ne {place next : Option ι} {i : ι} (h : place ≠ some i) :
    setNext links place next i = links i := if_neg h

theorem setPrevious_of_ne {place previous : Option ι} {i : ι} (h : place ≠ some i) :
    setPrevious links place previous i = links i := if_neg h

/-- A segment that leads to another place. -/
theorem Segment.setNext (h : Segment links before order after) (hnodup : order.Nodup)
    (next : Option ι) :
    Segment (setNext links order.getLast? next) before order next := by
  rcases List.eq_nil_or_concat order with rfl | ⟨pre, i, rfl⟩
  · trivial
  · rw [List.concat_eq_append] at h hnodup ⊢
    obtain ⟨hpre, hlast⟩ := h.last
    rw [List.getLast?_concat]
    refine segment_append.mpr ⟨hpre.congr fun j hj => setNext_of_ne ?_, ?_, trivial⟩
    · rintro heq
      cases heq
      have hdisjoint := (List.nodup_append.mp hnodup).2.2
      exact hdisjoint i hj i (List.mem_singleton_self i) rfl
    · rw [Link.setNext, if_pos rfl, hlast]
      rfl

/-- A segment that is reached from another place. -/
theorem Segment.setPrevious (h : Segment links before order after) (hnodup : order.Nodup)
    (previous : Option ι) :
    Segment (setPrevious links order.head? previous) previous order after := by
  cases order with
  | nil => trivial
  | cons i order =>
    refine ⟨?_, h.2.congr fun j hj => setPrevious_of_ne ?_⟩
    · rw [Link.setPrevious, List.head?_cons, if_pos rfl, h.1]
      rfl
    · rw [List.head?_cons]
      rintro heq
      cases heq
      exact (List.nodup_cons.mp hnodup).1 hj

/-- A place put between two segments. -/
theorem Segment.insert {i : ι} (h : Segment links none (pre ++ post) none)
    (hnodup : (pre ++ post).Nodup) (hfresh : i ∉ pre ++ post) :
    Segment (Link.setPrevious (Link.setNext
        (Function.update links i (some ⟨pre.getLast?, post.head?⟩)) pre.getLast? (some i))
      post.head? (some i)) none (pre ++ i :: post) none := by
  obtain ⟨hpreNodup, hpostNodup, hdisjoint⟩ := List.nodup_append.mp hnodup
  obtain ⟨hpre, hpost⟩ := segment_append.mp h
  rw [List.mem_append, not_or] at hfresh
  rw [Option.or_none] at hpre hpost
  refine segment_append.mpr ⟨?_, ?_, ?_⟩
  · have hset := (hpre.setNext hpreNodup (some i))
    refine hset.congr fun j hj => ?_
    have hne : j ≠ i := fun heq => hfresh.1 (heq ▸ hj)
    rw [setPrevious_of_ne (head?_ne_of_not_mem fun hm => hdisjoint j hj j hm rfl)]
    simp only [Link.setNext, Function.update_of_ne hne]
  · rw [setPrevious_of_ne (head?_ne_of_not_mem hfresh.2),
      setNext_of_ne (getLast?_ne_of_not_mem hfresh.1), Function.update_self, Option.or_none,
      Option.or_none]
  · have hset := hpost.setPrevious hpostNodup (some i)
    refine hset.congr fun j hj => ?_
    have hne : j ≠ i := fun heq => hfresh.2 (heq ▸ hj)
    have hlast : pre.getLast? ≠ some j :=
      getLast?_ne_of_not_mem fun hm => hdisjoint j hm j hj rfl
    simp only [Link.setPrevious, Link.setNext, if_neg hlast, Function.update_of_ne hne]

/-- A place taken out from between two segments. -/
theorem Segment.remove {i : ι} (h : Segment links none (pre ++ i :: post) none)
    (hnodup : (pre ++ i :: post).Nodup) :
    links i = some ⟨pre.getLast?, post.head?⟩ ∧
    Segment (Link.setPrevious (Link.setNext (Function.update links i none) pre.getLast?
      post.head?) post.head? pre.getLast?) none (pre ++ post) none := by
  obtain ⟨hpreNodup, hrestNodup, hdisjoint⟩ := List.nodup_append.mp hnodup
  obtain ⟨hi, hpostNodup⟩ := List.nodup_cons.mp hrestNodup
  obtain ⟨hpre, hlink, hpost⟩ := segment_append.mp h
  rw [Option.or_none] at hlink
  rw [Option.or_none] at hlink
  have hdisjoint' : ∀ j ∈ pre, j ∉ post := fun j hj hm =>
    hdisjoint j hj j (List.mem_cons_of_mem _ hm) rfl
  have hipre : i ∉ pre := fun hm => hdisjoint i hm i (List.mem_cons_self ..) rfl
  refine ⟨hlink, segment_append.mpr ⟨?_, ?_⟩⟩
  · rw [Option.or_none]
    refine (hpre.setNext hpreNodup post.head?).congr fun j hj => ?_
    have hne : j ≠ i := fun heq => hipre (heq ▸ hj)
    rw [setPrevious_of_ne (head?_ne_of_not_mem (hdisjoint' j hj))]
    simp only [Link.setNext, Function.update_of_ne hne]
  · rw [Option.or_none]
    refine (hpost.setPrevious hpostNodup pre.getLast?).congr fun j hj => ?_
    have hne : j ≠ i := fun heq => hi (heq ▸ hj)
    have hlast : pre.getLast? ≠ some j :=
      getLast?_ne_of_not_mem fun hm => hdisjoint' j hm hj
    simp only [Link.setPrevious, Link.setNext, if_neg hlast, Function.update_of_ne hne]

end Link

end Base
