import Mathlib

/-!
# Lanes

Numbered items wait in one queue for each lane, and the order of all of them is
kept beside the queues.  `Merges` says that both come from one list of waiting
items, in the order of their numbers.  It is kept when an item with a new number
arrives, when one is taken out wherever it stands, and when all items with a
property leave.
-/

namespace Base

/-- A waiting item. -/
structure Item (σ τ : Type) where
  number : Nat
  lane : σ
  value : τ

namespace Lanes

variable {σ τ : Type} [DecidableEq σ]

/-- The numbers and lanes of items. -/
def orderOf (waiting : List (Item σ τ)) : List (Nat × σ) :=
  waiting.map fun item => (item.number, item.lane)

/-- The items of one lane. -/
def laneOf (waiting : List (Item σ τ)) (lane : σ) : List (Nat × τ) :=
  (waiting.filter fun item => item.lane = lane).map fun item => (item.number, item.value)

/-- The numbers of items, strictly increasing. -/
def Ascending (waiting : List (Item σ τ)) : Prop :=
  waiting.Pairwise fun a b => a.number < b.number

/-- An order and a queue for each lane hold the same waiting items. -/
structure Merges (order : List (Nat × σ)) (queue : σ → List (Nat × τ))
    (waiting : List (Item σ τ)) : Prop where
  order_eq : order = orderOf waiting
  lane_eq : ∀ lane, queue lane = laneOf waiting lane
  ascending : Ascending waiting

theorem laneOf_cons (item : Item σ τ) (waiting : List (Item σ τ)) (lane : σ) :
    laneOf (item :: waiting) lane =
      if item.lane = lane then (item.number, item.value) :: laneOf waiting lane
      else laneOf waiting lane := by
  unfold laneOf
  by_cases h : item.lane = lane
  · rw [if_pos h, List.filter_cons_of_pos (by simpa using h), List.map_cons]
  · rw [if_neg h, List.filter_cons_of_neg (by simpa using h)]

theorem laneOf_append (xs ys : List (Item σ τ)) (lane : σ) :
    laneOf (xs ++ ys) lane = laneOf xs lane ++ laneOf ys lane := by
  simp [laneOf]

theorem mem_laneOf {waiting : List (Item σ τ)} {lane : σ} {entry : Nat × τ} :
    entry ∈ laneOf waiting lane ↔
      ∃ item ∈ waiting, item.lane = lane ∧ (item.number, item.value) = entry := by
  simp [laneOf, and_assoc]

omit [DecidableEq σ] in
/-- The number of a waiting item is its own. -/
theorem Ascending.eq_of_number_eq : ∀ {waiting : List (Item σ τ)} {a b : Item σ τ},
    Ascending waiting → a ∈ waiting → b ∈ waiting → a.number = b.number → a = b
  | [], _, _, _, ha, _, _ => by cases ha
  | first :: waiting, a, b, h, ha, hb, heq => by
    obtain ⟨hfirst, hrest⟩ := List.pairwise_cons.mp h
    rcases List.mem_cons.mp ha with hfa | hina
    · rcases List.mem_cons.mp hb with hfb | hinb
      · rw [hfa, hfb]
      · exact absurd heq (Nat.ne_of_lt (hfa ▸ hfirst b hinb))
    · rcases List.mem_cons.mp hb with hfb | hinb
      · exact absurd heq.symm (Nat.ne_of_lt (hfb ▸ hfirst a hina))
      · exact Ascending.eq_of_number_eq hrest hina hinb heq

variable {order : List (Nat × σ)} {queue queue' : σ → List (Nat × τ)} {waiting : List (Item σ τ)}

theorem Merges.nil : Merges ([] : List (Nat × σ)) (fun _ => ([] : List (Nat × τ))) [] :=
  ⟨rfl, fun _ => rfl, List.Pairwise.nil⟩

/-- The order is sorted by number, and lane by lane it is the queues: it is their
merge. -/
theorem Merges.sorted (h : Merges order queue waiting) :
    (order.map Prod.fst).Pairwise (· < ·) ∧
      ∀ lane, (order.filter fun entry => entry.2 = lane).map Prod.fst =
        (queue lane).map Prod.fst := by
  constructor
  · rw [h.order_eq, orderOf, List.map_map]
    exact List.pairwise_map.mpr h.ascending
  · intro lane
    rw [h.order_eq, h.lane_eq, orderOf, laneOf, List.filter_map, List.map_map, List.map_map]
    rfl

theorem Merges.push (h : Merges order queue waiting) (item : Item σ τ)
    (hnew : ∀ old ∈ waiting, old.number < item.number)
    (hself : queue' item.lane = queue item.lane ++ [(item.number, item.value)])
    (hother : ∀ lane, lane ≠ item.lane → queue' lane = queue lane) :
    Merges (order ++ [(item.number, item.lane)]) queue' (waiting ++ [item]) where
  order_eq := by
    rw [h.order_eq, orderOf, orderOf, List.map_append]
    rfl
  lane_eq := by
    intro lane
    rw [laneOf_append, laneOf_cons]
    by_cases hlane : item.lane = lane
    · subst hlane
      rw [hself, if_pos rfl, h.lane_eq]
      rfl
    · rw [hother lane fun heq => hlane heq.symm, if_neg hlane, h.lane_eq]
      exact (List.append_nil _).symm
  ascending := by
    refine List.pairwise_append.mpr ⟨h.ascending, List.pairwise_singleton _ _, ?_⟩
    intro old hold item' hitem'
    rw [List.mem_singleton.mp hitem']
    exact hnew old hold

/-- The items with a property leave. -/
theorem Merges.retain (h : Merges order queue waiting) (keep : Item σ τ → Bool)
    (keepNumber : Nat → Bool) (keepValue : σ → Nat × τ → Bool)
    (hnumber : ∀ item ∈ waiting, keepNumber item.number = keep item)
    (hvalue : ∀ item ∈ waiting, keepValue item.lane (item.number, item.value) = keep item) :
    Merges (order.filter fun entry => keepNumber entry.1)
      (fun lane => (queue lane).filter (keepValue lane)) (waiting.filter keep) where
  order_eq := by
    rw [h.order_eq, orderOf, orderOf, List.filter_map]
    congr 1
    exact List.filter_congr fun item hitem => hnumber item hitem
  lane_eq := by
    intro lane
    rw [h.lane_eq, laneOf, laneOf, List.filter_map, List.filter_filter, List.filter_filter]
    congr 1
    refine List.filter_congr fun item hitem => ?_
    by_cases hlane : item.lane = lane
    · subst hlane
      have hkeep := hvalue item hitem
      simp only [Function.comp_apply, hkeep, decide_true, Bool.and_true, Bool.true_and]
    · simp only [hlane, decide_false, Bool.and_false, Bool.false_and]
  ascending := h.ascending.filter _

/-- The first item with a property stands in its lane behind none with the
property, and its number is found in the order. -/
theorem find?_laneOf (p : Item σ τ → Bool) (lane : σ) (q : Nat × τ → Bool)
    (hp : ∀ item : Item σ τ, p item = (decide (item.lane = lane) && q (item.number, item.value))) :
    ∀ waiting : List (Item σ τ), (laneOf waiting lane).find? q =
      (waiting.find? p).map fun item => (item.number, item.value)
  | [] => rfl
  | item :: waiting => by
    have ih := find?_laneOf p lane q hp waiting
    rw [laneOf_cons, List.find?_cons, hp item]
    by_cases hlane : item.lane = lane
    · rw [if_pos hlane, List.find?_cons]
      cases hq : q (item.number, item.value) with
      | true => simp [hlane]
      | false => simpa [hlane] using ih
    · rw [if_neg hlane]
      simpa [hlane] using ih

theorem eraseP_laneOf (p : Item σ τ → Bool) (lane : σ) (q : Nat × τ → Bool)
    (hp : ∀ item : Item σ τ, p item = (decide (item.lane = lane) && q (item.number, item.value))) :
    ∀ waiting : List (Item σ τ), (laneOf waiting lane).eraseP q = laneOf (waiting.eraseP p) lane
  | [] => rfl
  | item :: waiting => by
    have ih := eraseP_laneOf p lane q hp waiting
    rw [laneOf_cons, List.eraseP_cons, hp item]
    by_cases hlane : item.lane = lane
    · rw [if_pos hlane, List.eraseP_cons]
      cases hq : q (item.number, item.value) with
      | true => simp [hlane]
      | false => simpa [hlane, laneOf_cons] using ih
    · rw [if_neg hlane]
      simpa [hlane, laneOf_cons] using ih

theorem laneOf_eraseP_of_ne (p : Item σ τ → Bool) {lane other : σ} (hne : other ≠ lane)
    (hp : ∀ item : Item σ τ, p item = true → item.lane = lane) :
    ∀ waiting : List (Item σ τ), laneOf (waiting.eraseP p) other = laneOf waiting other
  | [] => rfl
  | item :: waiting => by
    have ih := laneOf_eraseP_of_ne p hne hp waiting
    rw [List.eraseP_cons]
    cases hitem : p item with
    | true =>
      have hlane : ¬ item.lane = other := fun h => hne (h.symm.trans (hp item hitem))
      simp [laneOf_cons, hlane]
    | false => simp [laneOf_cons, ih]

omit [DecidableEq σ] in
/-- Taking the first item with a property out of the order, found by its number. -/
theorem eraseP_orderOf (p : Item σ τ → Bool) : ∀ {waiting : List (Item σ τ)} {item : Item σ τ},
    Ascending waiting → waiting.find? p = some item →
    (orderOf waiting).eraseP (fun entry => entry.1 = item.number) = orderOf (waiting.eraseP p)
  | [], _, _, h => by cases h
  | first :: waiting, item, hasc, h => by
    obtain ⟨hfirst, hrest⟩ := List.pairwise_cons.mp hasc
    rw [List.find?_cons] at h
    cases hp : p first with
    | true =>
      rw [hp] at h
      cases h
      simp [orderOf, hp]
    | false =>
      rw [hp] at h
      have hmem : item ∈ waiting := List.mem_of_find?_eq_some h
      have hne : ¬ first.number = item.number := Nat.ne_of_lt (hfirst item hmem)
      have ih := eraseP_orderOf p hrest h
      simp only [orderOf, List.map_cons, List.eraseP_cons, hp, hne, decide_false,
        cond_false] at ih ⊢
      rw [ih]

omit [DecidableEq σ] in
theorem find?_orderOf (p : Item σ τ → Bool) {item : Item σ τ} (h : waiting.find? p = some item) :
    ((orderOf waiting).find? fun entry => entry.1 = item.number).isSome := by
  rw [List.find?_isSome]
  exact ⟨(item.number, item.lane), List.mem_map.mpr ⟨item, List.mem_of_find?_eq_some h, rfl⟩,
    decide_eq_true rfl⟩

/-- The first item with a property is taken out of its lane and out of the order. -/
theorem Merges.take (h : Merges order queue waiting) {p : Item σ τ → Bool} {lane : σ}
    {q : Nat × τ → Bool} {item : Item σ τ}
    (hp : ∀ item : Item σ τ, p item = (decide (item.lane = lane) && q (item.number, item.value)))
    (hfind : waiting.find? p = some item)
    (hself : queue' lane = (queue lane).eraseP q)
    (hother : ∀ other, other ≠ lane → queue' other = queue other) :
    Merges (order.eraseP fun entry => entry.1 = item.number) queue' (waiting.eraseP p) where
  order_eq := by
    rw [h.order_eq]
    exact eraseP_orderOf p h.ascending hfind
  lane_eq := by
    intro other
    by_cases hlane : other = lane
    · subst hlane
      rw [hself, h.lane_eq, eraseP_laneOf p other q hp]
    · have hin : ∀ item : Item σ τ, p item = true → item.lane = lane := by
        intro item hitem
        rw [hp item, Bool.and_eq_true] at hitem
        exact of_decide_eq_true hitem.1
      rw [hother other hlane, h.lane_eq, laneOf_eraseP_of_ne p hlane hin]
  ascending := h.ascending.sublist (List.eraseP_sublist)

/-- The first item of all is the head of its lane. -/
theorem Merges.head {item : Item σ τ} {rest : List (Item σ τ)}
    (h : Merges order queue (item :: rest)) :
    order = (item.number, item.lane) :: orderOf rest ∧
      queue item.lane = (item.number, item.value) :: laneOf rest item.lane := by
  refine ⟨h.order_eq, ?_⟩
  rw [h.lane_eq, laneOf_cons, if_pos rfl]

theorem Merges.pop {item : Item σ τ} {rest : List (Item σ τ)}
    (h : Merges order queue (item :: rest))
    (hself : queue' item.lane = laneOf rest item.lane)
    (hother : ∀ other, other ≠ item.lane → queue' other = queue other) :
    Merges (orderOf rest) queue' rest where
  order_eq := rfl
  lane_eq := by
    intro other
    by_cases hlane : other = item.lane
    · subst hlane
      exact hself
    · rw [hother other hlane, h.lane_eq, laneOf_cons, if_neg fun heq => hlane heq.symm]
  ascending := (List.pairwise_cons.mp h.ascending).2

end Lanes

end Base
