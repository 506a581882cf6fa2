import Mathlib

/-!
# Ranges in order

Entries that own half-open ranges of positions, which lie one after the other.
The owner of a position is then the last entry that starts at or before it, if
its range reaches the position (`before_iff`).
-/

namespace Base

/-- The number of entries before the first that fails the test, of a list
that the test divides into two. -/
def partitionPoint {α : Type} (p : α → Bool) (entries : List α) : Nat :=
  (entries.takeWhile p).length

namespace Ranges

variable {α : Type} (start stop : α → Nat)

/-- The ranges lie one after the other. -/
def Ordered (entries : List α) : Prop := entries.Pairwise fun a b => stop a ≤ start b

/-- Two ranges have no position in common. -/
def Apart (a b : α) : Prop := stop a ≤ start b ∨ stop b ≤ start a

/-- The last entry that starts at or before a position. -/
def before (position : Nat) (entries : List α) : Option α :=
  match partitionPoint (fun entry => start entry ≤ position) entries with
  | 0 => none
  | index + 1 => entries[index]?

variable {start stop}

theorem Apart.symm {a b : α} (h : Apart start stop a b) : Apart start stop b a := Or.symm h

/-- Sorting nonempty ranges that are apart puts them in order. -/
theorem ordered_mergeSort {entries : List α} (nonempty : ∀ a ∈ entries, start a < stop a)
    (h : entries.Pairwise (Apart start stop)) :
    Ordered start stop (entries.mergeSort fun a b => start a ≤ start b) := by
  have hperm := List.mergeSort_perm entries fun a b => start a ≤ start b
  have htrans : ∀ a b c, decide (start a ≤ start b) = true → decide (start b ≤ start c) = true →
      decide (start a ≤ start c) = true := fun a b c hab hbc =>
    decide_eq_true (Nat.le_trans (of_decide_eq_true hab) (of_decide_eq_true hbc))
  have htotal : ∀ a b, (decide (start a ≤ start b) || decide (start b ≤ start a)) = true := by
    intro a b
    rcases Nat.le_total (start a) (start b) with hle | hle
    · rw [decide_eq_true hle, Bool.true_or]
    · rw [decide_eq_true hle, Bool.or_true]
  have hsorted := (List.pairwise_mergeSort htrans htotal entries).imp of_decide_eq_true
  have hapart := (hperm.pairwise_iff (R := Apart start stop) fun h => h.symm).mpr h
  refine (hsorted.and hapart).imp_of_mem fun ha hb hboth => ?_
  obtain ⟨hle, hlt | hlt⟩ := hboth
  · exact hlt
  · have hb := nonempty _ (hperm.mem_iff.mp hb)
    exact absurd (Nat.lt_of_lt_of_le hb hlt) (Nat.not_lt.mpr hle)

/-- The entry before a position is the last of those that start there or before. -/
theorem before_eq (position : Nat) (entries : List α) :
    before start position entries =
      (entries.takeWhile fun entry => start entry ≤ position).getLast? := by
  unfold before partitionPoint
  obtain ⟨rest, hrest⟩ : (entries.takeWhile fun entry => decide (start entry ≤ position)) <+: entries :=
    List.takeWhile_prefix _
  generalize entries.takeWhile (fun entry => decide (start entry ≤ position)) = kept at hrest ⊢
  rw [List.getLast?_eq_getElem?, ← hrest]
  cases kept with
  | nil => rfl
  | cons entry kept =>
    show ((entry :: kept) ++ rest)[kept.length]? = _
    rw [List.getElem?_append_left (Nat.lt_succ_self _)]
    rfl

/-- The owner of a position. -/
theorem before_iff {entries : List α} (h : Ordered start stop entries)
    (nonempty : ∀ a ∈ entries, start a < stop a) {position : Nat} {a : α} :
    before start position entries = some a ∧ position < stop a ↔
      a ∈ entries ∧ start a ≤ position ∧ position < stop a := by
  rw [before_eq]
  have hsplit : (entries.takeWhile fun entry => decide (start entry ≤ position)) ++
      (entries.dropWhile fun entry => decide (start entry ≤ position)) = entries :=
    List.takeWhile_append_dropWhile
  have hkept : ∀ b ∈ entries.takeWhile (fun entry => decide (start entry ≤ position)),
      start b ≤ position := fun b hb => of_decide_eq_true (List.all_eq_true.mp List.all_takeWhile b hb)
  have hhead : ∀ b, (entries.dropWhile fun entry => decide (start entry ≤ position)).head? = some b →
      position < start b := by
    intro b hb
    have hfails := List.head?_dropWhile_not (fun entry => decide (start entry ≤ position)) entries
    rw [hb] at hfails
    simpa using hfails
  generalize entries.takeWhile (fun entry => decide (start entry ≤ position)) = kept at hsplit hkept ⊢
  generalize entries.dropWhile (fun entry => decide (start entry ≤ position)) = dropped
    at hsplit hhead
  subst hsplit
  obtain ⟨hkeptOrdered, hdropped, -⟩ := List.pairwise_append.mp h
  constructor
  · rintro ⟨hlast, hstop⟩
    have hm := List.mem_of_getLast? hlast
    exact ⟨List.mem_append_left _ hm, hkept a hm, hstop⟩
  · rintro ⟨hm, hstart, hstop⟩
    refine ⟨?_, hstop⟩
    rcases List.mem_append.mp hm with hm | hm
    · obtain ⟨front, last, rfl⟩ : ∃ front last, kept = front ++ [last] := by
        rcases List.eq_nil_or_concat kept with rfl | ⟨front, last, hkept⟩
        · cases hm
        · exact ⟨front, last, hkept.trans (List.concat_eq_append ..)⟩
      rw [List.getLast?_concat]
      rcases List.mem_append.mp hm with hm | hm
      · have hle := (List.pairwise_append.mp hkeptOrdered).2.2 a hm last (List.mem_singleton_self _)
        have hlast := hkept last (List.mem_append_right _ (List.mem_singleton_self _))
        exact absurd (Nat.le_trans hle hlast) (Nat.not_le.mpr hstop)
      · rw [List.mem_singleton.mp hm]
    · cases dropped with
      | nil => cases hm
      | cons first dropped =>
        have hfirst := hhead first rfl
        rcases List.mem_cons.mp hm with rfl | hm
        · exact absurd hstart (Nat.not_le.mpr hfirst)
        · have hle := (List.pairwise_cons.mp hdropped).1 a hm
          have hne := nonempty first (List.mem_append_right _ (List.mem_cons_self ..))
          exact absurd hstart (Nat.not_le.mpr
            (Nat.lt_of_lt_of_le (Nat.lt_trans hfirst hne) hle))

end Ranges

/-! ## Pieces of a sorted list -/

namespace Pieces

variable {α : Type} {key : α → Nat}

/-- The entries of a sorted list whose keys lie between two bounds. -/
def piece (key : α → Nat) (start stop : Nat) (entries : List α) : List α :=
  let first := partitionPoint (fun entry => key entry < start) entries
  (entries.drop first).take (partitionPoint (fun entry => key entry < stop) entries - first)

/-- The entries are in the order of their keys. -/
def Sorted (key : α → Nat) (entries : List α) : Prop := entries.Pairwise fun a b => key a < key b

theorem partitionPoint_mono {start stop : Nat} (h : start ≤ stop) : ∀ entries : List α,
    partitionPoint (fun entry => key entry < start) entries ≤ partitionPoint (fun entry => key entry < stop) entries
  | [] => Nat.le_refl _
  | entry :: entries => by
    rw [partitionPoint, partitionPoint, List.takeWhile_cons, List.takeWhile_cons]
    split
    next hlt =>
      have hstop : key entry < stop := Nat.lt_of_lt_of_le (of_decide_eq_true hlt) h
      rw [if_pos (decide_eq_true hstop)]
      exact Nat.succ_le_succ (partitionPoint_mono h entries)
    next => exact Nat.zero_le _

/-- Two pieces that meet are one piece. -/
theorem piece_append {first second third : Nat} (h₁ : first ≤ second) (h₂ : second ≤ third) (entries : List α) :
    piece key first second entries ++ piece key second third entries = piece key first third entries := by
  have hle₁ := @partitionPoint_mono _ key _ _ h₁ entries
  have hle₂ := @partitionPoint_mono _ key _ _ h₂ entries
  simp only [piece]
  generalize partitionPoint (fun entry => decide (key entry < first)) entries = a at hle₁ ⊢
  generalize partitionPoint (fun entry => decide (key entry < second)) entries = b at hle₁ hle₂ ⊢
  generalize partitionPoint (fun entry => decide (key entry < third)) entries = c at hle₂ ⊢
  have hdrop : entries.drop b = (entries.drop a).drop (b - a) := by
    rw [List.drop_drop, Nat.add_sub_cancel' hle₁]
  have hsum : c - a = (b - a) + (c - b) := by omega
  rw [hsum, List.take_add, hdrop]

/-- The entries below a bound are the first ones. -/
theorem filter_lt {bound : Nat} : ∀ {entries : List α}, Sorted key entries →
    entries.filter (fun entry => key entry < bound) = entries.takeWhile fun entry => key entry < bound
  | [], _ => rfl
  | entry :: entries, h => by
    rw [Sorted, List.pairwise_cons] at h
    rw [List.filter_cons, List.takeWhile_cons]
    split
    next => rw [filter_lt h.2]
    next hge =>
      refine List.filter_eq_nil_iff.mpr fun other hother => ?_
      have hlt := h.1 other hother
      rw [decide_eq_true_eq] at hge ⊢
      omega

/-- The entries from a bound on are the last ones. -/
theorem filter_ge {bound : Nat} : ∀ {entries : List α}, Sorted key entries →
    entries.filter (fun entry => bound ≤ key entry) =
      entries.drop (partitionPoint (fun entry => key entry < bound) entries)
  | [], _ => rfl
  | entry :: entries, h => by
    have hpairs := List.pairwise_cons.mp h
    by_cases hlt : key entry < bound
    · have hnot : ¬ bound ≤ key entry := Nat.not_le.mpr hlt
      simp only [partitionPoint, List.takeWhile_cons, List.filter_cons, hlt, hnot, decide_true, decide_false, if_true,
        Bool.false_eq_true, if_false, List.length_cons, List.drop_succ_cons]
      exact filter_ge hpairs.2
    · have hge : bound ≤ key entry := Nat.le_of_not_lt hlt
      simp only [partitionPoint, List.takeWhile_cons, List.filter_cons, hlt, hge, decide_true, decide_false, if_true,
        Bool.false_eq_true, if_false, List.length_nil, List.drop_zero]
      refine congrArg (entry :: ·) (List.filter_eq_self.mpr fun other hother => ?_)
      have hgt := hpairs.1 other hother
      rw [decide_eq_true_eq]
      omega

/-- A piece has the entries between its bounds. -/
theorem piece_eq_filter {entries : List α} (h : Sorted key entries) {start stop : Nat} (hle : start ≤ stop) :
    piece key start stop entries = entries.filter fun entry => decide (start ≤ key entry) && decide (key entry < stop) := by
  have hprefix : entries.take (partitionPoint (fun entry => key entry < stop) entries) =
      entries.takeWhile fun entry => key entry < stop :=
    (List.prefix_iff_eq_take.mp (List.takeWhile_prefix _)).symm
  have hsorted : Sorted key (entries.takeWhile fun entry => key entry < stop) :=
    h.sublist (List.takeWhile_sublist _)
  have hpoint : partitionPoint (fun entry => key entry < start) (entries.takeWhile fun entry => key entry < stop) =
      partitionPoint (fun entry => key entry < start) entries := by
    rw [partitionPoint, partitionPoint, List.takeWhile_takeWhile]
    refine congrArg (fun p : α → Bool => (entries.takeWhile p).length) (funext fun entry => ?_)
    by_cases hlt : key entry < start
    · have hstop : key entry < stop := Nat.lt_of_lt_of_le hlt hle
      simp only [hlt, hstop, decide_true, and_self]
    · simp only [hlt, decide_false, Bool.false_eq_true, false_and]
  rw [piece, ← List.drop_take, hprefix, ← hpoint, ← filter_ge hsorted, ← filter_lt h, List.filter_filter]

theorem mem_piece {entries : List α} (h : Sorted key entries) {start stop : Nat} (hle : start ≤ stop) {entry : α} :
    entry ∈ piece key start stop entries ↔ entry ∈ entries ∧ start ≤ key entry ∧ key entry < stop := by
  rw [piece_eq_filter h hle, List.mem_filter, Bool.and_eq_true, decide_eq_true_eq, decide_eq_true_eq]

theorem sorted_piece {entries : List α} (h : Sorted key entries) (start stop : Nat) :
    Sorted key (piece key start stop entries) :=
  h.sublist ((List.take_sublist _ _).trans (List.drop_sublist _ _))

/-- The last entry has the greatest key. -/
theorem le_of_getLast? {entries : List α} (h : Sorted key entries) {last : α} (hlast : entries.getLast? = some last) :
    ∀ entry ∈ entries, key entry ≤ key last := by
  obtain ⟨front, rfl⟩ : ∃ front, entries = front ++ [last] := List.getLast?_eq_some_iff.mp hlast
  intro entry hentry
  rcases List.mem_append.mp hentry with hentry | hentry
  · exact Nat.le_of_lt ((List.pairwise_append.mp h).2.2 entry hentry last List.mem_cons_self)
  · rw [List.mem_singleton.mp hentry]

/-- A piece that starts at an entry has it in front. -/
theorem head?_piece {entries : List α} (h : Sorted key entries) {entry : α} (hentry : entry ∈ entries) {stop : Nat}
    (hlt : key entry < stop) : (piece key (key entry) stop entries).head? = some entry := by
  have hmem := (mem_piece h (Nat.le_of_lt hlt)).mpr ⟨hentry, Nat.le_refl _, hlt⟩
  have hsorted := sorted_piece h (key entry) stop
  cases hpiece : piece key (key entry) stop entries with
  | nil =>
    rw [hpiece] at hmem
    cases hmem
  | cons first rest =>
    rw [hpiece] at hmem hsorted
    rcases List.mem_cons.mp hmem with rfl | hrest
    · rfl
    · have hbelow := (List.pairwise_cons.mp hsorted).1 entry hrest
      have hfirst := (mem_piece h (Nat.le_of_lt hlt)).mp (hpiece ▸ List.mem_cons_self)
      omega

/-- The pieces between bounds that follow each other are the whole list. -/
theorem flatten_pieces {β : Type} (f : α → β) {bounds : List Nat} (pieces : List (List β)) (entries : List α)
    (stop : Nat) (hbounds : bounds.Pairwise (· < ·)) (hstop : ∀ bound ∈ bounds, bound ≤ stop)
    (hpieces : pieces.length = bounds.length)
    (hpiece : ∀ k start, bounds[k]? = some start →
      pieces[k]? = some ((piece key start (bounds[k + 1]?.getD stop) entries).map f)) :
    pieces.flatten = (piece key (bounds.head?.getD stop) stop entries).map f := by
  induction bounds generalizing pieces with
  | nil =>
    obtain rfl := List.length_eq_zero_iff.mp hpieces
    rw [List.flatten_nil, List.head?_nil, Option.getD_none, piece, Nat.sub_self, List.take_zero, List.map_nil]
  | cons start bounds ih =>
    cases pieces with
    | nil => cases hpieces
    | cons first pieces =>
      have hfirst := hpiece 0 start rfl
      rw [List.getElem?_cons_zero, Option.some_inj] at hfirst
      rw [List.pairwise_cons] at hbounds
      have hrest := ih pieces hbounds.2 (fun bound hbound => hstop bound (List.mem_cons_of_mem _ hbound))
        (Nat.succ_inj.mp hpieces) (fun k bound hk => hpiece (k + 1) bound hk)
      have hnext : (start :: bounds)[0 + 1]? = bounds.head? := by
        rw [List.getElem?_cons_succ, List.head?_eq_getElem?]
      rw [List.flatten_cons, hrest, hfirst, hnext, ← List.map_append, List.head?_cons, Option.getD_some]
      refine congrArg (List.map f) (piece_append ?_ ?_ entries)
      · cases hhead : bounds.head? with
        | none => exact hstop start List.mem_cons_self
        | some next => exact Nat.le_of_lt (hbounds.1 next (List.mem_of_mem_head? hhead))
      · cases hhead : bounds.head? with
        | none => exact Nat.le_refl _
        | some next => exact hstop next (List.mem_cons_of_mem _ (List.mem_of_mem_head? hhead))

end Pieces

end Base
