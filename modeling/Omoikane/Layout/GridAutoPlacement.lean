import Omoikane.Base.Erasure
import Omoikane.Layout.GridOccupancy
import Omoikane.Layout.GridPasses

/-!
# Automatic placement

The passes together: an item is placed after those of the passes before its own and after those of
its pass that come before it (`placementOrder`).  `Laid` is what a grid in row flow guarantees about
the areas of its items; a grid in column flow is one in row flow with its axes exchanged.
-/

/-!
## Removal of empty tracks

The tracks that are removed are those that repeat to fit and that no area covers.  An area moves down
by the number of removed tracks below its first one; as none of its own is removed, it stays on the
same tracks.
-/

namespace Omoikane.Layout

open Base.Erasure

variable {τ : Type} {autoFit : τ → Bool} {tracks : List τ} {placements : List Placement}
  {columns : Bool}

/-- An area has a track along an axis. -/
def Placement.On (placement : Placement) (columns : Bool) (index : Nat) : Prop :=
  (placement.axis columns).1 ≤ index ∧
    index < (placement.axis columns).1 + (placement.axis columns).2

@[simp] theorem Placement.axis_setStart (placement : Placement) (columns : Bool) (start : Nat) :
    (placement.setStart columns start).axis columns = (start, (placement.axis columns).2) := by
  cases columns <;> rfl

@[simp] theorem Placement.axis_setStart_not (placement : Placement) (columns : Bool) (start : Nat) :
    (placement.setStart columns start).axis (!columns) = placement.axis (!columns) := by
  cases columns <;> rfl

/-- What the removal of tracks keeps, where `remaining` are the tracks that are left. -/
structure Collapsed (autoFit : τ → Bool) (tracks : List τ) (placements : List Placement)
    (columns : Bool) (result : List τ × List Placement) (remaining : List Nat) : Prop where
  ascending : remaining.Pairwise (· < ·)
  remain : remaining.map (tracks[·]?) = result.1.map some
  removed : ∀ (index : Nat) track, tracks[index]? = some track → index ∉ remaining →
    autoFit track = true ∧ ∀ placement ∈ placements, ¬ placement.On columns index
  length : result.2.length = placements.length
  same : ∀ (index : Nat) placement, placements[index]? = some placement →
    ∃ start, result.2[index]? = some (placement.setStart columns start) ∧
      ∀ offset < (placement.axis columns).2,
        remaining[start + offset]? = some ((placement.axis columns).1 + offset)

/-- A track is removed. -/
def removed (autoFit : τ → Bool) (placements : List Placement) (columns : Bool)
    (track : τ × Nat) : Bool :=
  autoFit track.1 && !placements.any fun placement =>
    (placement.axis columns).1 ≤ track.2 &&
      track.2 < (placement.axis columns).1 + (placement.axis columns).2

theorem collapsedTracks_eq (tracks : List τ) :
    collapsedTracks autoFit tracks placements columns =
      erased (removed autoFit placements columns) tracks 0 := by
  simp only [collapsedTracks, erased]
  rfl

theorem removed_eq_false {placement : Placement} {index : Nat} (h : placement ∈ placements)
    (hon : placement.On columns index) (track : τ) :
    removed autoFit placements columns (track, index) = false := by
  have hany : (placements.any fun placement => (placement.axis columns).1 ≤ index &&
      index < (placement.axis columns).1 + (placement.axis columns).2) = true :=
    List.any_eq_true.mpr ⟨placement, h, by simp [hon.1, hon.2]⟩
  simp only [removed, hany, Bool.not_true, Bool.and_false]

theorem not_on_of_removed {index : Nat} {track : τ}
    (h : removed autoFit placements columns (track, index) = true) :
    autoFit track = true ∧ ∀ placement ∈ placements, ¬ placement.On columns index := by
  refine ⟨(Bool.and_eq_true_iff.mp h).1, fun placement hplacement hon => ?_⟩
  rw [removed_eq_false hplacement hon] at h
  cases h

theorem collapseEmptyAutoFitTracks_spec (autoFit : τ → Bool)
    (hinside : ∀ placement ∈ placements,
      (placement.axis columns).1 + (placement.axis columns).2 ≤ tracks.length) :
    Collapsed autoFit tracks placements columns
      (collapseEmptyAutoFitTracks autoFit tracks placements columns)
      (staying (removed autoFit placements columns) tracks 0) := by
  refine ⟨pairwise_staying .., ?_, fun index track htrack hout => ?_, List.length_map .., fun index placement hget => ?_⟩
  · rw [map_getElem?_staying, collapseEmptyAutoFitTracks, collapsedTracks_eq, foldl_eraseIdx_erased]
  · refine not_on_of_removed (Bool.of_not_eq_false fun hstays => hout ?_)
    exact (mem_staying _).mpr ⟨track, List.mem_zipIdx_iff_getElem?.mpr htrack, hstays⟩
  · have hmem := List.mem_of_getElem? hget
    have hlength := hinside placement hmem
    have hstays : ∀ other track, tracks[other]? = some track → (placement.axis columns).1 ≤ other →
        other < (placement.axis columns).1 + (placement.axis columns).2 →
        removed autoFit placements columns (track, other) = false :=
      fun other track _ hle hlt => removed_eq_false hmem ⟨hle, hlt⟩ track
    refine ⟨(placement.axis columns).1 -
      (erased (removed autoFit placements columns)
        (tracks.take (placement.axis columns).1) 0).length, ?_, fun offset hoffset => ?_⟩
    · rw [collapseEmptyAutoFitTracks, collapsedTracks_eq, List.getElem?_map, hget, Option.map_some]
      dsimp only
      rw [takeWhile_erased _ tracks (Nat.le_trans (Nat.le_add_right ..) hlength)]
    · have hlt : (placement.axis columns).1 + offset < tracks.length := by omega
      have hget := staying_getElem? (removed autoFit placements columns) tracks
        (List.getElem?_eq_getElem hlt)
        (hstays _ _ (List.getElem?_eq_getElem hlt) (Nat.le_add_right ..) (by omega))
      -- no track of the area is removed, so that the count is that below its first track
      have hcount := length_erased_take_add (removed autoFit placements columns) tracks offset
        fun other track htrack hle hother => hstays other track htrack hle (by omega)
      have hall := length_erased_add_staying (removed autoFit placements columns)
        (tracks.take (placement.axis columns).1) 0
      rw [List.length_take_of_le (by omega)] at hall
      rw [hcount] at hget
      rw [← hget]
      congr 1
      omega

/-- An axis of which no track is removed stays as it is. -/
theorem collapseEmptyAutoFitTracks_other (autoFit : τ → Bool)
    (h : ∀ placement ∈ placements, (placement.axis (!columns)).1 + (placement.axis (!columns)).2 ≤
      tracks.length) (other : List τ) :
    ∀ placement ∈ (collapseEmptyAutoFitTracks autoFit other placements columns).2,
      (placement.axis (!columns)).1 + (placement.axis (!columns)).2 ≤ tracks.length := by
  intro placement hplacement
  obtain ⟨old, hold, rfl⟩ := List.mem_map.mp hplacement
  dsimp only
  rw [Placement.axis_setStart_not]
  exact h old hold

end Omoikane.Layout

namespace Omoikane.Layout

/-! ## The order -/

/-- The items in the order in which they are placed. -/
def placementOrder (requests : List Request) : List Item :=
  [0, 1, 2].flatMap fun k => requests.zipIdx.filter (pass · = k)

/-- The items with their areas, in the order in which they are placed. -/
def placed (requests : List Request) (placements : List Placement) : List Entry :=
  (placementOrder requests).filterMap fun item => placements[item.2]?.map (item, ·)

theorem pass_le (item : Item) : pass item ≤ 2 := by
  unfold pass
  split
  · exact Nat.le_refl 2
  · split <;> decide

theorem pass_eq_two_iff {item : Item} : pass item = 2 ↔ item.1.2.start = none := by
  cases hrow : item.1.2.start <;> cases hcolumn : item.1.1.start <;> simp [pass, hrow, hcolumn]

theorem pass_eq_zero_iff {item : Item} :
    pass item = 0 ↔ item.1.1.start.isSome ∧ item.1.2.start.isSome := by
  cases hrow : item.1.2.start <;> cases hcolumn : item.1.1.start <;> simp [pass, hrow, hcolumn]

theorem mem_placementOrder {requests : List Request} {item : Item} :
    item ∈ placementOrder requests ↔ item ∈ requests.zipIdx := by
  have := pass_le item
  simp only [placementOrder, List.mem_flatMap, List.mem_filter]
  constructor
  · rintro ⟨_, -, hitem, -⟩
    exact hitem
  · intro hitem
    refine ⟨pass item, ?_, hitem, by simp⟩
    simp
    omega

/-- The items of a pass are placed after those of the passes before, and in their order. -/
theorem pairwise_placementOrder (requests : List Request) :
    (placementOrder requests).Pairwise fun a b => pass a < pass b ∨ pass a = pass b ∧ a.2 < b.2 := by
  refine List.pairwise_flatMap.mpr ⟨fun k _ => ?_, ?_⟩
  · have hascending : requests.zipIdx.Pairwise fun a b => a.2 < b.2 := by
      have := List.pairwise_lt_range' (s := 0) (n := requests.length)
      rwa [← List.zipIdx_map_snd, List.pairwise_map] at this
    refine (hascending.filter _).imp_of_mem fun ha hb hlt => .inr ⟨?_, hlt⟩
    exact (of_decide_eq_true (List.mem_filter.mp ha).2).trans
      (of_decide_eq_true (List.mem_filter.mp hb).2).symm
  · have hpasses : [0, 1, 2].Pairwise (· < ·) := by decide
    refine hpasses.imp fun hlt a ha b hb => .inl ?_
    rwa [of_decide_eq_true (List.mem_filter.mp ha).2, of_decide_eq_true (List.mem_filter.mp hb).2]

/-- Two different elements of a list are related one way or the other. -/
theorem related_of_pairwise {α : Type} {R : α → α → Prop} {items : List α} (h : items.Pairwise R)
    {a b : α} (ha : a ∈ items) (hb : b ∈ items) (hne : a ≠ b) : R a b ∨ R b a := by
  have : Std.Symm fun a b => R a b ∨ R b a := ⟨fun _ _ => Or.symm⟩
  have heither : items.Pairwise fun a b => R a b ∨ R b a := h.imp .inl
  exact heither.forall ha hb hne

theorem Built.pairwise {α : Type} {Step : List α → α → Prop} {R : α → α → Prop} {items : List α}
    (h : Built Step items) (hR : ∀ before item, Step before item → ∀ other ∈ before, R other item) :
    items.Pairwise R := by
  refine List.pairwise_iff_getElem.mpr fun i j hi hj hlt => ?_
  refine hR (items.take j) _ (h _ _ (items.drop (j + 1)) ?_) _ ?_
  · rw [List.getElem_cons_drop, List.take_append_drop]
  · exact List.mem_take_iff_getElem.mpr ⟨i, by omega, rfl⟩

/-! ## The grid -/

section

variable {τ : Type} {auto : τ} {requests : List Request} {columns rows columns' rows' : List τ}
  {dense : Bool} {placements : List Placement}

/-- What a grid in row flow guarantees: where the areas are, and what each of them owes to those that
were placed before it. -/
structure Laid (auto : τ) (requests : List Request) (columns rows : List τ) (dense : Bool)
    (placements : List Placement) (columns' rows' : List τ) : Prop where
  columns : Extends auto columns columns'
  rows : Extends auto rows rows'
  length : placements.length = requests.length
  honours : ∀ (index : Nat) request placement, requests[index]? = some request →
    placements[index]? = some placement → Honours request placement
  inside : ∀ placement ∈ placements,
    placement.column + placement.columnSpan ≤ columns'.length ∧
      placement.row + placement.rowSpan ≤ rows'.length
  apart : ∀ before entry after, placed requests placements = before ++ entry :: after →
    (entry.1.1.1.start = none ∨ entry.1.1.2.start = none) →
    ∀ other ∈ before, ¬ entry.2.Overlaps other.2
  ascending : dense = false → ∀ (i j : Nat) request request' placement placement', i < j →
    requests[i]? = some request → request.2.start = none → placements[i]? = some placement →
    requests[j]? = some request' → request'.2.start = none → placements[j]? = some placement' →
    RowMajor placement.position placement'.position
  first : dense = true → ∀ before entry after,
    placed requests placements = before ++ entry :: after → entry.1.1.2.start = none →
    ∀ position : Nat × Nat,
      (∀ start, entry.1.1.1.start = some start → position.2 = start) →
      position.2 + entry.2.columnSpan ≤ columns'.length → RowMajor position entry.2.position →
      ∃ other ∈ before, Placement.Overlaps
        ⟨position.2, position.1, entry.2.columnSpan, entry.2.rowSpan⟩ other.2

theorem mem_placed {index : Nat} {request : Request} {placement : Placement}
    (hrequest : requests[index]? = some request) (hplacement : placements[index]? = some placement) :
    ((request, index), placement) ∈ placed requests placements := by
  refine List.mem_filterMap.mpr ⟨(request, index), ?_, by simp [hplacement]⟩
  exact mem_placementOrder.mpr (List.mem_zipIdx_iff_getElem?.mpr hrequest)

/-- The list that the passes built is determined by the areas. -/
theorem placed_eq {entries : List Entry} (horder : entries.map Prod.fst = placementOrder requests)
    (hresult : ∀ entry ∈ entries, placements[entry.1.2]? = some entry.2) :
    placed requests placements = entries := by
  rw [placed, ← horder, List.filterMap_map]
  conv_rhs => rw [← List.filterMap_some (l := entries)]
  refine List.filterMap_congr fun entry hentry => ?_
  simp [hresult entry hentry]

/-- The passes, one after the other. -/
theorem laid_of_built (hcolumns : Extends auto columns columns') (hrows : Extends auto rows rows')
    (hlength : placements.length = requests.length)
    (hbuilt : Built (Sound dense columns'.length) (placed requests placements))
    (hinside : ∀ entry ∈ placed requests placements,
      entry.2.column + entry.2.columnSpan ≤ columns'.length ∧
        entry.2.row + entry.2.rowSpan ≤ rows'.length) :
    Laid auto requests columns rows dense placements columns' rows' where
  columns := hcolumns
  rows := hrows
  length := hlength
  honours index request placement hrequest hplacement := by
    obtain ⟨before, after, heq⟩ := List.append_of_mem (mem_placed hrequest hplacement)
    exact (hbuilt before _ after heq).honours
  inside placement hplacement := by
    obtain ⟨index, hlt, hget⟩ := List.getElem_of_mem hplacement
    have hrequest := List.getElem?_eq_getElem (hlength ▸ hlt : index < requests.length)
    exact hinside _ (mem_placed hrequest (List.getElem?_eq_some_iff.mpr ⟨hlt, hget⟩))
  apart before entry after heq hauto := by
    refine (hbuilt before entry after heq).apart fun hzero => ?_
    obtain ⟨hcolumn, hrow⟩ := pass_eq_zero_iff.mp hzero
    rcases hauto with h | h
    · simp [h] at hcolumn
    · simp [h] at hrow
  ascending hsparse i j request request' placement placement' hlt hi hauto hplacement hj hauto'
      hplacement' := by
    have hpass : pass (request, i) = 2 := pass_eq_two_iff.mpr hauto
    have hpass' : pass (request', j) = 2 := pass_eq_two_iff.mpr hauto'
    -- of two items of the last pass, the one before has the lower index and the lower position
    have horder : (placed requests placements).Pairwise fun a b =>
        pass a.1 < pass b.1 ∨ pass a.1 = pass b.1 ∧ a.1.2 < b.1.2 :=
      List.pairwise_filterMap.mpr ((pairwise_placementOrder requests).imp fun hab a ha b hb => by
        obtain ⟨_, -, rfl⟩ := Option.map_eq_some_iff.mp ha
        obtain ⟨_, -, rfl⟩ := Option.map_eq_some_iff.mp hb
        exact hab)
    have hascending : (placed requests placements).Pairwise fun a b =>
        pass a.1 = 2 → pass b.1 = 2 → RowMajor a.2.position b.2.position :=
      hbuilt.pairwise fun before entry hsound other hother ha hb =>
        hsound.ascending hb hsparse other hother ha
    rcases related_of_pairwise (horder.and hascending) (mem_placed hi hplacement)
      (mem_placed hj hplacement') (by simp; omega) with ⟨-, h⟩ | ⟨h, -⟩
    · exact h hpass hpass'
    · simp only [hpass, hpass'] at h
      omega
  first hdense before entry after heq hauto :=
    (hbuilt before entry after heq).first (pass_eq_two_iff.mpr hauto) hdense

/-- Two items whose areas overlap are definite in both axes. -/
theorem Laid.definite (h : Laid auto requests columns rows dense placements columns' rows')
    {i j : Nat} {request request' : Request} {placement placement' : Placement} (hne : i ≠ j)
    (hi : requests[i]? = some request) (hplacement : placements[i]? = some placement)
    (hj : requests[j]? = some request') (hplacement' : placements[j]? = some placement')
    (hoverlaps : placement.Overlaps placement') :
    (request.1.start.isSome ∧ request.2.start.isSome) ∧
      request'.1.start.isSome ∧ request'.2.start.isSome := by
  have horder : (placed requests placements).Pairwise fun a b => pass a.1 ≤ pass b.1 :=
    List.pairwise_filterMap.mpr ((pairwise_placementOrder requests).imp fun hab a ha b hb => by
      obtain ⟨_, -, rfl⟩ := Option.map_eq_some_iff.mp ha
      obtain ⟨_, -, rfl⟩ := Option.map_eq_some_iff.mp hb
      dsimp only
      omega)
  have hapart : (placed requests placements).Pairwise fun a b =>
      pass b.1 ≠ 0 → ¬ b.2.Overlaps a.2 := by
    have hbuilt : Built (fun (before : List Entry) (entry : Entry) =>
        pass entry.1 ≠ 0 → ∀ other ∈ before, ¬ entry.2.Overlaps other.2)
        (placed requests placements) := by
      intro before entry after heq hpass
      refine h.apart before entry after heq ?_
      by_contra hnone
      rw [not_or, ← ne_eq, ← ne_eq, Option.ne_none_iff_isSome, Option.ne_none_iff_isSome] at hnone
      exact hpass (pass_eq_zero_iff.mpr hnone)
    exact hbuilt.pairwise fun before entry h other hother hpass => h hpass other hother
  -- the one that is placed later overlaps an earlier one, and the passes ascend
  have hzero : pass (request, i) = 0 ∧ pass (request', j) = 0 := by
    rcases related_of_pairwise (horder.and hapart) (mem_placed hi hplacement)
      (mem_placed hj hplacement') (by simp; omega) with ⟨hle, hapart⟩ | ⟨hle, hapart⟩
    · have hlast : pass (request', j) = 0 := by
        by_contra hpass
        obtain ⟨row, column, hcovers, hcovers'⟩ := hoverlaps
        exact hapart hpass ⟨row, column, hcovers', hcovers⟩
      exact ⟨Nat.le_zero.mp (hlast ▸ hle), hlast⟩
    · have hlast : pass (request, i) = 0 := by
        by_contra hpass
        exact hapart hpass hoverlaps
      exact ⟨hlast, Nat.le_zero.mp (hlast ▸ hle)⟩
  exact ⟨pass_eq_zero_iff.mp hzero.1, pass_eq_zero_iff.mp hzero.2⟩

theorem le_requiredColumns {request : Request} (h : request ∈ requests) :
    request.1.start.getD 0 + max request.1.span 1 ≤ requiredColumns requests :=
  List.le_max?_getD_of_mem (List.mem_map.mpr ⟨request, h, rfl⟩)

/-- The passes place every item, and what they built is laid out. -/
theorem placeRowMajor_spec (auto : τ) (requests : List Request) (columns rows : List τ)
    (dense : Bool) :
    ∃ placements columns' rows',
      placeRowMajor auto requests columns rows dense = some (placements, columns', rows') ∧
      Laid auto requests columns rows dense placements columns' rows' := by
  have hinitial : Locked auto requests columns rows dense
      { columns, rows, occupied := [], rowCursors := fun _ => none
        result := List.replicate requests.length
          { column := 0, row := 0, columnSpan := 1, rowSpan := 1 } } [] := by
    refine ⟨⟨⟨0, Nat.zero_le _, (Table.empty 0).congr fun r c => ?_⟩, Extends.refl _,
      Extends.refl _, List.length_replicate, nofun, nofun, nofun⟩, fun width => Built.nil⟩
    simp [Taken]
  obtain ⟨first, made, hfirst, hlocked, hmade⟩ := placeLocked_pass true hinitial nofun
  obtain ⟨second, made', hsecond, hlocked', hmade'⟩ := placeLocked_pass false hlocked
    fun entry hentry => by
      have := List.mem_map_of_mem (f := Prod.fst) hentry
      rw [List.nil_append, hmade] at this
      simp at this
      simp [this.2]
  obtain ⟨⟨width, hwidth, htable⟩, -⟩ := id hlocked'.1
  obtain ⟨wide, hwideEq⟩ : ∃ wide, wide =
      resize second.columns (max second.columns.length (requiredColumns requests)) auto := ⟨_, rfl⟩
  have hwide : Extends auto second.columns wide := hwideEq ▸ extends_resize ..
  have hready : Automatic auto requests columns rows dense wide.length
      ((0, 0), { second with columns := wide }) ([] ++ made ++ made') :=
    ⟨hlocked'.1.grow hwide (Nat.le_trans hwidth hwide.length_le) htable, rfl, hlocked'.2 _,
      Nat.zero_le _, fun _ entry hentry htwo => by
        have := List.mem_map_of_mem (f := Prod.fst) hentry
        simp only [List.nil_append, List.map_append, hmade, hmade', List.mem_append] at this
        simp [htwo] at this⟩
  obtain ⟨⟨cursor, last⟩, made'', hlast, hautomatic, hmade''⟩ := placeAutomatic_pass hready
    (fun request hrequest => by
      rw [hwideEq, length_resize]
      exact Nat.le_trans (le_requiredColumns hrequest) (Nat.le_max_right ..))
    (fun entry hentry htwo => by
      have := List.mem_map_of_mem (f := Prod.fst) hentry
      simp only [List.nil_append, List.map_append, hmade, hmade', List.mem_append] at this
      simp [htwo] at this)
  refine ⟨last.result, last.columns, last.rows, ?_, ?_⟩
  · simp [placeRowMajor, hfirst, hsecond, ← hwideEq, hlast]
  have hplaced : placed requests last.result = [] ++ made ++ made' ++ made'' :=
    placed_eq (by simp [hmade, hmade', hmade'', placementOrder]) hautomatic.progress.result
  refine laid_of_built hautomatic.progress.columns hautomatic.progress.rows
    hautomatic.progress.length ?_ ?_
  · rw [hplaced, show last.columns.length = _ from hautomatic.width_eq]
    exact hautomatic.built
  · rw [hplaced]
    exact hautomatic.progress.inside

/-! ## Both flows -/

theorem Honours.transpose {request : Request} {placement : Placement}
    (h : Honours request.swap placement) : Honours request placement.transpose :=
  ⟨h.row, h.column, h.rowSpan, h.columnSpan⟩

theorem Placement.Overlaps.exchange {placement other : Placement}
    (h : placement.Overlaps other) : placement.transpose.Overlaps other.transpose := by
  obtain ⟨row, column, ⟨h₁, h₂, h₃, h₄⟩, h₁', h₂', h₃', h₄'⟩ := h
  exact ⟨column, row, ⟨h₃, h₄, h₁, h₂⟩, h₃', h₄', h₁', h₂'⟩

/-- The grid of a column flow is that of the row flow with exchanged axes. -/
theorem placeItems_columnFlow (auto : τ) (requests : List Request) (columns rows : List τ)
    (dense : Bool) :
    placeItems auto requests columns rows true dense =
      (placeItems auto (requests.map Prod.swap) rows columns false dense).map
        fun (placements, rows', columns') =>
          (placements.map Placement.transpose, columns', rows') := by
  show (do
    let (result, rows, columns) ← placeRowMajor auto (requests.map Prod.swap) rows columns dense
    return (result.map Placement.transpose, columns, rows)) =
      (placeRowMajor auto (requests.map Prod.swap) rows columns dense).map _
  cases placeRowMajor auto (requests.map Prod.swap) rows columns dense <;> rfl

/-- What holds of the areas in either flow. -/
structure Placed (requests : List Request) (placements : List Placement)
    (columns rows : List τ) : Prop where
  honours : ∀ (index : Nat) request placement, requests[index]? = some request →
    placements[index]? = some placement → Honours request placement
  length : placements.length = requests.length
  inside : ∀ placement ∈ placements,
    placement.column + placement.columnSpan ≤ columns.length ∧
      placement.row + placement.rowSpan ≤ rows.length
  definite : ∀ (i j : Nat) request request' placement placement', i ≠ j →
    requests[i]? = some request → placements[i]? = some placement →
    requests[j]? = some request' → placements[j]? = some placement' →
    placement.Overlaps placement' →
    (request.1.start.isSome ∧ request.2.start.isSome) ∧
      request'.1.start.isSome ∧ request'.2.start.isSome

theorem Laid.placed (h : Laid auto requests columns rows dense placements columns' rows') :
    Placed requests placements columns' rows' :=
  ⟨h.honours, h.length, h.inside, fun _ _ _ _ _ _ hne hi hplacement hj hplacement' hoverlaps =>
    h.definite hne hi hplacement hj hplacement' hoverlaps⟩

theorem Placed.transpose (h : Placed (requests.map Prod.swap) placements rows' columns') :
    Placed requests (placements.map Placement.transpose) columns' rows' := by
  have hswap : ∀ {index : Nat} {request}, requests[index]? = some request →
      (requests.map Prod.swap)[index]? = some request.swap := fun hrequest => by
    rw [List.getElem?_map, hrequest, Option.map_some]
  have hget : ∀ {index : Nat} {placement},
      (placements.map Placement.transpose)[index]? = some placement →
      placements[index]? = some placement.transpose := fun {index placement} hplacement => by
    rw [List.getElem?_map] at hplacement
    obtain ⟨old, hold, rfl⟩ := Option.map_eq_some_iff.mp hplacement
    exact hold
  refine ⟨fun index request placement hrequest hplacement => ?_, ?_, fun placement hplacement => ?_,
    fun i j request request' placement placement' hne hi hplacement hj hplacement' hoverlaps => ?_⟩
  · exact (h.honours index _ _ (hswap hrequest) (hget hplacement)).transpose
  · simpa using h.length
  · obtain ⟨old, hold, rfl⟩ := List.mem_map.mp hplacement
    exact (h.inside old hold).symm
  · obtain ⟨⟨hcolumn, hrow⟩, hcolumn', hrow'⟩ := h.definite i j _ _ _ _ hne (hswap hi)
      (hget hplacement) (hswap hj) (hget hplacement') hoverlaps.exchange
    exact ⟨⟨hrow, hcolumn⟩, hrow', hcolumn'⟩

/-- Every item is placed; the areas are as the flow says, and the removal of empty tracks, of the
columns and then of the rows, keeps them. -/
theorem placeItems_spec (auto : τ) (autoFit : τ → Bool) (requests : List Request)
    (columns rows : List τ) (columnFlow dense : Bool) :
    ∃ placements columns' rows',
      placeItems auto requests columns rows columnFlow dense = some (placements, columns', rows') ∧
      Placed requests placements columns' rows' ∧
      (columnFlow = false → Laid auto requests columns rows dense placements columns' rows') ∧
      (columnFlow = true →
        placeItems auto (requests.map Prod.swap) rows columns false dense =
          some (placements.map Placement.transpose, rows', columns') ∧
        Laid auto (requests.map Prod.swap) rows columns dense (placements.map Placement.transpose)
          rows' columns') ∧
      ∀ tracks tracks' : List τ, tracks.length = columns'.length →
        tracks'.length = rows'.length →
        let collapsed := collapseEmptyAutoFitTracks autoFit tracks placements true
        (∃ remaining, Collapsed autoFit tracks placements true collapsed remaining) ∧
          ∃ remaining, Collapsed autoFit tracks' collapsed.2 false
            (collapseEmptyAutoFitTracks autoFit tracks' collapsed.2 false) remaining := by
  obtain ⟨placements, columns', rows', hplaces, hplaced, hrow, hcolumn⟩ :
      ∃ placements columns' rows',
        placeItems auto requests columns rows columnFlow dense =
          some (placements, columns', rows') ∧
        Placed requests placements columns' rows' ∧
        (columnFlow = false → Laid auto requests columns rows dense placements columns' rows') ∧
        (columnFlow = true →
          placeItems auto (requests.map Prod.swap) rows columns false dense =
            some (placements.map Placement.transpose, rows', columns') ∧
          Laid auto (requests.map Prod.swap) rows columns dense
            (placements.map Placement.transpose) rows' columns') := by
    cases columnFlow with
    | false =>
      obtain ⟨placements, columns', rows', hplaces, hlaid⟩ :=
        placeRowMajor_spec auto requests columns rows dense
      exact ⟨placements, columns', rows', hplaces, hlaid.placed, fun _ => hlaid, nofun⟩
    | true =>
      obtain ⟨placements, rows', columns', hplaces, hlaid⟩ :=
        placeRowMajor_spec auto (requests.map Prod.swap) rows columns dense
      have hrow : placeItems auto (requests.map Prod.swap) rows columns false dense =
          some (placements, rows', columns') := hplaces
      have hback : (placements.map Placement.transpose).map Placement.transpose = placements := by
        rw [List.map_map]
        exact List.map_id placements
      refine ⟨placements.map Placement.transpose, columns', rows', ?_, hlaid.placed.transpose,
        nofun, fun _ => ?_⟩
      · rw [placeItems_columnFlow, hrow]
        rfl
      · rw [hback]
        exact ⟨hrow, hlaid⟩
  refine ⟨placements, columns', rows', hplaces, hplaced, hrow, hcolumn,
    fun tracks tracks' htracks htracks' => ⟨⟨_, collapseEmptyAutoFitTracks_spec autoFit ?_⟩,
      ⟨_, collapseEmptyAutoFitTracks_spec autoFit ?_⟩⟩⟩
  · intro placement hplacement
    rw [htracks]
    exact (hplaced.inside placement hplacement).1
  · refine @collapseEmptyAutoFitTracks_other _ _ _ true autoFit (fun placement hplacement => ?_) tracks
    rw [htracks']
    exact (hplaced.inside placement hplacement).2

end

end Omoikane.Layout
