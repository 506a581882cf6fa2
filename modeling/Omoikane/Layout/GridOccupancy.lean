import Omoikane.Layout.GridPlacement

/-!
# The table of cells

`Table occupied width taken` says that the rows of a table are `width` wide and that its cells are
set where `taken` holds; a cell outside the table is not set.  Growing the table keeps the cells
(`ensureOccupancy`), an area is free if no cell of it is taken (`areaIsFree`), and filling an area
takes its cells (`fillArea`).
-/

namespace Omoikane.Layout

/-! ## Lists -/

section

variable {α : Type}

theorem resize_of_le {items : List α} {length : Nat} (h : items.length ≤ length) (value : α) :
    resize items length value = items ++ List.replicate (length - items.length) value := by
  rw [resize, List.take_of_length_le h]

theorem length_resize (items : List α) (length : Nat) (value : α) :
    (resize items length value).length = length := by
  rw [resize, List.length_append, List.length_take, List.length_replicate]
  omega

theorem slice?_of_le {items : List α} {start length : Nat} (h : start + length ≤ items.length) :
    slice? items start length = some ((items.drop start).take length) := if_pos h

theorem mem_slice {items : List α} {start length : Nat} {item : α} :
    item ∈ (items.drop start).take length ↔
      ∃ i, start ≤ i ∧ i < start + length ∧ items[i]? = some item := by
  rw [List.mem_iff_getElem?]
  constructor
  · rintro ⟨i, hi⟩
    rw [List.getElem?_take] at hi
    split at hi
    next hlt =>
      rw [List.getElem?_drop] at hi
      exact ⟨start + i, Nat.le_add_right .., Nat.add_lt_add_left hlt start, hi⟩
    next => cases hi
  · rintro ⟨i, hstart, hlt, hi⟩
    refine ⟨i - start, ?_⟩
    rw [List.getElem?_take, if_pos (by omega), List.getElem?_drop, Nat.add_sub_cancel' hstart, hi]

/-- A part of a list is replaced by one of the same length. -/
theorem getElem?_replace {items part : List α} {start length : Nat} (hpart : part.length = length)
    (hlength : start + length ≤ items.length) (i : Nat) :
    (items.take start ++ part ++ items.drop (start + length))[i]? =
      if start ≤ i ∧ i < start + length then part[i - start]? else items[i]? := by
  have htake : (items.take start).length = start := List.length_take_of_le (by omega)
  rw [List.getElem?_append, List.length_append, htake, hpart]
  split
  next hlt =>
    rw [List.getElem?_append, htake]
    split
    next hstart => rw [if_neg (by omega), List.getElem?_take_of_lt hstart]
    next hstart => rw [if_pos (by omega)]
  next hlt =>
    rw [if_neg (by omega), List.getElem?_drop]
    congr 1
    omega

end

/-! ## Cells -/

/-- A cell of a table, not set where there is none. -/
def cell (occupied : List (List Bool)) (row column : Nat) : Bool :=
  ((occupied[row]?.getD [])[column]?).getD false

/-- An area covers a cell. -/
def Placement.Covers (placement : Placement) (row column : Nat) : Prop :=
  placement.row ≤ row ∧ row < placement.row + placement.rowSpan ∧
    placement.column ≤ column ∧ column < placement.column + placement.columnSpan

/-- A table of some width, in which some cells are set. -/
structure Table (occupied : List (List Bool)) (width : Nat) (taken : Nat → Nat → Prop) : Prop where
  width_eq : ∀ cells ∈ occupied, cells.length = width
  cell_iff : ∀ row column, cell occupied row column = true ↔ taken row column

namespace Table

variable {occupied : List (List Bool)} {width rows columns : Nat} {taken taken' : Nat → Nat → Prop}

theorem empty (width : Nat) : Table [] width fun _ _ => False where
  width_eq _ h := by cases h
  cell_iff row column := by
    rw [cell, List.getElem?_nil]
    exact ⟨nofun, nofun⟩

theorem congr (h : Table occupied width taken) (heq : ∀ row column, taken row column ↔ taken' row column) :
    Table occupied width taken' :=
  ⟨h.width_eq, fun row column => (h.cell_iff row column).trans (heq row column)⟩

/-- A cell that is taken is in the table. -/
theorem lt_of_taken (h : Table occupied width taken) {row column : Nat} (htaken : taken row column) :
    row < occupied.length ∧ column < width := by
  have hcell := (h.cell_iff row column).mpr htaken
  rw [cell] at hcell
  cases hrow : occupied[row]? with
  | none =>
    rw [hrow] at hcell
    cases hcell
  | some cells =>
    rw [hrow, Option.getD_some] at hcell
    obtain ⟨hlt, hget⟩ := List.getElem?_eq_some_iff.mp hrow
    refine ⟨hlt, ?_⟩
    rw [← h.width_eq cells (hget ▸ List.getElem_mem hlt)]
    by_contra hge
    rw [List.getElem?_eq_none (Nat.le_of_not_lt hge)] at hcell
    cases hcell

/-- The table is made wide enough, and its cells stay. -/
theorem resizeRows (h : Table occupied width taken) (hcolumns : width ≤ columns) :
    Table (resizeRows occupied columns) columns taken ∧
      (Layout.resizeRows occupied columns).length = occupied.length := by
  rw [Layout.resizeRows]
  cases hhead : occupied.head? with
  | none =>
    have hnil : occupied = [] := List.head?_eq_none_iff.mp hhead
    rw [hnil] at h ⊢
    exact ⟨⟨(fun _ hm => by cases hm), h.cell_iff⟩, rfl⟩
  | some first =>
    have hfirst := h.width_eq first (List.mem_of_head? hhead)
    dsimp only
    split
    next hne =>
      refine ⟨⟨fun cells hcells => ?_, fun row column => ?_⟩, List.length_map ..⟩
      · obtain ⟨old, -, rfl⟩ := List.mem_map.mp hcells
        exact length_resize ..
      · rw [← h.cell_iff row column, cell, cell, List.getElem?_map]
        cases hrow : occupied[row]? with
        | none => rfl
        | some cells =>
          have hold := h.width_eq cells (List.mem_of_getElem? hrow)
          rw [Option.map_some, Option.getD_some, Option.getD_some,
            resize_of_le (by omega), List.getElem?_append]
          split
          next => rfl
          next hge =>
            rw [List.getElem?_eq_none (Nat.le_of_not_lt hge), List.getElem?_replicate]
            split <;> exact Iff.rfl
    next heq =>
      have hcolumns' : width = columns := hfirst.symm.trans (not_not.mp heq)
      exact ⟨⟨hcolumns' ▸ h.width_eq, h.cell_iff⟩, rfl⟩

/-- The table is made wide and high enough, and its cells stay. -/
theorem ensureOccupancy (h : Table occupied width taken) (hcolumns : width ≤ columns) (rows : Nat) :
    Table (ensureOccupancy occupied rows columns) columns taken ∧
      (Layout.ensureOccupancy occupied rows columns).length = max occupied.length rows := by
  obtain ⟨hwide, hlength⟩ := h.resizeRows hcolumns
  rw [Layout.ensureOccupancy]
  split
  next hlt =>
    rw [length_resize]
    refine ⟨⟨fun cells hcells => ?_, fun row column => ?_⟩, by omega⟩
    · rw [resize_of_le (Nat.le_of_lt hlt)] at hcells
      rcases List.mem_append.mp hcells with hcells | hcells
      · exact hwide.width_eq cells hcells
      · rw [List.eq_of_mem_replicate hcells, List.length_replicate]
    · rw [← hwide.cell_iff row column, cell, cell, resize_of_le (Nat.le_of_lt hlt),
        List.getElem?_append]
      split
      next => exact Iff.rfl
      next hge =>
        rw [List.getElem?_eq_none (Nat.le_of_not_lt hge), List.getElem?_replicate]
        split
        · rw [Option.getD_some, Option.getD_none, List.getElem?_nil, List.getElem?_replicate]
          split <;> exact Iff.rfl
        · exact Iff.rfl
  next hge => exact ⟨hwide, by omega⟩

/-- An area inside the table is free if none of its cells is taken. -/
theorem areaIsFree (h : Table occupied width taken) {column row columnSpan rowSpan : Nat}
    (hrows : row + rowSpan ≤ occupied.length) (hcolumns : column + columnSpan ≤ width) :
    ∃ free, areaIsFree occupied column row columnSpan rowSpan = some free ∧
      (free = true ↔ ∀ r c, Placement.Covers ⟨column, row, columnSpan, rowSpan⟩ r c →
        ¬ taken r c) := by
  have hrow : ∀ cells ∈ occupied, (do
      let cells ← slice? cells column columnSpan
      return cells.all (!·) : Option Bool) =
        some (((cells.drop column).take columnSpan).all (!·)) := by
    intro cells hcells
    rw [slice?_of_le (by rw [h.width_eq cells hcells]; exact hcolumns)]
    rfl
  have hall : ∀ rows : List (List Bool), (∀ cells ∈ rows, cells ∈ occupied) →
      (rows.allM fun cells => (do
        let cells ← slice? cells column columnSpan
        return cells.all (!·) : Option Bool)) =
        some (rows.all fun cells => ((cells.drop column).take columnSpan).all (!·)) := by
    intro rows hmem
    induction rows with
    | nil => rfl
    | cons cells rows ih =>
      rw [List.allM, hrow cells (hmem cells List.mem_cons_self), List.all_cons]
      have hrest := ih fun other hother => hmem other (List.mem_cons_of_mem _ hother)
      cases hfree : ((cells.drop column).take columnSpan).all (!·) with
      | false => rfl
      | true => exact hrest
  refine ⟨((occupied.drop row).take rowSpan).all fun cells =>
    ((cells.drop column).take columnSpan).all (!·), ?_, ?_⟩
  · rw [Layout.areaIsFree, slice?_of_le hrows]
    exact hall _ fun cells hcells => List.mem_of_mem_drop (List.mem_of_mem_take hcells)
  · have hcell : ∀ r c, cell occupied r c = true ↔ ∃ cells, occupied[r]? = some cells ∧
        cells[c]? = some true := by
      intro r c
      rw [cell]
      cases occupied[r]? with
      | none => exact ⟨nofun, nofun⟩
      | some cells =>
        rw [Option.getD_some]
        constructor
        · intro hget
          refine ⟨cells, rfl, ?_⟩
          cases hc : cells[c]? with
          | none => rw [hc] at hget; cases hget
          | some bit => rw [hc] at hget; exact congrArg some hget
        · rintro ⟨_, ⟨⟩, hget⟩
          rw [hget]
          rfl
    rw [List.all_eq_true]
    constructor
    · rintro hfree r c ⟨hr, hr', hc, hc'⟩ htaken
      obtain ⟨cells, hcells, hbit⟩ := (hcell r c).mp ((h.cell_iff r c).mpr htaken)
      have hbits := List.all_eq_true.mp (hfree cells (mem_slice.mpr ⟨r, hr, hr', hcells⟩))
      have := hbits true (mem_slice.mpr ⟨c, hc, hc', hbit⟩)
      cases this
    · intro hfree cells hcells
      obtain ⟨r, hr, hr', hcells⟩ := mem_slice.mp hcells
      refine List.all_eq_true.mpr fun bit hbit => ?_
      obtain ⟨c, hc, hc', hbit⟩ := mem_slice.mp hbit
      cases bit with
      | false => rfl
      | true =>
        refine (hfree r c ⟨hr, hr', hc, hc'⟩ ((h.cell_iff r c).mp ?_)).elim
        exact (hcell r c).mpr ⟨cells, hcells, hbit⟩

/-- A row of the table with the cells of an area set. -/
def filledRow (placement : Placement) (cells : List Bool) : List Bool :=
  cells.take placement.column ++ List.replicate placement.columnSpan true ++
    cells.drop (placement.column + placement.columnSpan)

/-- Setting the cells of a row keeps its width and the other cells. -/
theorem filledRow_spec (h : Table occupied width taken) {placement : Placement}
    (hcolumns : placement.column + placement.columnSpan ≤ width) {cells : List Bool}
    (hcells : cells ∈ occupied) :
    fill cells placement.column placement.columnSpan = some (filledRow placement cells) ∧
      (filledRow placement cells).length = width ∧ ∀ c : Nat,
        (filledRow placement cells)[c]?.getD false = true ↔ cells[c]?.getD false = true ∨
          (placement.column ≤ c ∧ c < placement.column + placement.columnSpan) := by
  have hwidth := h.width_eq cells hcells
  refine ⟨if_pos (by rw [hwidth]; exact hcolumns), ?_, fun c => ?_⟩
  · simp only [filledRow, List.length_append, List.length_take, List.length_replicate,
      List.length_drop]
    omega
  · rw [filledRow, getElem?_replace List.length_replicate (by omega)]
    split
    next hc =>
      rw [List.getElem?_replicate, if_pos (by omega)]
      exact ⟨fun _ => .inr hc, fun _ => rfl⟩
    next hc => exact (or_iff_left hc).symm

/-- The cells of an area inside the table are set. -/
theorem fillArea (h : Table occupied width taken) {placement : Placement}
    (hrows : placement.row + placement.rowSpan ≤ occupied.length)
    (hcolumns : placement.column + placement.columnSpan ≤ width) :
    ∃ filled, fillArea occupied placement = some filled ∧ filled.length = occupied.length ∧
      Table filled width fun r c => taken r c ∨ placement.Covers r c := by
  have hmapM : ∀ rows : List (List Bool), (∀ cells ∈ rows, cells ∈ occupied) →
      rows.mapM (fill · placement.column placement.columnSpan) = some (rows.map (filledRow placement)) := by
    intro rows hmem
    induction rows with
    | nil => rfl
    | cons cells rows ih =>
      rw [List.mapM_cons, (h.filledRow_spec hcolumns (hmem cells List.mem_cons_self)).1,
        ih fun other hother => hmem other (List.mem_cons_of_mem _ hother)]
      rfl
  -- the rows of the area
  have hlength : (((occupied.drop placement.row).take placement.rowSpan).map (filledRow placement)).length =
      placement.rowSpan := by
    rw [List.length_map, List.length_take, List.length_drop]
    omega
  have hget : ∀ i, (occupied.take placement.row ++
      ((occupied.drop placement.row).take placement.rowSpan).map (filledRow placement) ++
      occupied.drop (placement.row + placement.rowSpan))[i]? =
        if placement.row ≤ i ∧ i < placement.row + placement.rowSpan then
          occupied[i]?.map (filledRow placement) else occupied[i]? := by
    intro i
    rw [getElem?_replace hlength hrows]
    split
    next hi =>
      rw [List.getElem?_map, List.getElem?_take, if_pos (by omega), List.getElem?_drop]
      congr 2
      omega
    next => rfl
  refine ⟨occupied.take placement.row ++
    ((occupied.drop placement.row).take placement.rowSpan).map (filledRow placement) ++
      occupied.drop (placement.row + placement.rowSpan),
    ?_, ?_, fun cells hcells => ?_, fun r c => ?_⟩
  · rw [Layout.fillArea, slice?_of_le hrows, Option.bind_eq_bind, Option.bind_some,
      hmapM _ fun cells hcells => List.mem_of_mem_drop (List.mem_of_mem_take hcells)]
    rfl
  · rw [List.length_append, List.length_append, hlength, List.length_take, List.length_drop]
    omega
  · obtain ⟨i, hi⟩ := List.mem_iff_getElem?.mp hcells
    rw [hget] at hi
    split at hi
    · obtain ⟨old, hold, rfl⟩ := Option.map_eq_some_iff.mp hi
      exact (h.filledRow_spec hcolumns (List.mem_of_getElem? hold)).2.1
    · exact h.width_eq cells (List.mem_of_getElem? hi)
  · rw [← h.cell_iff r c, cell, cell, hget]
    by_cases hr : placement.row ≤ r ∧ r < placement.row + placement.rowSpan
    · rw [if_pos hr]
      cases hcells : occupied[r]? with
      | none =>
        obtain ⟨-, hlt⟩ := hr
        rw [List.getElem?_eq_none_iff] at hcells
        omega
      | some cells =>
        rw [Option.map_some, Option.getD_some, Option.getD_some,
          (h.filledRow_spec hcolumns (List.mem_of_getElem? hcells)).2.2 c, Placement.Covers]
        exact or_congr Iff.rfl ⟨fun hc => ⟨hr.1, hr.2, hc⟩, fun hc => hc.2.2⟩
    · rw [if_neg hr]
      exact (or_iff_left fun hcovers => hr ⟨hcovers.1, hcovers.2.1⟩).symm

end Table

end Omoikane.Layout
