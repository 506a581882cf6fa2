import Omoikane.Layout.GridOccupancy

/-!
# The slots of a table

Four functions walk over the rows of a table and find out for themselves which columns a cell covers.
Each remembers for every column how many rows are still covered from above: it takes one from all of
them at the start of a row, passes over the columns that are covered, and sets those of the cell.
They differ in how they set them, in what they do about columns that do not exist yet, and where
they cut a span.

What they are compared to is the forming of a table, which remembers the cells themselves.

The walks are here as far as the columns go: they return those of each cell in place of what is
measured in them.  An index out of range, which panics in the code, gives `none`.
-/

namespace Omoikane.Layout.Table

/-- A cell, as far as its spans go. -/
structure Cell where
  colspan : Nat
  rowspan : Nat
  colspan_pos : 1 ≤ colspan
  colspan_le : colspan ≤ 1000
  rowspan_pos : 1 ≤ rowspan

/-- The columns of a cell: from `start` on, up to `stop`. -/
structure Slots where
  start : Nat
  stop : Nat
deriving DecidableEq, Repr

/-! ## The walks -/

/-- The loop that passes over covered columns, of which so many are left. -/
def skipOccupied (occupied : List Nat) : Nat → Nat → Option Nat
  | 0, column => some column
  | left + 1, column => do
    let remaining ← occupied[column]?
    if 0 < remaining then skipOccupied occupied left (column + 1) else some column

/-- A row begins. -/
def descend (occupied : List Nat) : List Nat := occupied.map (· - 1)

/-- Some columns are set. -/
def setColumns (occupied : List Nat) (start stop : Nat) (value : Nat → Nat) : List Nat :=
  occupied.mapIdx fun column remaining =>
    if start ≤ column ∧ column < stop then value remaining else remaining

/-- `for … in &mut occupied[start..stop]`. -/
def setSlice (occupied : List Nat) (start stop : Nat) (value : Nat → Nat) : Option (List Nat) :=
  if start ≤ stop ∧ stop ≤ occupied.length then some (setColumns occupied start stop value) else none

/-- The columns of a cell that goes on below its row are set to its span, unless they are covered for
longer. -/
def raiseSlice (rowspan : Nat) (occupied : List Nat) (start stop : Nat) : Option (List Nat) :=
  if 1 < rowspan then setSlice occupied start stop (max · rowspan) else some occupied

/-- The cells of a row in `table_column_count`, with where the cursor is left. -/
def countRow : List Cell → Nat → List Nat → Option (List Slots × Nat × List Nat)
  | [], cursor, occupied => some ([], cursor, occupied)
  | cell :: cells, cursor, occupied => do
    let cursor ← skipOccupied occupied (occupied.length - cursor) cursor
    let stop := cursor + cell.colspan
    let occupied := if occupied.length < stop then resize occupied stop 0 else occupied
    let occupied ← raiseSlice cell.rowspan occupied cursor stop
    let (slots, last, occupied) ← countRow cells stop occupied
    return (⟨cursor, stop⟩ :: slots, last, occupied)

/-- The rows of `table_column_count`. -/
def countRows : List (List Cell) → List Nat → Nat → Option (List (List Slots) × Nat)
  | [], _, maxColumns => some ([], maxColumns)
  | entry :: entries, occupied, maxColumns => do
    let (slots, cursor, occupied) ← countRow entry 0 (descend occupied)
    let (rows, maxColumns) ←
      countRows entries occupied (max maxColumns (max cursor occupied.length))
    return (slots :: rows, maxColumns)

/-- `table_column_count`, with the columns of the cells. -/
def tableColumnCount (entries : List (List Cell)) : Option (List (List Slots) × Nat) := do
  let (rows, maxColumns) ← countRows entries [] 0
  return (rows, max maxColumns 1)

section

variable (count : Nat) (stopOf : Cell → Nat → Nat)
  (mark : Cell → Nat → Nat → List Nat → Option (List Nat))

/-- The cells of a row, where there are so many columns. -/
def walkRow : List Cell → Nat → List Nat → Option (List Slots × List Nat)
  | [], _, occupied => some ([], occupied)
  | cell :: cells, column, occupied => do
    let column ← skipOccupied occupied (count - column) column
    if count ≤ column then return ([], occupied)
    let stop := stopOf cell column
    let occupied ← mark cell column stop occupied
    let (slots, occupied) ← walkRow cells stop occupied
    return (⟨column, stop⟩ :: slots, occupied)

/-- The rows of a table. -/
def walkRows : List (List Cell) → List Nat → Option (List (List Slots))
  | [], _ => some []
  | entry :: entries, occupied => do
    let (slots, occupied) ← walkRow count stopOf mark entry 0 (descend occupied)
    let rows ← walkRows entries occupied
    return slots :: rows

end

/-- `layout_table_row_entry` for one row after the other.  A column that does not exist is not set. -/
def layoutTableRowEntries (entries : List (List Cell)) (count : Nat) : Option (List (List Slots)) :=
  walkRows count (fun cell column => column + min cell.colspan (max (count - column) 1))
    (fun cell column stop occupied =>
      some (if 1 < cell.rowspan then setColumns occupied column stop (max · cell.rowspan)
        else occupied))
    entries (List.replicate count 0)

/-- `compute_table_column_widths`. -/
def computeTableColumnWidths (entries : List (List Cell)) (count : Nat) :
    Option (List (List Slots)) :=
  walkRows count (fun cell column => min (column + cell.colspan) count)
    (fun cell column stop occupied => raiseSlice cell.rowspan occupied column stop)
    entries (List.replicate count 0)

/-- `collapsed_outer_border`, which sets the columns of every cell, and to its own span. -/
def collapsedOuterBorder (entries : List (List Cell)) (count : Nat) : Option (List (List Slots)) :=
  walkRows count (fun cell column => column + min cell.colspan (count - column))
    (fun cell column stop occupied => setSlice occupied column stop fun _ => cell.rowspan)
    entries (List.replicate count 0)

/-! ## Forming a table -/

/-- A cell with the slot it starts in. -/
structure Placed where
  row : Nat
  column : Nat
  cell : Cell

/-- A cell covers a column. -/
def Placed.Spans (placed : Placed) (column : Nat) : Prop :=
  placed.column ≤ column ∧ column < placed.column + placed.cell.colspan

/-- A cell covers a row, which is not above it. -/
def Placed.Reaches (placed : Placed) (row : Nat) : Prop := row < placed.row + placed.cell.rowspan

instance (placed : Placed) (column : Nat) : Decidable (placed.Spans column) :=
  inferInstanceAs (Decidable (_ ∧ _))

instance (placed : Placed) (row : Nat) : Decidable (placed.Reaches row) :=
  inferInstanceAs (Decidable (_ < _))

/-- A table as it is formed: its width and its cells, the last one first. -/
structure Forming where
  width : Nat
  cells : List Placed

namespace Forming

/-- The cell is put into its slots. -/
def place (table : Forming) (row column : Nat) (cell : Cell) : Forming where
  width := max table.width (column + cell.colspan)
  cells := ⟨row, column, cell⟩ :: table.cells

/-- A slot has a cell. -/
def Covered (table : Forming) (row column : Nat) : Prop :=
  ∃ placed ∈ table.cells, placed.Spans column ∧ placed.Reaches row

/-- A slot has the cell that was the last one to be put into its column. -/
def LastCovers (table : Forming) (row column : Nat) : Prop :=
  ∃ placed, table.cells.find? (·.Spans column) = some placed ∧ placed.Reaches row

instance (table : Forming) (row : Nat) : DecidablePred (table.Covered row) :=
  fun _ => inferInstanceAs (Decidable (∃ placed ∈ table.cells, _))

end Forming

/-- The first column that is not covered, among so many. -/
def firstFree (covered : Nat → Prop) [DecidablePred covered] : Nat → Nat → Nat
  | 0, column => column
  | left + 1, column => if covered column then firstFree covered left (column + 1) else column

/-- The slot for a cell: the first one of the row that is free, at the latest the one behind the
table. -/
def slotFor (table : Forming) (row cursor : Nat) : Nat :=
  firstFree (table.Covered row) (table.width - cursor) cursor

/-- The cells of a row are put into their slots. -/
def formRow (row : Nat) : List Cell → Nat → Forming → List Slots × Forming
  | [], _, table => ([], table)
  | cell :: cells, cursor, table =>
    let column := slotFor table row cursor
    let (slots, table) :=
      formRow row cells (column + cell.colspan) (table.place row column cell)
    (⟨column, column + cell.colspan⟩ :: slots, table)

/-- The rows of a table. -/
def formRows : Nat → List (List Cell) → Forming → List (List Slots) × Forming
  | _, [], table => ([], table)
  | row, entry :: entries, table =>
    let (slots, table) := formRow row entry 0 table
    let (rows, table) := formRows (row + 1) entries table
    (slots :: rows, table)

/-- The columns of the cells of a table, by row. -/
def formed (entries : List (List Cell)) : List (List Slots) := (formRows 0 entries ⟨0, []⟩).1

/-- The slots that are passed over in a row satisfy a predicate. -/
def RowPasses (cov : Forming → Nat → Nat → Prop) (row : Nat) : List Cell → Nat → Forming → Prop
  | [], _, _ => True
  | cell :: cells, cursor, table =>
    (∀ column, cursor ≤ column → column < slotFor table row cursor → cov table row column) ∧
      RowPasses cov row cells (slotFor table row cursor + cell.colspan)
        (table.place row (slotFor table row cursor) cell)

/-- The slots that are passed over in some rows satisfy a predicate. -/
def RowsPass (cov : Forming → Nat → Nat → Prop) : Nat → List (List Cell) → Forming → Prop
  | _, [], _ => True
  | row, entry :: entries, table =>
    RowPasses cov row entry 0 table ∧ RowsPass cov (row + 1) entries (formRow row entry 0 table).2

/-- No slot that is passed over is covered only by a cell over which another one was put since. -/
def Uncut (entries : List (List Cell)) : Prop := RowsPass Forming.LastCovers 0 entries ⟨0, []⟩

/-- The walks give all cells the columns that forming the table gives them, those after the first one
with the number of columns that it returns. -/
def WalksAgree (entries : List (List Cell)) : Prop :=
  ∃ count, tableColumnCount entries = some (formed entries, count) ∧
    layoutTableRowEntries entries count = some (formed entries) ∧
    computeTableColumnWidths entries count = some (formed entries) ∧
    collapsedOuterBorder entries count = some (formed entries)

/-! ## The first free column -/

section

variable {covered : Nat → Prop} [DecidablePred covered]

theorem le_firstFree : ∀ (left column : Nat), column ≤ firstFree covered left column
  | 0, _ => Nat.le_refl _
  | left + 1, column => by
    rw [firstFree]
    split
    · exact Nat.le_of_succ_le (le_firstFree left (column + 1))
    · exact Nat.le_refl _

theorem firstFree_le : ∀ (left column : Nat), firstFree covered left column ≤ column + left
  | 0, _ => Nat.le_refl _
  | left + 1, column => by
    rw [firstFree]
    split
    · have := firstFree_le left (column + 1)
      omega
    · exact Nat.le_add_right ..

theorem covered_of_lt_firstFree : ∀ (left column : Nat) {other : Nat}, column ≤ other →
    other < firstFree covered left column → covered other
  | 0, column, other, hle, hlt => absurd hlt (Nat.not_lt.mpr hle)
  | left + 1, column, other, hle, hlt => by
    rw [firstFree] at hlt
    split at hlt
    · next hcovered =>
        obtain rfl | hlt' := Nat.eq_or_lt_of_le hle
        · exact hcovered
        · exact covered_of_lt_firstFree left (column + 1) hlt' hlt
    · exact absurd hlt (Nat.not_lt.mpr hle)

theorem firstFree_not_covered : ∀ (left column : Nat), ¬ covered (column + left) →
    ¬ covered (firstFree covered left column)
  | 0, _, h => h
  | left + 1, column, h => by
    rw [firstFree]
    split
    · exact firstFree_not_covered left (column + 1) (by rwa [Nat.add_right_comm])
    · assumption

/-- A column behind covered ones that is not covered is the first free one. -/
theorem firstFree_eq : ∀ (left column : Nat) {free : Nat}, column ≤ free → free ≤ column + left →
    (∀ other, column ≤ other → other < free → covered other) → ¬ covered free →
    firstFree covered left column = free
  | 0, column, free, hle, hfree, _, _ => Nat.le_antisymm hle hfree
  | left + 1, column, free, hle, hfree, hall, hnot => by
    rw [firstFree]
    obtain rfl | hlt := Nat.eq_or_lt_of_le hle
    · rw [if_neg hnot]
    · rw [if_pos (hall column (Nat.le_refl _) hlt)]
      exact firstFree_eq left (column + 1) hlt (by omega)
        (fun other hother => hall other (Nat.le_of_succ_le hother)) hnot

end

/-- How many rows of a column are still covered. -/
def remaining (occupied : List Nat) (column : Nat) : Nat := occupied[column]?.getD 0

theorem skipOccupied_eq (occupied : List Nat) : ∀ (left column : Nat),
    column + left ≤ occupied.length →
    skipOccupied occupied left column = some (firstFree (0 < remaining occupied ·) left column)
  | 0, _, _ => rfl
  | left + 1, column, h => by
    have hget := List.getElem?_eq_getElem (l := occupied) (i := column) (by omega)
    rw [skipOccupied, firstFree, remaining, hget, Option.bind_eq_bind, Option.bind_some,
      Option.getD_some]
    split
    · exact skipOccupied_eq occupied left (column + 1) (by omega)
    · rfl

theorem remaining_descend (occupied : List Nat) (column : Nat) :
    remaining (descend occupied) column = remaining occupied column - 1 := by
  rw [remaining, remaining, descend, List.getElem?_map]
  cases occupied[column]? <;> rfl

theorem remaining_setColumns (occupied : List Nat) {start stop column : Nat} (value : Nat → Nat)
    (h : stop ≤ occupied.length) :
    remaining (setColumns occupied start stop value) column =
      if start ≤ column ∧ column < stop then value (remaining occupied column)
      else remaining occupied column := by
  rw [remaining, remaining, setColumns, List.getElem?_mapIdx]
  split
  · rw [List.getElem?_eq_getElem (by omega)]
    rfl
  · cases occupied[column]? <;> rfl

theorem length_setColumns (occupied : List Nat) (start stop : Nat) (value : Nat → Nat) :
    (setColumns occupied start stop value).length = occupied.length := List.length_mapIdx

theorem remaining_resize (occupied : List Nat) {length column : Nat}
    (h : occupied.length ≤ length) :
    remaining (resize occupied length 0) column = remaining occupied column := by
  rw [remaining, remaining, resize, List.take_of_length_le h]
  obtain hlt | hle := Nat.lt_or_ge column occupied.length
  · rw [List.getElem?_append_left hlt]
  · rw [List.getElem?_append_right hle, List.getElem?_eq_none hle, List.getElem?_replicate]
    split <;> rfl

/-! ## What the walks remember -/

/-- The counts tell which slots are covered: those of the row from a column on, and those of the rows
below. -/
structure Represents (cov : Nat → Nat → Prop) (row cursor : Nat) (occupied : List Nat) : Prop where
  below : ∀ column k, k + 1 < remaining occupied column ↔ cov (row + 1 + k) column
  ahead : ∀ column, cursor ≤ column → (0 < remaining occupied column ↔ cov row column)

/-- At the start of the next row the counts tell about all of its slots. -/
theorem Represents.descend {cov : Nat → Nat → Prop} {row cursor : Nat} {occupied : List Nat}
    (h : Represents cov row cursor occupied) :
    Represents cov (row + 1) 0 (Table.descend occupied) := by
  constructor
  · intro column k
    rw [remaining_descend, Nat.lt_sub_iff_add_lt, h.below column (k + 1)]
    rw [Nat.add_assoc (row + 1), Nat.add_comm 1 k]
  · intro column _
    rw [remaining_descend, Nat.lt_sub_iff_add_lt, h.below column 0]

/-- Nothing is covered in a table without cells. -/
theorem represents_replicate {cov : Nat → Nat → Prop} (h : ∀ row column, ¬ cov row column)
    (count : Nat) : Represents cov 0 0 (Table.descend (List.replicate count 0)) := by
  have hzero : ∀ column, remaining (Table.descend (List.replicate count 0)) column = 0 := by
    intro column
    rw [remaining_descend, remaining, List.getElem?_replicate]
    split <;> rfl
  constructor
  · intro column k
    rw [hzero]
    exact ⟨fun hlt => absurd hlt (Nat.not_lt_zero _), fun hcov => absurd hcov (h _ _)⟩
  · intro column _
    rw [hzero]
    exact ⟨fun hlt => absurd hlt (Nat.not_lt_zero _), fun hcov => absurd hcov (h _ _)⟩

section

variable {table : Forming} {row cursor column : Nat} {cell : Cell} {occupied occupied' : List Nat}

theorem covered_place {row' other : Nat} : (table.place row column cell).Covered row' other ↔
    ((column ≤ other ∧ other < column + cell.colspan) ∧ row' < row + cell.rowspan) ∨
      table.Covered row' other :=
  List.exists_mem_cons_iff ..

theorem lastCovers_place {row' other : Nat} : (table.place row column cell).LastCovers row' other ↔
    if column ≤ other ∧ other < column + cell.colspan then row' < row + cell.rowspan
    else table.LastCovers row' other := by
  rw [Forming.LastCovers, Forming.place, List.find?_cons]
  by_cases hspans : column ≤ other ∧ other < column + cell.colspan
  · have hdecide : decide (Placed.Spans ⟨row, column, cell⟩ other) = true := decide_eq_true hspans
    rw [if_pos hspans, hdecide]
    simp only [Option.some.injEq, exists_eq_left']
    exact Iff.rfl
  · have hdecide : decide (Placed.Spans ⟨row, column, cell⟩ other) = false := decide_eq_false hspans
    rw [if_neg hspans, hdecide]
    exact Iff.rfl

theorem Forming.LastCovers.covered {row column : Nat} (h : table.LastCovers row column) :
    table.Covered row column := by
  obtain ⟨placed, hfind, hreaches⟩ := h
  have hspans := List.find?_some hfind
  exact ⟨placed, List.mem_of_find?_eq_some hfind, of_decide_eq_true hspans, hreaches⟩

/-- Raising the counts of the columns of a cell to its span keeps track of all cells. -/
theorem Represents.raise (h : Represents table.Covered row cursor occupied) (hle : cursor ≤ column)
    (hset : ∀ other, remaining occupied' other =
      if 1 < cell.rowspan ∧ column ≤ other ∧ other < column + cell.colspan then
        max (remaining occupied other) cell.rowspan
      else remaining occupied other) :
    Represents (table.place row column cell).Covered row (column + cell.colspan) occupied' := by
  constructor
  · intro other k
    rw [covered_place, ← h.below, hset]
    split <;> omega
  · intro other hother
    rw [covered_place, ← h.ahead other (by omega), hset, if_neg (by omega)]
    omega

/-- Setting the counts of the columns of a cell to its span keeps track of the last cells. -/
theorem Represents.overwrite (h : Represents table.LastCovers row cursor occupied)
    (hle : cursor ≤ column)
    (hset : ∀ other, remaining occupied' other =
      if column ≤ other ∧ other < column + cell.colspan then cell.rowspan
      else remaining occupied other) :
    Represents (table.place row column cell).LastCovers row (column + cell.colspan) occupied' := by
  constructor
  · intro other k
    rw [lastCovers_place, ← h.below, hset]
    split <;> omega
  · intro other hother
    rw [lastCovers_place, ← h.ahead other (by omega), hset, if_neg (by omega), if_neg (by omega)]

end

/-! ## The table that is formed -/

/-- The cells of a table are in its width. -/
def Forming.Within (table : Forming) : Prop :=
  ∀ placed ∈ table.cells, placed.column + placed.cell.colspan ≤ table.width

section

variable {table : Forming} {row cursor : Nat}

theorem Forming.Within.place (h : table.Within) (row column : Nat) (cell : Cell) :
    (table.place row column cell).Within := by
  intro placed hplaced
  cases hplaced with
  | head => exact Nat.le_max_right ..
  | tail _ hplaced => exact Nat.le_trans (h placed hplaced) (Nat.le_max_left ..)

/-- The slot for a cell is the first one of the row that is not covered. -/
theorem slotFor_spec (h : table.Within) (row : Nat) (hcursor : cursor ≤ table.width) :
    cursor ≤ slotFor table row cursor ∧ slotFor table row cursor ≤ table.width ∧
      (∀ column, cursor ≤ column → column < slotFor table row cursor → table.Covered row column) ∧
      ¬ table.Covered row (slotFor table row cursor) := by
  have hle := @firstFree_le (table.Covered row) _ (table.width - cursor) cursor
  refine ⟨le_firstFree .., by rw [slotFor]; omega,
    fun column => covered_of_lt_firstFree (table.width - cursor) cursor,
    firstFree_not_covered _ _ ?_⟩
  rintro ⟨placed, hplaced, ⟨-, hlt⟩, -⟩
  have hwithin := h placed hplaced
  omega

theorem width_formRow (row : Nat) : ∀ (cells : List Cell) (cursor : Nat) (table : Forming),
    table.width ≤ (formRow row cells cursor table).2.width
  | [], _, _ => Nat.le_refl _
  | cell :: cells, _, table =>
    Nat.le_trans (Nat.le_max_left ..) (width_formRow row cells _ (table.place row _ cell))

theorem width_formRows : ∀ (row : Nat) (entries : List (List Cell)) (table : Forming),
    table.width ≤ (formRows row entries table).2.width
  | _, [], _ => Nat.le_refl _
  | row, entry :: entries, table =>
    Nat.le_trans (width_formRow row entry 0 table) (width_formRows (row + 1) entries _)

/-- Every slot that is passed over is covered. -/
theorem rowPasses_covered (row : Nat) : ∀ (cells : List Cell) {cursor : Nat} {table : Forming},
    RowPasses Forming.Covered row cells cursor table
  | [], _, _ => trivial
  | _ :: cells, _, table =>
    ⟨fun _ => covered_of_lt_firstFree (table.width - _) _, rowPasses_covered row cells⟩

theorem rowsPass_covered : ∀ (row : Nat) (entries : List (List Cell)) (table : Forming),
    RowsPass Forming.Covered row entries table
  | _, [], _ => trivial
  | row, entry :: entries, _ => ⟨rowPasses_covered row entry, rowsPass_covered (row + 1) entries _⟩

end

/-! ## The walks with a number of columns -/

section

variable {count : Nat} {stopOf : Cell → Nat → Nat}
  {mark : Cell → Nat → Nat → List Nat → Option (List Nat)} {cov : Forming → Nat → Nat → Prop}

/-- A walk cuts no span that is inside the table, and the counts that it sets tell which slots are
covered. -/
structure Tracks (count : Nat) (stopOf : Cell → Nat → Nat)
    (mark : Cell → Nat → Nat → List Nat → Option (List Nat))
    (cov : Forming → Nat → Nat → Prop) : Prop where
  stop : ∀ (cell : Cell) column, column + cell.colspan ≤ count →
    stopOf cell column = column + cell.colspan
  mark : ∀ (cell : Cell) column occupied, column + cell.colspan ≤ count →
    occupied.length = count →
    ∃ occupied', mark cell column (column + cell.colspan) occupied = some occupied' ∧
      occupied'.length = count ∧ ∀ table row cursor, cursor ≤ column →
        Represents (cov table) row cursor occupied →
        Represents (cov (table.place row column cell)) row (column + cell.colspan) occupied'
  covered : ∀ {table row column}, cov table row column → table.Covered row column

/-- Where a walk is: its counts tell which slots are covered. -/
structure At (cov : Forming → Nat → Nat → Prop) (count row cursor : Nat) (table : Forming)
    (occupied : List Nat) : Prop where
  within : table.Within
  cursor_le : cursor ≤ table.width
  length : occupied.length = count
  represents : Represents (cov table) row cursor occupied

/-- The walk passes over the columns that its counts tell to be covered. -/
theorem At.skipOccupied_eq {row cursor : Nat} {table : Forming} {occupied : List Nat}
    (h : At cov count row cursor table occupied) (hwidth : table.width ≤ count) :
    skipOccupied occupied (count - cursor) cursor =
      some (firstFree (0 < remaining occupied ·) (count - cursor) cursor) := by
  have hcursor := h.cursor_le
  have hlength := h.length
  exact Table.skipOccupied_eq occupied _ _ (by omega)

/-- A walk finds the slot of a cell if what is passed over is covered in its counts. -/
theorem At.firstFree_eq {row cursor : Nat} {table : Forming} {occupied : List Nat}
    (tracks : Tracks count stopOf mark cov) (h : At cov count row cursor table occupied)
    (hwidth : table.width ≤ count)
    (hpasses : ∀ column, cursor ≤ column → column < slotFor table row cursor →
      cov table row column) :
    firstFree (0 < remaining occupied ·) (count - cursor) cursor = slotFor table row cursor := by
  obtain ⟨hle, hlt, -, hnot⟩ := slotFor_spec h.within row h.cursor_le
  refine Table.firstFree_eq _ _ hle (by omega) (fun other hother hother' => ?_) fun hremaining => ?_
  · exact (h.represents.ahead other hother).mpr (hpasses other hother hother')
  · exact hnot (tracks.covered ((h.represents.ahead _ hle).mp hremaining))

/-- After a cell the walk is behind it. -/
theorem At.place {row cursor : Nat} {table : Forming} {occupied : List Nat}
    (tracks : Tracks count stopOf mark cov) (h : At cov count row cursor table occupied)
    (cell : Cell) (hstop : slotFor table row cursor + cell.colspan ≤ count) :
    ∃ occupied', mark cell (slotFor table row cursor) (slotFor table row cursor + cell.colspan)
        occupied = some occupied' ∧
      At cov count row (slotFor table row cursor + cell.colspan)
        (table.place row (slotFor table row cursor) cell) occupied' := by
  obtain ⟨occupied', hmark, hlength, hrepresents⟩ := tracks.mark cell _ occupied hstop h.length
  exact ⟨occupied', hmark, h.within.place _ _ _, Nat.le_max_right .., hlength,
    hrepresents table row cursor (slotFor_spec h.within row h.cursor_le).1 h.represents⟩

/-- A walk gives the cells of a row their slots if what is passed over is covered in its counts. -/
theorem walkRow_formRow (tracks : Tracks count stopOf mark cov) (row : Nat) :
    ∀ (cells : List Cell) {cursor : Nat} {table : Forming} {occupied : List Nat},
      At cov count row cursor table occupied → (formRow row cells cursor table).2.width ≤ count →
      RowPasses cov row cells cursor table →
      ∃ cursor' occupied', walkRow count stopOf mark cells cursor occupied =
          some ((formRow row cells cursor table).1, occupied') ∧
        At cov count row cursor' (formRow row cells cursor table).2 occupied'
  | [], cursor, _, occupied, h, _, _ => ⟨cursor, occupied, rfl, h⟩
  | cell :: cells, cursor, table, occupied, h, hwidth, hpasses => by
    have hmono := width_formRow row cells (slotFor table row cursor + cell.colspan)
      (table.place row (slotFor table row cursor) cell)
    have hplaced := Nat.le_trans hmono hwidth
    have htable : table.width ≤ count := Nat.le_trans (Nat.le_max_left ..) hplaced
    have hstop : slotFor table row cursor + cell.colspan ≤ count :=
      Nat.le_trans (Nat.le_max_right ..) hplaced
    have hpos := cell.colspan_pos
    obtain ⟨occupied₁, hmark, hat⟩ := h.place tracks cell hstop
    obtain ⟨cursor', occupied', hwalk, hat'⟩ := walkRow_formRow tracks row cells hat hwidth hpasses.2
    refine ⟨cursor', occupied', ?_, hat'⟩
    simp only [walkRow, h.skipOccupied_eq htable, h.firstFree_eq tracks htable hpasses.1,
      Option.bind_eq_bind, Option.bind_some, if_neg (by omega : ¬ count ≤ slotFor table row cursor),
      tracks.stop cell _ hstop, hmark, hwalk]
    rfl

/-- A walk gives the cells of a row their slots only if what is passed over is covered in its
counts. -/
theorem rowPasses_of_walkRow (tracks : Tracks count stopOf mark cov) (row : Nat) :
    ∀ (cells : List Cell) {cursor : Nat} {table : Forming} {occupied occupied' : List Nat},
      At cov count row cursor table occupied → (formRow row cells cursor table).2.width ≤ count →
      walkRow count stopOf mark cells cursor occupied =
        some ((formRow row cells cursor table).1, occupied') →
      RowPasses cov row cells cursor table
  | [], _, _, _, _, _, _, _ => trivial
  | cell :: cells, cursor, table, occupied, occupied', h, hwidth, hwalk => by
    have hmono := width_formRow row cells (slotFor table row cursor + cell.colspan)
      (table.place row (slotFor table row cursor) cell)
    have hplaced := Nat.le_trans hmono hwidth
    have htable : table.width ≤ count := Nat.le_trans (Nat.le_max_left ..) hplaced
    have hstop : slotFor table row cursor + cell.colspan ≤ count :=
      Nat.le_trans (Nat.le_max_right ..) hplaced
    obtain ⟨occupied₁, hmark, hat⟩ := h.place tracks cell hstop
    rw [walkRow, h.skipOccupied_eq htable, Option.bind_eq_bind, Option.bind_some] at hwalk
    split at hwalk
    · cases hwalk
    · obtain ⟨occupied₂, hmark₂, hwalk⟩ := Option.bind_eq_some_iff.mp hwalk
      obtain ⟨⟨slots, occupied₃⟩, hrest, hwalk⟩ := Option.bind_eq_some_iff.mp hwalk
      have hcons := congrArg Prod.fst (Option.some_inj.mp hwalk)
      have hslots := congrArg Slots.start (List.cons.inj hcons).1
      have hstart : firstFree (0 < remaining occupied ·) (count - cursor) cursor =
          slotFor table row cursor := hslots
      rw [hstart, tracks.stop cell _ hstop] at hmark₂ hrest
      cases hmark.symm.trans hmark₂
      refine ⟨fun column hle hlt => ?_, rowPasses_of_walkRow tracks row cells hat hwidth
        (hrest.trans (congrArg (fun slots => some (slots, occupied₃)) (List.cons.inj hcons).2))⟩
      rw [← hstart] at hlt
      exact (h.represents.ahead column hle).mp (@covered_of_lt_firstFree (0 < remaining occupied ·) _ _ _ _ hle hlt)

/-- A walk gives all cells their slots exactly if what is passed over is covered in its counts. -/
theorem walkRows_eq_iff (tracks : Tracks count stopOf mark cov) :
    ∀ (row : Nat) (entries : List (List Cell)) {table : Forming} {occupied : List Nat},
      At cov count row 0 table (descend occupied) → (formRows row entries table).2.width ≤ count →
      (walkRows count stopOf mark entries occupied = some (formRows row entries table).1 ↔
        RowsPass cov row entries table)
  | _, [], _, _, _, _ => ⟨fun _ => trivial, fun _ => rfl⟩
  | row, entry :: entries, table, occupied, h, hwidth => by
    have hrow : (formRow row entry 0 table).2.width ≤ count :=
      Nat.le_trans (width_formRows (row + 1) entries _) hwidth
    have hnext : ∀ {cursor occupied},
        At cov count row cursor (formRow row entry 0 table).2 occupied →
        At cov count (row + 1) 0 (formRow row entry 0 table).2 (descend occupied) := fun hat =>
      ⟨hat.within, Nat.zero_le _, by rw [descend, List.length_map, hat.length],
        hat.represents.descend⟩
    constructor
    · intro hwalk
      obtain ⟨⟨slots, occupied'⟩, hslots, hwalk⟩ := Option.bind_eq_some_iff.mp hwalk
      obtain ⟨rows, hrows, hwalk⟩ := Option.bind_eq_some_iff.mp hwalk
      obtain ⟨rfl, rfl⟩ := List.cons.inj (Option.some_inj.mp hwalk)
      have hpasses := rowPasses_of_walkRow tracks row entry h hrow hslots
      obtain ⟨cursor', occupied₁, hwalk₁, hat⟩ := walkRow_formRow tracks row entry h hrow hpasses
      cases hslots.symm.trans hwalk₁
      exact ⟨hpasses, (walkRows_eq_iff tracks (row + 1) entries (hnext hat) hwidth).mp hrows⟩
    · rintro ⟨hpasses, hrest⟩
      obtain ⟨cursor', occupied', hwalk, hat⟩ := walkRow_formRow tracks row entry h hrow hpasses
      have hrows := (walkRows_eq_iff tracks (row + 1) entries (hnext hat) hwidth).mpr hrest
      simp only [walkRows, hwalk, Option.bind_eq_bind, Option.bind_some, hrows]
      rfl

end

/-! ## The columns of a table -/

section

variable {row cursor count : Nat} {table : Forming} {occupied : List Nat}

/-- Raising the columns of a cell keeps track of all cells. -/
theorem Represents.setColumns_max (h : Represents table.Covered row cursor occupied)
    {column : Nat} (hle : cursor ≤ column) {cell : Cell}
    (hlength : column + cell.colspan ≤ occupied.length) :
    Represents (table.place row column cell).Covered row (column + cell.colspan)
      (if 1 < cell.rowspan then
        setColumns occupied column (column + cell.colspan) (max · cell.rowspan) else occupied) := by
  refine h.raise hle fun other => ?_
  by_cases hspan : 1 < cell.rowspan
  · rw [if_pos hspan, remaining_setColumns _ _ hlength]
    simp only [hspan, true_and]
  · rw [if_neg hspan, if_neg fun hand => hspan hand.1]

theorem tracks_layoutTableRowEntries : Tracks count
    (fun cell column => column + min cell.colspan (max (count - column) 1))
    (fun cell column stop occupied =>
      some (if 1 < cell.rowspan then setColumns occupied column stop (max · cell.rowspan)
        else occupied)) Forming.Covered where
  stop cell column h := by
    have := cell.colspan_pos
    omega
  mark cell column occupied h hlength := by
    refine ⟨_, rfl, ?_, fun table row cursor hle hrepresents =>
      hrepresents.setColumns_max hle (by omega)⟩
    split
    · rw [length_setColumns, hlength]
    · exact hlength
  covered h := h

theorem setSlice_eq {start stop : Nat} (value : Nat → Nat) (hle : start ≤ stop)
    (hstop : stop ≤ occupied.length) :
    setSlice occupied start stop value = some (setColumns occupied start stop value) :=
  if_pos ⟨hle, hstop⟩

theorem raiseSlice_eq {column : Nat} {cell : Cell}
    (hlength : column + cell.colspan ≤ occupied.length) :
    raiseSlice cell.rowspan occupied column (column + cell.colspan) =
      some (if 1 < cell.rowspan then
        setColumns occupied column (column + cell.colspan) (max · cell.rowspan) else occupied) := by
  rw [raiseSlice]
  split
  · exact setSlice_eq _ (Nat.le_add_right ..) hlength
  · rfl

theorem tracks_computeTableColumnWidths : Tracks count
    (fun cell column => min (column + cell.colspan) count)
    (fun cell column stop occupied => raiseSlice cell.rowspan occupied column stop)
    Forming.Covered where
  stop _ _ h := Nat.min_eq_left h
  mark cell column occupied h hlength := by
    refine ⟨_, raiseSlice_eq (by omega), ?_, fun table row cursor hle hrepresents =>
      hrepresents.setColumns_max hle (by omega)⟩
    split
    · rw [length_setColumns, hlength]
    · exact hlength
  covered h := h

theorem tracks_collapsedOuterBorder : Tracks count
    (fun cell column => column + min cell.colspan (count - column))
    (fun cell column stop occupied => setSlice occupied column stop fun _ => cell.rowspan)
    Forming.LastCovers where
  stop _ _ h := by omega
  mark cell column occupied h hlength :=
    ⟨_, setSlice_eq _ (Nat.le_add_right ..) (by omega), by rw [length_setColumns, hlength],
      fun table row cursor hle hrepresents =>
        hrepresents.overwrite hle fun other => remaining_setColumns _ _ (by omega)⟩
  covered h := h.covered

/-! ## The count of the columns -/

theorem length_resize_max_eq (occupied : List Nat) (stop : Nat) :
    (if occupied.length < stop then resize occupied stop 0 else occupied).length =
      max occupied.length stop := by
  split
  · rw [length_resize]
    omega
  · omega

theorem remaining_grown (occupied : List Nat) (stop column : Nat) :
    remaining (if occupied.length < stop then resize occupied stop 0 else occupied) column =
      remaining occupied column := by
  split
  · next hlt => exact remaining_resize occupied (Nat.le_of_lt hlt)
  · rfl

/-- `table_column_count` gives the cells of a row their slots, and makes the columns that they need. -/
theorem countRow_formRow (row : Nat) : ∀ (cells : List Cell) {cursor : Nat} {table : Forming}
    {occupied : List Nat}, At Forming.Covered table.width row cursor table occupied →
    ∃ cursor' occupied', countRow cells cursor occupied =
        some ((formRow row cells cursor table).1, cursor', occupied') ∧
      At Forming.Covered (formRow row cells cursor table).2.width row cursor'
        (formRow row cells cursor table).2 occupied'
  | [], cursor, _, occupied, h => ⟨cursor, occupied, rfl, h⟩
  | cell :: cells, cursor, table, occupied, h => by
    have hlength := h.length
    obtain ⟨hle, hlt, hcovered, hnot⟩ := slotFor_spec h.within row h.cursor_le
    have hskip : skipOccupied occupied (occupied.length - cursor) cursor =
        some (slotFor table row cursor) := by
      rw [hlength, h.skipOccupied_eq (Nat.le_refl _)]
      refine congrArg some (firstFree_eq _ _ hle (by omega) (fun other hother hother' => ?_) ?_)
      · exact (h.represents.ahead other hother).mpr (hcovered other hother hother')
      · exact fun hremaining => hnot ((h.represents.ahead _ hle).mp hremaining)
    -- the columns are made before those of the cell are set
    obtain ⟨grown, hgrown⟩ : ∃ grown, grown =
        if occupied.length < slotFor table row cursor + cell.colspan then
          resize occupied (slotFor table row cursor + cell.colspan) 0 else occupied := ⟨_, rfl⟩
    have hgrownLength : grown.length =
        max table.width (slotFor table row cursor + cell.colspan) := by
      rw [hgrown, length_resize_max_eq, hlength]
    have hgrownRemaining : ∀ column, remaining grown column = remaining occupied column := by
      intro column
      rw [hgrown, remaining_grown]
    have hrepresents : Represents table.Covered row cursor grown :=
      ⟨fun column k => by rw [hgrownRemaining, h.represents.below],
        fun column hcolumn => by rw [hgrownRemaining, h.represents.ahead column hcolumn]⟩
    have hin : slotFor table row cursor + cell.colspan ≤ grown.length := by
      rw [hgrownLength]
      exact Nat.le_max_right ..
    have hmarkedLength : (if 1 < cell.rowspan then setColumns grown (slotFor table row cursor)
        (slotFor table row cursor + cell.colspan) (max · cell.rowspan) else grown).length =
          grown.length := by
      split
      · rw [length_setColumns]
      · rfl
    obtain ⟨cursor', occupied', hrest, hat⟩ := countRow_formRow row cells
      ⟨h.within.place row _ cell, Nat.le_max_right .., hmarkedLength.trans hgrownLength,
        hrepresents.setColumns_max hle hin⟩
    refine ⟨cursor', occupied', ?_, hat⟩
    simp only [countRow, hskip, Option.bind_eq_bind, Option.bind_some, ← hgrown,
      raiseSlice_eq hin, hrest]
    rfl

theorem countRows_formRows : ∀ (row : Nat) (entries : List (List Cell)) {table : Forming}
    {occupied : List Nat} {maxColumns : Nat},
    At Forming.Covered table.width row 0 table (descend occupied) → maxColumns = table.width →
    countRows entries occupied maxColumns =
      some ((formRows row entries table).1, (formRows row entries table).2.width)
  | _, [], _, _, _, _, hmax => by
    rw [countRows, hmax]
    rfl
  | row, entry :: entries, table, occupied, maxColumns, h, hmax => by
    obtain ⟨cursor', occupied', hrow, hat⟩ := countRow_formRow row entry h
    have hmono := width_formRow row entry 0 table
    have hcursor := hat.cursor_le
    have hmax : max maxColumns (max cursor' occupied'.length) =
        (formRow row entry 0 table).2.width := by
      rw [hat.length]
      omega
    have hrows := countRows_formRows (row + 1) entries
      ⟨hat.within, Nat.zero_le _, by rw [descend, List.length_map, hat.length],
        hat.represents.descend⟩ hmax
    simp only [countRows, hrow, Option.bind_eq_bind, Option.bind_some, hrows]
    rfl

theorem not_covered_nil {width row column : Nat} : ¬ (Forming.mk width []).Covered row column :=
  fun ⟨_, hplaced, _⟩ => nomatch hplaced

/-- A walk begins with a table without cells. -/
theorem at_replicate {cov : Forming → Nat → Nat → Prop}
    (h : ∀ {table row column}, cov table row column → table.Covered row column) (count : Nat) :
    At cov count 0 0 ⟨0, []⟩ (descend (List.replicate count 0)) :=
  ⟨fun _ hplaced => (nomatch hplaced), Nat.le_refl _, by rw [descend, List.length_map, List.length_replicate],
    represents_replicate (fun _ _ hcov => not_covered_nil (h hcov)) count⟩

/-- `table_column_count` counts the columns of the table that is formed. -/
theorem tableColumnCount_eq (entries : List (List Cell)) :
    tableColumnCount entries =
      some (formed entries, max (formRows 0 entries ⟨0, []⟩).2.width 1) := by
  have hat : At Forming.Covered (Forming.mk 0 []).width 0 0 ⟨0, []⟩ (descend []) := at_replicate id 0
  rw [tableColumnCount, countRows_formRows 0 entries hat rfl]
  rfl

/-- The walks give all cells the columns that forming the table gives them exactly if every slot that
is passed over is covered by the last cell that was put into its column. -/
theorem walksAgree_iff (entries : List (List Cell)) : WalksAgree entries ↔ Uncut entries := by
  have hborder : ∀ {count}, (formRows 0 entries ⟨0, []⟩).2.width ≤ count →
      (collapsedOuterBorder entries count = some (formed entries) ↔ Uncut entries) :=
    fun hwidth => walkRows_eq_iff tracks_collapsedOuterBorder 0 entries
      (at_replicate Forming.LastCovers.covered _) hwidth
  rw [WalksAgree, tableColumnCount_eq]
  constructor
  · rintro ⟨count, hcount, -, -, hwalk⟩
    have hmax : max (formRows 0 entries ⟨0, []⟩).2.width 1 = count :=
      congrArg Prod.snd (Option.some_inj.mp hcount)
    exact (hborder (hmax ▸ Nat.le_max_left ..)).mp hwalk
  · intro huncut
    refine ⟨_, rfl, ?_, ?_, (hborder (Nat.le_max_left ..)).mpr huncut⟩
    · exact (walkRows_eq_iff tracks_layoutTableRowEntries 0 entries (at_replicate id _)
        (Nat.le_max_left ..)).mpr (rowsPass_covered 0 entries _)
    · exact (walkRows_eq_iff tracks_computeTableColumnWidths 0 entries (at_replicate id _)
        (Nat.le_max_left ..)).mpr (rowsPass_covered 0 entries _)

/-- A cell with the given spans. -/
def cell (colspan rowspan : Nat) (h : 1 ≤ colspan ∧ colspan ≤ 1000 ∧ 1 ≤ rowspan) : Cell :=
  ⟨colspan, rowspan, h.1, h.2.1, h.2.2⟩

/-- A cell of three rows at whose second row another one is put over it. -/
def overlapped : List (List Cell) :=
  [[cell 1 1 (by decide), cell 1 3 (by decide)], [cell 2 1 (by decide)],
    [cell 1 1 (by decide), cell 1 1 (by decide)]]

/-- The last cell is behind the one of three rows, but not for `collapsed_outer_border`. -/
theorem overlapped_disagree : ¬ ∀ entries, WalksAgree entries := by
  intro h
  obtain ⟨count, hcount, -, -, hborder⟩ := h overlapped
  have hcounted : tableColumnCount overlapped = some (formed overlapped, 3) := by decide
  cases hcount.symm.trans hcounted
  have hcut : collapsedOuterBorder overlapped 3 ≠ some (formed overlapped) := by decide
  exact hcut hborder

end

end Omoikane.Layout.Table
