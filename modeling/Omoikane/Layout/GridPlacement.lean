import Mathlib

/-!
# Placement of grid items

The items of a grid are placed in three passes: those with a definite row and column, those with a
definite row, and the others, which a cursor goes looking for a free area for.  A table of
cells remembers what is occupied; it grows with the tracks and with the search.

The placement makes tracks and never looks at one, so a track is of any type `τ`.  An
index out of range, which panics in the code, gives `none`.  The loops of the searches have no
bound in the code; here they have one, and a search that reaches it returns `none`.
-/

namespace Omoikane.Layout

/-- What an item asks of an axis. -/
structure AxisRequest where
  start : Option Nat
  span : Nat
deriving DecidableEq, Repr

/-- What an item asks: its column and its row. -/
abbrev Request := AxisRequest × AxisRequest

/-- The area of an item. -/
structure Placement where
  column : Nat
  row : Nat
  columnSpan : Nat
  rowSpan : Nat
deriving DecidableEq, Repr

/-- `resize`. -/
def resize {α : Type} (items : List α) (length : Nat) (value : α) : List α :=
  items.take length ++ List.replicate (length - items.length) value

/-- `items[start..start + length]`. -/
def slice? {α : Type} (items : List α) (start length : Nat) : Option (List α) :=
  if start + length ≤ items.length then some ((items.drop start).take length) else none

/-! ## The table -/

/-- The rows of the table are resized, if the first one has another width. -/
def resizeRows (occupied : List (List Bool)) (columns : Nat) : List (List Bool) :=
  match occupied.head? with
  | some row => if row.length ≠ columns then occupied.map (resize · columns false) else occupied
  | none => occupied

/-- `ensure_occupancy`. -/
def ensureOccupancy (occupied : List (List Bool)) (rows columns : Nat) : List (List Bool) :=
  let occupied := resizeRows occupied columns
  if occupied.length < rows then resize occupied rows (List.replicate columns false) else occupied

/-- `area_is_free`. -/
def areaIsFree (occupied : List (List Bool)) (column row columnSpan rowSpan : Nat) : Option Bool := do
  let rows ← slice? occupied row rowSpan
  rows.allM fun cells => do
    let cells ← slice? cells column columnSpan
    return cells.all (!·)

/-- `cells[column..column + column_span].fill(true)`. -/
def fill (cells : List Bool) (column columnSpan : Nat) : Option (List Bool) :=
  if column + columnSpan ≤ cells.length then
    some (cells.take column ++ List.replicate columnSpan true ++ cells.drop (column + columnSpan))
  else none

/-- The cells of an area are set, row by row. -/
def fillArea (occupied : List (List Bool)) (placement : Placement) : Option (List (List Bool)) := do
  let rows ← slice? occupied placement.row placement.rowSpan
  let filled ← rows.mapM (fill · placement.column placement.columnSpan)
  return occupied.take placement.row ++ filled ++ occupied.drop (placement.row + placement.rowSpan)

/-! ## The passes -/

/-- The tracks, the table, the cursors of the rows and the areas of the items so far. -/
structure Placing (τ : Type) where
  columns : List τ
  rows : List τ
  occupied : List (List Bool)
  rowCursors : Nat → Option Nat
  result : List Placement

variable {τ : Type} (auto : τ)

/-- `occupy_area`, which makes the tracks that the area needs. -/
def occupyArea (state : Placing τ) (placement : Placement) : Option (Placing τ) := do
  let columns := resize state.columns
    (max state.columns.length (placement.column + placement.columnSpan)) auto
  let rows := resize state.rows (max state.rows.length (placement.row + placement.rowSpan)) auto
  let occupied ← fillArea (ensureOccupancy state.occupied rows.length columns.length) placement
  return { state with columns, rows, occupied }

/-- The loop over the columns of a definite row. -/
def findColumn (row columnSpan rowSpan : Nat) :
    Nat → Nat → List τ → List (List Bool) → Option (Nat × List τ × List (List Bool))
  | 0, _, _, _ => none
  | limit + 1, column, columns, occupied => do
    let columns := resize columns (max columns.length (column + columnSpan)) auto
    let occupied := ensureOccupancy occupied (row + rowSpan) columns.length
    if ← areaIsFree occupied column row columnSpan rowSpan then
      return (column, columns, occupied)
    findColumn row columnSpan rowSpan limit (column + 1) columns occupied

/-- The body of the loop over the items with a definite row, for those whose column is definite,
and for the others. -/
def placeLocked (dense definite : Bool) (state : Placing τ) (item : Request × Nat) :
    Option (Placing τ) :=
  let ((column, row), index) := item
  match row.start with
  | none => some state
  | some candidateRow =>
    if column.start.isSome ≠ definite then some state
    else do
      let columnSpan := max column.span 1
      let rowSpan := max row.span 1
      let cursor := if dense then 0 else (state.rowCursors candidateRow).getD 0
      let (candidateColumn, columns, occupied) ← column.start.elim
        (findColumn auto candidateRow columnSpan rowSpan (state.columns.length + 1) cursor
          state.columns state.occupied)
        fun start => some (start, state.columns, state.occupied)
      let placement :=
        { column := candidateColumn, row := candidateRow, columnSpan, rowSpan : Placement }
      let state ← occupyArea auto { state with columns, occupied } placement
      return { state with
        result := state.result.set index placement
        rowCursors := fun row =>
          if ¬ definite ∧ row = candidateRow then some (candidateColumn + columnSpan)
          else state.rowCursors row }

/-- The loop that looks for a free area from a cursor on: down a definite column, or through the
columns of row after row. -/
def findCell (width columnSpan rowSpan : Nat) (definite : Bool) :
    Nat → Nat → Nat → List (List Bool) → Option (Nat × Nat × List (List Bool))
  | 0, _, _, _ => none
  | limit + 1, column, row, occupied => do
    let (column, row) := if width < column + columnSpan then (0, row + 1) else (column, row)
    let occupied := ensureOccupancy occupied (row + rowSpan) width
    if ← areaIsFree occupied column row columnSpan rowSpan then
      return (column, row, occupied)
    if definite then findCell width columnSpan rowSpan definite limit column (row + 1) occupied
    else findCell width columnSpan rowSpan definite limit (column + 1) row occupied

/-- Where the search for an item starts, from the cursor that the last one left. -/
def startCursor (dense : Bool) (start : Option Nat) (cursor : Nat × Nat) : Nat × Nat :=
  let (cursorColumn, cursorRow) := if dense then (0, 0) else cursor
  match start with
  | some start => (start, if start < cursorColumn then cursorRow + 1 else cursorRow)
  | none => (cursorColumn, cursorRow)

/-- The body of the loop over the items with an automatic row; the cursor is its column and its
row. -/
def placeAutomatic (dense : Bool) (state : (Nat × Nat) × Placing τ) (item : Request × Nat) :
    Option ((Nat × Nat) × Placing τ) :=
  let (cursor, state) := state
  let ((column, row), index) := item
  match row.start with
  | some _ => some (cursor, state)
  | none => do
    let (cursorColumn, cursorRow) := startCursor dense column.start cursor
    let columnSpan := max column.span 1
    let rowSpan := max row.span 1
    let (cursorColumn, cursorRow, occupied) ← findCell state.columns.length columnSpan rowSpan
      column.start.isSome ((state.occupied.length + 1) * (state.columns.length + 1) + 1)
      cursorColumn cursorRow state.occupied
    let placement :=
      { column := cursorColumn, row := cursorRow, columnSpan, rowSpan : Placement }
    let state ← occupyArea auto { state with occupied } placement
    return ((cursorColumn, cursorRow),
      { state with result := state.result.set index placement })

/-- The columns that the requests need. -/
def requiredColumns (requests : List Request) : Nat :=
  ((requests.map fun (column, _) => column.start.getD 0 + max column.span 1).max?).getD 1

/-- `place_row_major`; also returns the columns and the rows. -/
def placeRowMajor (requests : List Request) (columns rows : List τ) (dense : Bool) :
    Option (List Placement × List τ × List τ) := do
  let state : Placing τ :=
    { columns, rows, occupied := [], rowCursors := fun _ => none
      result := List.replicate requests.length
        { column := 0, row := 0, columnSpan := 1, rowSpan := 1 } }
  let state ← requests.zipIdx.foldlM (placeLocked auto dense true) state
  let state ← requests.zipIdx.foldlM (placeLocked auto dense false) state
  let columns := resize state.columns (max state.columns.length (requiredColumns requests)) auto
  let (_, state) ←
    requests.zipIdx.foldlM (placeAutomatic auto dense) ((0, 0), { state with columns })
  return (state.result, state.columns, state.rows)

/-- An area with its axes exchanged. -/
def Placement.transpose (placement : Placement) : Placement where
  column := placement.row
  row := placement.column
  columnSpan := placement.rowSpan
  rowSpan := placement.columnSpan

/-- `place_items`; also returns the columns and the rows. -/
def placeItems (requests : List Request) (columns rows : List τ) (columnFlow dense : Bool) :
    Option (List Placement × List τ × List τ) :=
  if columnFlow then do
    let transposed := requests.map fun (column, row) => (row, column)
    let (result, rows, columns) ← placeRowMajor auto transposed rows columns dense
    return (result.map Placement.transpose, columns, rows)
  else placeRowMajor auto requests columns rows dense

/-! ## Empty tracks -/

/-- The tracks of an area along an axis: the first one, and how many there are. -/
def Placement.axis (placement : Placement) (columns : Bool) : Nat × Nat :=
  if columns then (placement.column, placement.columnSpan) else (placement.row, placement.rowSpan)

/-- An area at another track of an axis. -/
def Placement.setStart (placement : Placement) (columns : Bool) (start : Nat) : Placement :=
  if columns then { placement with column := start } else { placement with row := start }

/-- The tracks of an axis that repeat to fit and hold no item. -/
def collapsedTracks (autoFit : τ → Bool) (tracks : List τ) (placements : List Placement)
    (columns : Bool) : List Nat :=
  (tracks.zipIdx.filter fun (track, index) => autoFit track && !placements.any fun placement =>
    let (start, span) := placement.axis columns
    start ≤ index && index < start + span).map Prod.snd

/-- `collapse_empty_auto_fit_tracks`. -/
def collapseEmptyAutoFitTracks (autoFit : τ → Bool) (tracks : List τ)
    (placements : List Placement) (columns : Bool) : List τ × List Placement :=
  let collapsed := collapsedTracks autoFit tracks placements columns
  (collapsed.reverse.foldl List.eraseIdx tracks,
    placements.map fun placement =>
      let start := (placement.axis columns).1
      placement.setStart columns (start - (collapsed.takeWhile (· < start)).length))

end Omoikane.Layout
