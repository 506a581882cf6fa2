import Omoikane.Base.Numerals
import Omoikane.Layout.GridOccupancy

/-!
# The lines of a grid

An item names the lines it starts and ends at: by a number, by how many tracks it spans, or by an
area of the template.  Lines with a negative number count from the last explicit line back, so that
an item may start before the first track; the tracks that this needs are added in front, and the
starts of all items are shifted by them.

The computation is on integers of 64 bits, and says of itself whether it was exact (`Machine`).  What
the items ask for in integers without a bound tells when it is.
-/

namespace Omoikane.Layout

open Base Base.Text Base.Machine

/-! ## Named areas -/

/-- What a line is computed from.  A number is represented by what it truncates to. -/
inductive ComputedValue
  | number (truncated : { n : Int // FitsI64 n })
  | keyword (value : Text)
  | other

/-- The computed style of an item, by property. -/
abbrev Style := Text → Option ComputedValue

/-- An area of the template. -/
structure NamedArea where
  rowStart : Nat
  rowSpan : Nat
  columnStart : Nat
  columnSpan : Nat
deriving DecidableEq, Repr

/-- The areas of a template, by name. -/
abbrev NamedAreas := Text → Option NamedArea

/-- The strings that are read so far, the current one, and whether it is open and the last character
was a backslash. -/
structure AreaRows where
  rows : List (List Text) := []
  current : Text := []
  quoted : Bool := false
  escaped : Bool := false

/-- The body of the loop of `parse_area_rows`. -/
def AreaRows.push (state : AreaRows) (c : Char) : AreaRows :=
  if ¬ state.quoted then if c = '"' then { state with quoted := true, current := [] } else state
  else if state.escaped then { state with current := state.current ++ [c], escaped := false }
  else if c = '\\' then { state with escaped := true }
  else if c = '"' then
    { state with rows := state.rows ++ [splitWhitespace state.current], quoted := false }
  else { state with current := state.current ++ [c] }

/-- `parse_area_rows`. -/
def parseAreaRows (value : Text) : List (List Text) :=
  if eqIgnoreAsciiCase (trim value) "none".toList then [] else (value.foldl AreaRows.push {}).rows

/-- The cells of a name, row by row. -/
def cellsNamed (rows : List (List Text)) (name : Text) : List (Nat × Nat) :=
  rows.zipIdx.flatMap fun (names, row) =>
    (names.zipIdx.filter (·.1 = name)).map fun (_, column) => (row, column)

/-- The area that the cells of a name make, if they fill a rectangle. -/
def areaNamed (rows : List (List Text)) (name : Text) : Option NamedArea :=
  let positions := cellsNamed rows name
  let rowStart := (positions.map Prod.fst).min?.getD 0
  let rowEnd := (positions.map Prod.fst).max?.getD rowStart + 1
  let columnStart := (positions.map Prod.snd).min?.getD 0
  let columnEnd := (positions.map Prod.snd).max?.getD columnStart + 1
  let rectangular := positions.length = (rowEnd - rowStart) * (columnEnd - columnStart) ∧
    ∀ row ∈ List.range' rowStart (rowEnd - rowStart),
      ∀ column ∈ List.range' columnStart (columnEnd - columnStart),
        (rows[row]?.bind (·[column]?)) = some name
  if name.all (· = '.') ∨ positions = [] ∨ ¬ rectangular then none
  else some { rowStart, rowSpan := rowEnd - rowStart
              columnStart, columnSpan := columnEnd - columnStart }

/-- `named_areas`: the areas and the numbers of rows and columns that they are in. -/
def namedAreas (template : Option ComputedValue) : NamedAreas × Nat × Nat :=
  match template with
  | some (.keyword value) =>
    let rows := parseAreaRows value
    (areaNamed rows, rows.length, (rows.map List.length).max?.getD 0)
  | _ => (fun _ => none, 0, 0)

example : (namedAreas (some (.keyword "\"a a\" \"b .\"".toList))).1 ['a'] =
    some { rowStart := 0, rowSpan := 1, columnStart := 0, columnSpan := 2 } := by decide

/-! ## Lines -/

inductive GridLine
  | auto
  | line (number : Int)
  | span (count : Nat)
deriving DecidableEq, Repr

/-- What an item asks of an axis, where lines before the first one are negative. -/
structure SignedAxisRequest where
  start : Option Int
  span : Nat
deriving DecidableEq, Repr

/-- The area and the side of it that a name means. -/
def namedBoundary (name : Text) (areas : NamedAreas) (startSide : Bool) : Text × Bool :=
  if (areas name).isSome then (name, startSide)
  else match stripSuffix name "-start".toList with
    | some name => (name, true)
    | none =>
      match stripSuffix name "-end".toList with
      | some name => (name, false)
      | none => (name, startSide)

/-- `named_area_line`. -/
def namedAreaLine (name : Text) (areas : NamedAreas) (columnAxis startSide : Bool) :
    Machine (Option Nat) :=
  let (areaName, boundaryIsStart) := namedBoundary name areas startSide
  match areas areaName with
  | none => pure none
  | some area =>
    let (start, span) :=
      if columnAxis then (area.columnStart, area.columnSpan) else (area.rowStart, area.rowSpan)
    if boundaryIsStart then pure (some start) else some <$> addUsize start span

/-- `grid_line`. -/
def gridLine (value : Option ComputedValue) (areas : NamedAreas) (columnAxis startSide : Bool) :
    Machine GridLine :=
  match value with
  | some (.number number) => pure (.line number.1)
  | some (.keyword value) =>
    let parts := splitWhitespace value
    if parts.length = 1 ∧ (eqIgnoreAsciiCase (parts[0]?.getD []) "auto".toList ∨
        eqIgnoreAsciiCase (parts[0]?.getD []) "span".toList) then pure .auto
    else if parts.length = 2 ∧ eqIgnoreAsciiCase (parts[0]?.getD []) "span".toList then
      pure (((parseUnsigned (2 ^ 64 - 1) (parts[1]?.getD [])).filter (0 < ·)).elim .auto .span)
    else
      match (parseI64 value).filter (· ≠ 0) with
      | some line => pure (.line line)
      | none => do
        match ← namedAreaLine value areas columnAxis startSide with
        | some line => do
          let line ← addUsize line 1
          .line <$> usizeAsIsize line
        | none => pure .auto
  | _ => pure .auto

/-- `resolve_line`. -/
def resolveLine (line : Int) (explicitTracks : Nat) : Machine Int :=
  if 0 < line then pure (saturatingSub line 1)
  else do
    let tracks ← usizeAsIsize explicitTracks
    let line ← addIsize tracks line
    addIsize line 1

/-- The `match` of `axis_request`. -/
def requestBetween (start stop : GridLine) (explicitTracks : Nat) : Machine SignedAxisRequest :=
  match start, stop with
  | .line start, .line stop => do
    let start ← resolveLine start explicitTracks
    let stop ← resolveLine stop explicitTracks
    return { start := some (min start stop), span := max (start - stop).natAbs 1 }
  | .line start, .span span => do
    return { start := some (← resolveLine start explicitTracks), span }
  | .line start, .auto => do
    return { start := some (← resolveLine start explicitTracks), span := 1 }
  | .span span, .line stop => do
    let stop ← resolveLine stop explicitTracks
    return { start := some (saturatingSub stop (← usizeAsIsize span)), span }
  | .span span, _ => return { start := none, span }
  | .auto, .span span => return { start := none, span }
  | .auto, .line stop => do
    let stop ← resolveLine stop explicitTracks
    return { start := some (saturatingSub stop 1), span := 1 }
  | .auto, .auto => return { start := none, span := 1 }

/-- `axis_request`. -/
def axisRequest (style : Style) (axis : Text) (explicitTracks : Nat) (areas : NamedAreas)
    (columnAxis : Bool) : Machine SignedAxisRequest := do
  let start ← gridLine (style (axis ++ "-start".toList)) areas columnAxis true
  let stop ← gridLine (style (axis ++ "-end".toList)) areas columnAxis false
  requestBetween start stop explicitTracks

/-! ## Normalization -/

/-- How many tracks an axis needs before its first one. -/
def originOf (starts : List Int) : Nat := (min (starts.min?.getD 0) 0).natAbs

/-- The closure `shift`. -/
def shift (request : SignedAxisRequest) (origin : Nat) : Machine AxisRequest := do
  let start ← request.start.mapM fun start => do
    let origin ← usizeAsIsize origin
    let start ← addIsize start origin
    isizeAsUsize start
  return { start, span := request.span }

/-- The requests with the tracks that they need in front, and how many these are. -/
structure Normalized (τ : Type) where
  requests : List Request
  columns : List τ
  rows : List τ
  columnOrigin : Nat
  rowOrigin : Nat

variable {τ : Type} (auto : τ)

/-- `normalize_grid_requests`. -/
def normalizeGridRequests (requests : List (SignedAxisRequest × SignedAxisRequest))
    (columns rows : List τ) : Machine (Normalized τ) := do
  let columnOrigin := originOf (requests.filterMap fun request => request.1.start)
  let rowOrigin := originOf (requests.filterMap fun request => request.2.start)
  let columns := List.replicate columnOrigin auto ++ columns
  let rows := List.replicate rowOrigin auto ++ rows
  let requests ← requests.mapM fun (column, row) => do
    let column ← shift column columnOrigin
    let row ← shift row rowOrigin
    return (column, row)
  return { requests, columns, rows, columnOrigin, rowOrigin }

/-- The `required_columns` of the placement of the items (`requiredColumns`), on 64 bits. -/
def machineRequiredColumns (requests : List Request) : Machine Nat := do
  let required ← requests.mapM fun (column, _) => addUsize (column.start.getD 0) (max column.span 1)
  return required.max?.getD 1

/-- A grid before its items are placed: its template of areas, the tracks of its axes and the styles
of its items. -/
structure Grid (τ : Type) where
  template : Option ComputedValue
  columns : List τ
  rows : List τ
  items : List Style

/-- The explicit columns: those of the areas of the template are among them. -/
def Grid.explicitColumns (grid : Grid τ) : List τ :=
  resize grid.columns (max grid.columns.length (namedAreas grid.template).2.2) auto

/-- The explicit rows. -/
def Grid.explicitRows (grid : Grid τ) : List τ :=
  resize grid.rows (max grid.rows.length (namedAreas grid.template).2.1) auto

/-- What the items of a grid ask for. -/
def Grid.requests (grid : Grid τ) : Machine (List (SignedAxisRequest × SignedAxisRequest)) :=
  let areas := (namedAreas grid.template).1
  grid.items.mapM fun style => do
    let column ← axisRequest style "grid-column".toList (grid.explicitColumns auto).length areas true
    let row ← axisRequest style "grid-row".toList (grid.explicitRows auto).length areas false
    return (column, row)

/-- The requests of the items of a grid, normalized. -/
def Grid.normalized (grid : Grid τ) : Machine (Normalized τ) := do
  let requests ← grid.requests auto
  normalizeGridRequests auto requests (grid.explicitColumns auto) (grid.explicitRows auto)

/-! ## Integers without a bound -/

/-- A line counted from the first one, which is line zero. -/
def position (number : Int) (tracks : Nat) : Int :=
  if 0 < number then number - 1 else tracks + number + 1

/-- What two lines ask of an axis. -/
def asked (lines : GridLine × GridLine) (tracks : Nat) : SignedAxisRequest :=
  match lines with
  | (.line start, .line stop) =>
    { start := some (min (position start tracks) (position stop tracks))
      span := max (position start tracks - position stop tracks).natAbs 1 }
  | (.line start, .span span) => { start := some (position start tracks), span }
  | (.line start, .auto) => { start := some (position start tracks), span := 1 }
  | (.span span, .line stop) => { start := some (position stop tracks - span), span }
  | (.auto, .line stop) => { start := some (position stop tracks - 1), span := 1 }
  | (.span span, _) => { start := none, span }
  | (.auto, .span span) => { start := none, span }
  | (.auto, .auto) => { start := none, span := 1 }

/-- The tracks that the requests need in front. -/
def neededOrigin (requests : List SignedAxisRequest) : Nat :=
  originOf (requests.filterMap SignedAxisRequest.start)

/-- What lines ask of an axis is among the integers of 64 bits, before the shift and after. -/
structure Representable (lines : List (GridLine × GridLine)) (tracks : Nat) : Prop where
  spans : ∀ count number, (.span count, .line number) ∈ lines → count < 2 ^ 63
  starts : ∀ request ∈ lines.map (asked · tracks), ∀ start, request.start = some start →
    -2 ^ 63 < start ∧ start + neededOrigin (lines.map (asked · tracks)) < 2 ^ 63
  ends : ∀ request ∈ lines.map (asked · tracks), ∀ start, request.start = some start →
    start + neededOrigin (lines.map (asked · tracks)) + request.span < 2 ^ 64

/-- What the lines of a grid are, by axis. -/
def Grid.lines (grid : Grid τ) (axis : Text) (columnAxis : Bool) : List (GridLine × GridLine) :=
  let areas := (namedAreas grid.template).1
  grid.items.map fun style =>
    ((gridLine (style (axis ++ "-start".toList)) areas columnAxis true).value,
      (gridLine (style (axis ++ "-end".toList)) areas columnAxis false).value)

/-- What is kept of the requests for an axis. -/
structure Kept (before : List SignedAxisRequest) (origin : Nat) (after : List AxisRequest) :
    Prop where
  length : after.length = before.length
  nonneg : ∀ request ∈ before, ∀ start, request.start = some start → 0 ≤ start + origin
  ends : ∀ request ∈ after, ∀ start, request.start = some start → start + request.span < 2 ^ 64
  relative : ∀ (i j : Nat) (a b : Int),
    before[i]?.bind SignedAxisRequest.start = some a →
    before[j]?.bind SignedAxisRequest.start = some b →
    ∃ c d : Nat, after[i]?.bind AxisRequest.start = some c ∧
      after[j]?.bind AxisRequest.start = some d ∧ (c : Int) - d = a - b

/-- The lines of a grid are computed without an overflow or a conversion that wraps around, from the
values of the styles to the columns that the placement needs, in either flow. -/
structure Grid.StaysInRange (grid : Grid τ) : Prop where
  exact : (grid.normalized auto).exact = true
  columns : Kept ((grid.requests auto).value.map Prod.fst) (grid.normalized auto).value.columnOrigin
    ((grid.normalized auto).value.requests.map Prod.fst)
  rows : Kept ((grid.requests auto).value.map Prod.snd) (grid.normalized auto).value.rowOrigin
    ((grid.normalized auto).value.requests.map Prod.snd)
  required : (machineRequiredColumns (grid.normalized auto).value.requests).exact = true
  requiredRows : (machineRequiredColumns ((grid.normalized auto).value.requests.map Prod.swap)).exact = true

/-! ## Areas are on explicit tracks -/

theorem max?_getD_mem {numbers : List Nat} (h : numbers ≠ []) (default : Nat) :
    numbers.max?.getD default ∈ numbers := by
  cases hmax : numbers.max? with
  | none => exact absurd (List.max?_eq_none_iff.mp hmax) h
  | some number => exact List.max?_mem hmax

theorem min?_getD_le {numbers : List Nat} {number : Nat} (h : number ∈ numbers) (default : Nat) :
    numbers.min?.getD default ≤ number := by
  cases hmin : numbers.min? with
  | none => exact absurd (List.min?_eq_none_iff.mp hmin) (List.ne_nil_of_mem h)
  | some least => exact (List.min?_eq_some_iff.mp hmin).2 number h

theorem le_max?_getD {numbers : List Nat} {number : Nat} (h : number ∈ numbers) (default : Nat) :
    number ≤ numbers.max?.getD default := by
  cases hmax : numbers.max? with
  | none => exact absurd (List.max?_eq_none_iff.mp hmax) (List.ne_nil_of_mem h)
  | some greatest => exact (List.max?_eq_some_iff.mp hmax).2 number h

theorem mem_cellsNamed {rows : List (List Text)} {name : Text} {cell : Nat × Nat}
    (h : cell ∈ cellsNamed rows name) :
    cell.1 < rows.length ∧ cell.2 < (rows.map List.length).max?.getD 0 := by
  obtain ⟨⟨names, row⟩, hrow, hcell⟩ := List.mem_flatMap.mp h
  obtain ⟨⟨other, column⟩, hcolumn, rfl⟩ := List.mem_map.mp hcell
  have hrow := List.mem_zipIdx_iff_getElem?.mp hrow
  have hcolumn := List.mem_zipIdx_iff_getElem?.mp (List.mem_filter.mp hcolumn).1
  have hlength : names.length ∈ rows.map List.length :=
    List.mem_map_of_mem (List.mem_of_getElem? hrow)
  exact ⟨(List.getElem?_eq_some_iff.mp hrow).1,
    Nat.lt_of_lt_of_le (List.getElem?_eq_some_iff.mp hcolumn).1 (le_max?_getD hlength 0)⟩

/-- The numbers from the least to the greatest of a list end where the greatest does. -/
theorem extent {numbers : List Nat} (h : numbers ≠ []) :
    ∃ number ∈ numbers, numbers.min?.getD 0 +
      (numbers.max?.getD (numbers.min?.getD 0) + 1 - numbers.min?.getD 0) = number + 1 := by
  have hmem := max?_getD_mem h (numbers.min?.getD 0)
  have hle := min?_getD_le hmem 0
  exact ⟨_, hmem, by omega⟩

/-- An area is inside the rows and the columns of its template. -/
theorem namedAreas_inside {template : Option ComputedValue} {name : Text} {area : NamedArea}
    (h : (namedAreas template).1 name = some area) :
    area.rowStart + area.rowSpan ≤ (namedAreas template).2.1 ∧
      area.columnStart + area.columnSpan ≤ (namedAreas template).2.2 := by
  unfold namedAreas at h ⊢
  split at h
  case h_2 => cases h
  case h_1 value =>
    dsimp only [areaNamed] at h ⊢
    split at h
    · cases h
    · next hnot =>
        cases h
        have hne : cellsNamed (parseAreaRows value) name ≠ [] :=
          fun hnil => hnot (.inr (.inl hnil))
        constructor
        · obtain ⟨row, hrow, heq⟩ := extent fun hnil => hne (List.map_eq_nil_iff.mp hnil)
          obtain ⟨cell, hcell, rfl⟩ := List.mem_map.mp hrow
          exact Nat.le_trans (Nat.le_of_eq heq) (mem_cellsNamed hcell).1
        · obtain ⟨column, hcolumn, heq⟩ := extent fun hnil => hne (List.map_eq_nil_iff.mp hnil)
          obtain ⟨cell, hcell, rfl⟩ := List.mem_map.mp hcolumn
          exact Nat.le_trans (Nat.le_of_eq heq) (mem_cellsNamed hcell).2

/-! ## Lines are computed exactly -/

/-- A line or a span is among the integers of 64 bits. -/
def GridLine.Fits : GridLine → Prop
  | .auto => True
  | .line number => FitsI64 number
  | .span count => 0 < count ∧ count < 2 ^ 64

/-- The areas have their lines below a number. -/
def NamedAreas.Below (areas : NamedAreas) (columnAxis : Bool) (tracks : Nat) : Prop :=
  ∀ name area, areas name = some area →
    (if columnAxis then area.columnStart + area.columnSpan else area.rowStart + area.rowSpan) ≤ tracks

section

variable {areas : NamedAreas} {columnAxis : Bool} {tracks : Nat}

theorem namedAreaLine_exact (h : areas.Below columnAxis tracks) (htracks : tracks < 2 ^ 31)
    (name : Text) (startSide : Bool) :
    (namedAreaLine name areas columnAxis startSide).exact = true ∧
      ∀ line ∈ (namedAreaLine name areas columnAxis startSide).value, line ≤ tracks := by
  unfold namedAreaLine
  obtain ⟨areaName, boundaryIsStart⟩ := namedBoundary name areas startSide
  dsimp only
  cases harea : areas areaName with
  | none => exact ⟨rfl, fun _ hline => nomatch hline⟩
  | some area =>
    have hinside := h areaName area harea
    have hadd : ∀ start span, start + span ≤ tracks →
        (if boundaryIsStart then pure (some start) else some <$> addUsize start span).exact = true ∧
          ∀ line ∈ (if boundaryIsStart then pure (some start)
            else some <$> addUsize start span : Machine (Option Nat)).value, line ≤ tracks := by
      intro start span hle
      rw [addUsize_of_lt (by omega)]
      cases boundaryIsStart <;> simp <;> omega
    cases columnAxis with
    | false => exact hadd _ _ hinside
    | true => exact hadd _ _ hinside

theorem parseUnsigned_le {max n : Nat} {s : Text} (h : parseUnsigned max s = some n) : n ≤ max := by
  unfold parseUnsigned at h
  exact of_decide_eq_true (Option.filter_eq_some_iff.mp h).2

/-- A grid line is computed exactly. -/
theorem gridLine_exact (h : areas.Below columnAxis tracks) (htracks : tracks < 2 ^ 31)
    (value : Option ComputedValue) (startSide : Bool) :
    (gridLine value areas columnAxis startSide).exact = true ∧
      (gridLine value areas columnAxis startSide).value.Fits := by
  unfold gridLine
  split
  · next number => exact ⟨rfl, number.2⟩
  · next value =>
      dsimp only
      split
      · exact ⟨rfl, trivial⟩
      · split
        · refine ⟨rfl, ?_⟩
          cases hcount : (parseUnsigned (2 ^ 64 - 1) ((splitWhitespace value)[1]?.getD [])).filter
              (0 < ·) with
          | none => exact trivial
          | some count =>
            obtain ⟨hparsed, hpositive⟩ := Option.filter_eq_some_iff.mp hcount
            exact ⟨of_decide_eq_true hpositive, Nat.lt_of_le_pred (by decide) (parseUnsigned_le hparsed)⟩
        · split
          · next line hline =>
              obtain ⟨hparsed, -⟩ := Option.filter_eq_some_iff.mp hline
              exact ⟨rfl, (parseI64_eq_some.mp hparsed).2⟩
          · obtain ⟨hexact, hle⟩ := namedAreaLine_exact h htracks value startSide
            rw [exact_bind, value_bind, hexact, Bool.true_and]
            cases hline : (namedAreaLine value areas columnAxis startSide).value with
            | none => exact ⟨rfl, trivial⟩
            | some line =>
              have hle := hle line hline
              dsimp only
              rw [addUsize_of_lt (by omega)]
              simp only [exact_bind, value_bind, Bool.true_and]
              rw [usizeAsIsize_of_lt (by omega)]
              refine ⟨rfl, ?_⟩
              show FitsI64 ((line + 1 : Nat) : Int)
              rw [FitsI64]
              omega
  · exact ⟨rfl, trivial⟩

end

/-! ## Requests -/

section

variable {lines : GridLine × GridLine} {number : Int} {tracks : Nat}

theorem position_bounds (h : FitsI64 number) (htracks : tracks < 2 ^ 31) :
    -2 ^ 63 < position number tracks ∧ position number tracks < 2 ^ 63 - 1 := by
  rw [FitsI64] at h
  unfold position
  split <;> omega

theorem saturatingSub_eq {x y : Int} (h : x - y < 2 ^ 63) :
    saturatingSub x y = max (-2 ^ 63) (x - y) := by
  unfold saturatingSub
  omega

theorem resolveLine_eq (h : FitsI64 number) (htracks : tracks < 2 ^ 31) :
    resolveLine number tracks = ⟨position number tracks, true⟩ := by
  rw [FitsI64] at h
  unfold resolveLine position
  split
  · refine congrArg (Machine.mk · true) ?_
    rw [saturatingSub_eq (by omega)]
    omega
  · rw [usizeAsIsize_of_lt (by omega), mk_bind, addIsize_of_fits (by rw [FitsI64]; omega), mk_bind,
      addIsize_of_fits (by rw [FitsI64]; omega)]

/-- What is asked, as far as it does not lie before the least integer. -/
def SignedAxisRequest.clamp (request : SignedAxisRequest) : SignedAxisRequest :=
  { request with start := request.start.map (max (-2 ^ 63)) }

theorem SignedAxisRequest.clamp_eq {request : SignedAxisRequest}
    (h : ∀ start, request.start = some start → -2 ^ 63 < start) : request.clamp = request := by
  obtain ⟨_ | start, span⟩ := request
  · rfl
  · have hlt := h start rfl
    simp only [clamp, Option.map_some, Int.max_eq_right (Int.le_of_lt hlt)]

theorem requestBetween_eq (hstart : lines.1.Fits) (hstop : lines.2.Fits) (htracks : tracks < 2 ^ 31)
    (h : ∀ count number, lines = (.span count, .line number) → count < 2 ^ 63) :
    requestBetween lines.1 lines.2 tracks = ⟨(asked lines tracks).clamp, true⟩ := by
  obtain ⟨start, stop⟩ := lines
  cases stop with
  | line stop =>
    have hresolved := resolveLine_eq hstop htracks
    have hbounds := position_bounds hstop htracks
    cases start with
    | line start =>
      have hother := position_bounds hstart htracks
      rw [SignedAxisRequest.clamp_eq fun position hposition => by
        cases hposition
        omega]
      simp only [requestBetween, resolveLine_eq hstart htracks, hresolved, mk_bind, asked]
      rfl
    | span count =>
      have hcount := h count stop rfl
      simp only [requestBetween, hresolved, mk_bind, usizeAsIsize_of_lt hcount]
      rw [saturatingSub_eq (by omega)]
      rfl
    | auto =>
      simp only [requestBetween, hresolved, mk_bind]
      rw [saturatingSub_eq (by omega)]
      rfl
  | span | auto =>
    cases start with
    | line start =>
      have hbounds := position_bounds hstart htracks
      rw [SignedAxisRequest.clamp_eq fun position hposition => by
        cases hposition
        exact hbounds.1]
      simp only [requestBetween, resolveLine_eq hstart htracks, mk_bind, asked]
      rfl
    | span | auto => rfl

/-- A span that is counted back from a line must be among the integers with a sign. -/
theorem requestBetween_exact {count : Nat} (hline : FitsI64 number) (htracks : tracks < 2 ^ 31)
    (h : (requestBetween (.span count) (.line number) tracks).exact = true) : count < 2 ^ 63 := by
  simp only [requestBetween, resolveLine_eq hline htracks, mk_bind, exact_bind, exact_pure,
    Bool.and_true] at h
  exact exact_usizeAsIsize.mp h

end

/-! ## The shift -/

section

variable {starts : List Int} {start : Int} {request : SignedAxisRequest} {origin : Nat}

theorem originOf_add_nonneg (h : start ∈ starts) : 0 ≤ start + originOf starts := by
  unfold originOf
  cases hmin : starts.min? with
  | none => exact absurd (List.min?_eq_none_iff.mp hmin) (List.ne_nil_of_mem h)
  | some least =>
    have hle := (List.min?_eq_some_iff.mp hmin).2 start h
    rw [Option.getD_some]
    omega

theorem originOf_lt {bound : Nat} (hbound : 0 < bound) (h : ∀ start ∈ starts, -bound < start) :
    originOf starts < bound := by
  unfold originOf
  cases hmin : starts.min? with
  | none => simpa using hbound
  | some least =>
    have hlt := h least (List.min?_eq_some_iff.mp hmin).1
    rw [Option.getD_some]
    omega

theorem shift_eq (h : ∀ start, request.start = some start →
      0 ≤ start + origin ∧ start + origin < 2 ^ 63 ∧ origin < 2 ^ 63) :
    shift request origin =
      ⟨{ start := request.start.map fun start : Int => (start + origin).toNat, span := request.span },
        true⟩ := by
  obtain ⟨_ | start, span⟩ := request
  · rfl
  · obtain ⟨hnonneg, hlt, horigin⟩ := h start rfl
    have hfits : FitsI64 (start + origin) := by
      rw [FitsI64]
      omega
    simp only [shift, Option.mapM_some, usizeAsIsize_of_lt horigin, mk_bind,
      addIsize_of_fits hfits, isizeAsUsize_of_nonneg hnonneg hfits]
    rfl

theorem shift_exact (h : (shift request origin).exact = true) (hstart : request.start = some start) :
    origin < 2 ^ 63 ∧ start + origin < 2 ^ 63 := by
  obtain ⟨_, span⟩ := request
  cases hstart
  simp only [shift, Option.mapM_some, exact_bind, exact_map, Bool.and_eq_true, exact_pure,
    and_true] at h
  obtain ⟨horigin, hsum, -⟩ := h
  have horigin := exact_usizeAsIsize.mp horigin
  rw [usizeAsIsize_of_lt horigin] at hsum
  exact ⟨horigin, (exact_addIsize.mp hsum).2⟩

end

/-! ## An axis -/

section

variable {lines : List (GridLine × GridLine)} {before : List SignedAxisRequest} {tracks : Nat}

theorem asked_span {lines : GridLine × GridLine} (hstart : lines.1.Fits) (hstop : lines.2.Fits)
    (htracks : tracks < 2 ^ 31) :
    0 < (asked lines tracks).span ∧ (asked lines tracks).span < 2 ^ 64 := by
  obtain ⟨start | start | start, stop | stop | stop⟩ := lines
  case line.line =>
    have hstart := position_bounds hstart htracks
    have hstop := position_bounds hstop htracks
    simp only [asked]
    omega
  all_goals first | exact hstart | exact hstop | exact ⟨Nat.one_pos, Nat.one_lt_two_pow (by decide)⟩

/-- The requests of an axis, shifted. -/
def shifted (before : List SignedAxisRequest) : List AxisRequest :=
  before.map fun request => (shift request (neededOrigin before)).value

theorem neededOrigin_add_nonneg {request : SignedAxisRequest} {start : Int}
    (h : request ∈ before) (hstart : request.start = some start) :
    0 ≤ start + neededOrigin before :=
  originOf_add_nonneg (List.mem_filterMap.mpr ⟨request, h, hstart⟩)

theorem neededOrigin_lt (h : ∀ request ∈ before, ∀ start, request.start = some start →
    -2 ^ 63 < start) : neededOrigin before < 2 ^ 63 := by
  refine originOf_lt (by decide) fun start hstart => ?_
  obtain ⟨request, hrequest, hstart⟩ := List.mem_filterMap.mp hstart
  exact h request hrequest start hstart

theorem getElem?_shifted {index : Nat} {start : Int}
    (h : ∀ request ∈ before, shift request (neededOrigin before) =
      ⟨{ start := request.start.map fun start : Int => (start + neededOrigin before).toNat
         span := request.span }, true⟩)
    (hstart : before[index]?.bind SignedAxisRequest.start = some start) :
    ∃ place : Nat, (shifted before)[index]?.bind AxisRequest.start = some place ∧
      (place : Int) = start + neededOrigin before := by
  obtain ⟨request, hrequest, hstart⟩ := Option.bind_eq_some_iff.mp hstart
  have hmem := List.mem_of_getElem? hrequest
  have hnonneg := neededOrigin_add_nonneg hmem hstart
  refine ⟨(start + neededOrigin before).toNat, ?_, Int.toNat_of_nonneg hnonneg⟩
  rw [shifted, List.getElem?_map, hrequest, Option.map_some, Option.bind_some, h request hmem, hstart]
  rfl

/-- What is asked is kept by the shift where it is among the integers of 64 bits. -/
theorem kept_shifted
    (hstarts : ∀ request ∈ before, ∀ start, request.start = some start →
      -2 ^ 63 < start ∧ start + neededOrigin before < 2 ^ 63)
    (hends : ∀ request ∈ before, ∀ start, request.start = some start →
      start + neededOrigin before + request.span < 2 ^ 64) :
    (∀ request ∈ before, (shift request (neededOrigin before)).exact = true) ∧
      Kept before (neededOrigin before) (shifted before) := by
  have horigin := neededOrigin_lt fun request hrequest start hstart =>
    (hstarts request hrequest start hstart).1
  have heq : ∀ request ∈ before, shift request (neededOrigin before) =
      ⟨{ start := request.start.map fun start : Int => (start + neededOrigin before).toNat
         span := request.span }, true⟩ := fun request hrequest =>
    shift_eq fun start hstart => ⟨neededOrigin_add_nonneg hrequest hstart,
      (hstarts request hrequest start hstart).2, horigin⟩
  refine ⟨fun request hrequest => by rw [heq request hrequest], List.length_map .., ?_, ?_, ?_⟩
  · exact fun request hrequest start hstart => neededOrigin_add_nonneg hrequest hstart
  · intro after hafter place hplace
    obtain ⟨request, hrequest, rfl⟩ := List.mem_map.mp hafter
    rw [heq request hrequest] at hplace ⊢
    obtain ⟨start, hstart, rfl⟩ := Option.map_eq_some_iff.mp hplace
    have hnonneg := neededOrigin_add_nonneg hrequest hstart
    have hend := hends request hrequest start hstart
    dsimp only
    omega
  · intro i j a b ha hb
    obtain ⟨c, hc, hca⟩ := getElem?_shifted heq ha
    obtain ⟨d, hd, hdb⟩ := getElem?_shifted heq hb
    exact ⟨c, d, hc, hd, by omega⟩

/-- The requests of an axis as they are computed. -/
def requestsBetween (lines : List (GridLine × GridLine)) (tracks : Nat) : List SignedAxisRequest :=
  lines.map fun lines => (requestBetween lines.1 lines.2 tracks).value

/-- The requests that are computed are those that are asked, where these are representable. -/
theorem Representable.requestBetween_eq (h : Representable lines tracks)
    (hfits : ∀ line ∈ lines, line.1.Fits ∧ line.2.Fits) (htracks : tracks < 2 ^ 31)
    {line : GridLine × GridLine} (hline : line ∈ lines) :
    requestBetween line.1 line.2 tracks = ⟨asked line tracks, true⟩ := by
  rw [Layout.requestBetween_eq (hfits line hline).1 (hfits line hline).2 htracks
    fun count number heq => h.spans count number (heq ▸ hline)]
  rw [SignedAxisRequest.clamp_eq fun start hstart =>
    (h.starts _ (List.mem_map_of_mem hline) start hstart).1]

theorem Representable.requestsBetween_eq (h : Representable lines tracks)
    (hfits : ∀ line ∈ lines, line.1.Fits ∧ line.2.Fits) (htracks : tracks < 2 ^ 31) :
    requestsBetween lines tracks = lines.map (asked · tracks) :=
  List.map_congr_left fun line hline => by
    rw [h.requestBetween_eq hfits htracks hline]

/-- The requests of an axis are computed exactly, and so is their shift, only if what they ask is
representable. -/
theorem representable_of_exact (hfits : ∀ line ∈ lines, line.1.Fits ∧ line.2.Fits)
    (htracks : tracks < 2 ^ 31)
    (hrequests : ∀ line ∈ lines, (requestBetween line.1 line.2 tracks).exact = true)
    (hshift : ∀ request ∈ requestsBetween lines tracks,
      (shift request (neededOrigin (requestsBetween lines tracks))).exact = true)
    (hkept : Kept (requestsBetween lines tracks) (neededOrigin (requestsBetween lines tracks))
      (shifted (requestsBetween lines tracks))) : Representable lines tracks := by
  have hspans : ∀ count number, (.span count, .line number) ∈ lines → count < 2 ^ 63 :=
    fun count number hline =>
      requestBetween_exact (hfits _ hline).2 htracks (hrequests _ hline)
  have heq : ∀ line ∈ lines, requestBetween line.1 line.2 tracks = ⟨(asked line tracks).clamp, true⟩ :=
    fun line hline => requestBetween_eq (hfits line hline).1 (hfits line hline).2 htracks
      fun count number heq => hspans count number (heq ▸ hline)
  -- a start at the least integer needs an origin that is no integer with a sign
  have hleast : ∀ line ∈ lines, ∀ start, (asked line tracks).start = some start → -2 ^ 63 < start := by
    intro line hline start hstart
    by_contra hle
    have hmem : (asked line tracks).clamp ∈ requestsBetween lines tracks :=
      List.mem_map.mpr ⟨line, hline, by rw [heq line hline]⟩
    have hclamped : (asked line tracks).clamp.start = some (-2 ^ 63) := by
      rw [SignedAxisRequest.clamp, hstart, Option.map_some, Int.max_eq_left (by omega)]
    have horigin := (shift_exact (hshift _ hmem) hclamped).1
    have hnonneg := neededOrigin_add_nonneg hmem hclamped
    omega
  have hasked : requestsBetween lines tracks = lines.map (asked · tracks) :=
    List.map_congr_left fun line hline => by
      rw [heq line hline, SignedAxisRequest.clamp_eq (hleast line hline)]
  rw [hasked] at hshift hkept
  have hstarts : ∀ request ∈ lines.map (asked · tracks), ∀ start, request.start = some start →
      -2 ^ 63 < start ∧ start + neededOrigin (lines.map (asked · tracks)) < 2 ^ 63 := by
    intro request hrequest start hstart
    refine ⟨?_, (shift_exact (hshift request hrequest) hstart).2⟩
    obtain ⟨line, hline, rfl⟩ := List.mem_map.mp hrequest
    exact hleast line hline start hstart
  refine ⟨hspans, hstarts, fun request hrequest start hstart => ?_⟩
  have hnonneg := neededOrigin_add_nonneg hrequest hstart
  have hend := hkept.ends _ (List.mem_map_of_mem hrequest)
    (start + neededOrigin (lines.map (asked · tracks))).toNat
  rw [shift_eq fun other hother => ⟨neededOrigin_add_nonneg hrequest hother,
    (hstarts request hrequest other hother).2, (shift_exact (hshift request hrequest) hother).1⟩,
    hstart] at hend
  have hend := hend rfl
  dsimp only at hend
  omega

end

/-! ## The grid -/

section

variable {grid : Grid τ} {columnAxis : Bool} {axis : Text} {tracks : Nat}

theorem below_explicitColumns (grid : Grid τ) :
    NamedAreas.Below (namedAreas grid.template).1 true (grid.explicitColumns auto).length := by
  intro name area harea
  have hinside := (namedAreas_inside harea).2
  rw [if_pos rfl, Grid.explicitColumns, length_resize]
  omega

theorem below_explicitRows (grid : Grid τ) :
    NamedAreas.Below (namedAreas grid.template).1 false (grid.explicitRows auto).length := by
  intro name area harea
  have hinside := (namedAreas_inside harea).1
  rw [if_neg Bool.false_ne_true, Grid.explicitRows, length_resize]
  omega

/-- An axis of a grid has at most so many explicit tracks, and the named lines are among them. -/
def Grid.Bounded (grid : Grid τ) (columnAxis : Bool) (tracks : Nat) : Prop :=
  NamedAreas.Below (namedAreas grid.template).1 columnAxis tracks ∧ tracks < 2 ^ 31

theorem Grid.Bounded.fits (h : grid.Bounded columnAxis tracks) (axis : Text) :
    ∀ line ∈ grid.lines axis columnAxis, line.1.Fits ∧ line.2.Fits := by
  intro line hline
  obtain ⟨style, -, rfl⟩ := List.mem_map.mp hline
  exact ⟨(gridLine_exact h.1 h.2 _ _).2, (gridLine_exact h.1 h.2 _ _).2⟩

/-- A request of an item is the one between its lines. -/
theorem Grid.Bounded.axisRequest_eq (h : grid.Bounded columnAxis tracks) (style : Style) :
    axisRequest style axis tracks (namedAreas grid.template).1 columnAxis =
      requestBetween
        (gridLine (style (axis ++ "-start".toList)) (namedAreas grid.template).1 columnAxis true).value
        (gridLine (style (axis ++ "-end".toList)) (namedAreas grid.template).1 columnAxis false).value
        tracks := by
  have hexact : ∀ value startSide,
      gridLine value (namedAreas grid.template).1 columnAxis startSide =
        ⟨(gridLine value (namedAreas grid.template).1 columnAxis startSide).value, true⟩ :=
    fun value startSide => congrArg (Machine.mk _) (gridLine_exact h.1 h.2 value startSide).1
  rw [axisRequest, hexact, mk_bind, hexact, mk_bind]

theorem requests_value (hcolumns : grid.Bounded true (grid.explicitColumns auto).length)
    (hrows : grid.Bounded false (grid.explicitRows auto).length) :
    (grid.requests auto).value.map Prod.fst = requestsBetween
        (grid.lines "grid-column".toList true) (grid.explicitColumns auto).length ∧
      (grid.requests auto).value.map Prod.snd = requestsBetween
        (grid.lines "grid-row".toList false) (grid.explicitRows auto).length := by
  simp only [Grid.requests, value_mapM, List.map_map, requestsBetween, Grid.lines]
  exact ⟨List.map_congr_left fun style _ => by
      simp only [Function.comp, value_bind, value_pure, hcolumns.axisRequest_eq],
    List.map_congr_left fun style _ => by
      simp only [Function.comp, value_bind, value_pure, hrows.axisRequest_eq]⟩

theorem requests_exact (hcolumns : grid.Bounded true (grid.explicitColumns auto).length)
    (hrows : grid.Bounded false (grid.explicitRows auto).length) :
    (grid.requests auto).exact = true ↔
      (∀ line ∈ grid.lines "grid-column".toList true,
        (requestBetween line.1 line.2 (grid.explicitColumns auto).length).exact = true) ∧
      (∀ line ∈ grid.lines "grid-row".toList false,
        (requestBetween line.1 line.2 (grid.explicitRows auto).length).exact = true) := by
  simp only [Grid.requests, exact_mapM, List.all_eq_true, exact_bind, exact_pure, Bool.and_true,
    Bool.and_eq_true, Grid.lines, List.forall_mem_map, hcolumns.axisRequest_eq,
    hrows.axisRequest_eq, forall_and]

/-- The requests of either axis are shifted. -/
theorem normalize_value (requests : List (SignedAxisRequest × SignedAxisRequest))
    (columns rows : List τ) :
    let normalized := (normalizeGridRequests auto requests columns rows).value
    normalized.requests.map Prod.fst = shifted (requests.map Prod.fst) ∧
      normalized.requests.map Prod.snd = shifted (requests.map Prod.snd) ∧
      normalized.columnOrigin = neededOrigin (requests.map Prod.fst) ∧
      normalized.rowOrigin = neededOrigin (requests.map Prod.snd) := by
  simp only [normalizeGridRequests, value_bind, value_mapM, value_pure, shifted, neededOrigin,
    List.map_map, List.filterMap_map]
  exact ⟨rfl, rfl, rfl, rfl⟩

theorem normalize_exact (requests : List (SignedAxisRequest × SignedAxisRequest))
    (columns rows : List τ) :
    (normalizeGridRequests auto requests columns rows).exact = true ↔
      (∀ request ∈ requests.map Prod.fst,
        (shift request (neededOrigin (requests.map Prod.fst))).exact = true) ∧
      (∀ request ∈ requests.map Prod.snd,
        (shift request (neededOrigin (requests.map Prod.snd))).exact = true) := by
  simp only [normalizeGridRequests, exact_bind, exact_mapM, exact_pure, Bool.and_true,
    List.all_eq_true, Bool.and_eq_true, neededOrigin, List.filterMap_map, List.forall_mem_map,
    forall_and]
  rfl

/-- The columns that the placement needs are computed exactly if the ends of the requests and the
spans are integers of 64 bits. -/
theorem machineRequiredColumns_eq {requests : List Request}
    (hends : ∀ request ∈ requests, ∀ start, request.1.start = some start →
      start + request.1.span < 2 ^ 64)
    (hspans : ∀ request ∈ requests, 0 < request.1.span ∧ request.1.span < 2 ^ 64) :
    machineRequiredColumns requests = ⟨requiredColumns requests, true⟩ := by
  have heq : ∀ request ∈ requests, addUsize (request.1.start.getD 0) (max request.1.span 1) =
      ⟨request.1.start.getD 0 + max request.1.span 1, true⟩ := by
    intro request hrequest
    have hspan := hspans request hrequest
    refine addUsize_of_lt ?_
    cases hstart : request.1.start with
    | none =>
      rw [Option.getD_none]
      omega
    | some start =>
      have hend := hends request hrequest start hstart
      rw [Option.getD_some]
      omega
  rw [machineRequiredColumns, mapM_eq heq]
  rfl

/-- The spans of the requests are those that are asked. -/
theorem shifted_spans {lines : List (GridLine × GridLine)}
    (hfits : ∀ line ∈ lines, line.1.Fits ∧ line.2.Fits) (htracks : tracks < 2 ^ 31) :
    ∀ request ∈ shifted (lines.map (asked · tracks)), 0 < request.span ∧ request.span < 2 ^ 64 := by
  intro request hrequest
  obtain ⟨before, hbefore, rfl⟩ := List.mem_map.mp hrequest
  obtain ⟨line, hline, rfl⟩ := List.mem_map.mp hbefore
  exact asked_span (hfits line hline).1 (hfits line hline).2 htracks

/-- Grid line arithmetic stays in range exactly if what the lines ask of either axis is among the
integers of 64 bits. -/
theorem staysInRange_iff (grid : Grid τ) (hcolumns : (grid.explicitColumns auto).length < 2 ^ 31)
    (hrows : (grid.explicitRows auto).length < 2 ^ 31) :
    grid.StaysInRange auto ↔
      Representable (grid.lines "grid-column".toList true) (grid.explicitColumns auto).length ∧
      Representable (grid.lines "grid-row".toList false) (grid.explicitRows auto).length := by
  have hbounded : grid.Bounded true (grid.explicitColumns auto).length :=
    ⟨below_explicitColumns auto grid, hcolumns⟩
  have hbounded' : grid.Bounded false (grid.explicitRows auto).length :=
    ⟨below_explicitRows auto grid, hrows⟩
  have hfits := hbounded.fits "grid-column".toList
  have hfits' := hbounded'.fits "grid-row".toList
  obtain ⟨hvalue, hvalue'⟩ := requests_value auto hbounded hbounded'
  obtain ⟨hshifted, hshifted', horigin, horigin'⟩ :=
    normalize_value auto (grid.requests auto).value (grid.explicitColumns auto) (grid.explicitRows auto)
  have hexact : (grid.normalized auto).exact = true ↔ _ ∧ _ :=
    Bool.and_eq_true_iff.trans (and_congr (requests_exact auto hbounded hbounded')
      (normalize_exact auto ..))
  rw [hvalue] at hshifted horigin hexact
  rw [hvalue'] at hshifted' horigin' hexact
  constructor
  · intro h
    obtain ⟨⟨hrequests, hrequests'⟩, hshift, hshift'⟩ := hexact.mp h.exact
    have hkept := h.columns
    have hkept' := h.rows
    simp only [Grid.normalized, value_bind, hvalue, hvalue', hshifted, hshifted', horigin,
      horigin'] at hkept hkept'
    exact ⟨representable_of_exact hfits hcolumns hrequests hshift hkept,
      representable_of_exact hfits' hrows hrequests' hshift' hkept'⟩
  · rintro ⟨h, h'⟩
    have hasked := h.requestsBetween_eq hfits hcolumns
    have hasked' := h'.requestsBetween_eq hfits' hrows
    rw [hasked] at hshifted horigin hexact hvalue
    rw [hasked'] at hshifted' horigin' hexact hvalue'
    obtain ⟨hshift, hkept⟩ := kept_shifted h.starts h.ends
    obtain ⟨hshift', hkept'⟩ := kept_shifted h'.starts h'.ends
    have hcolumn : ∀ request ∈ (grid.normalized auto).value.requests, request.1 ∈ shifted _ :=
      fun request hrequest => hshifted ▸ List.mem_map_of_mem hrequest
    have hrow : ∀ request ∈ (grid.normalized auto).value.requests, request.2 ∈ shifted _ :=
      fun request hrequest => hshifted' ▸ List.mem_map_of_mem hrequest
    refine ⟨hexact.mpr ⟨⟨fun line hline => ?_, fun line hline => ?_⟩, hshift, hshift'⟩, ?_, ?_, ?_, ?_⟩
    · rw [h.requestBetween_eq hfits hcolumns hline]
    · rw [h'.requestBetween_eq hfits' hrows hline]
    · simpa only [Grid.normalized, value_bind, hvalue, hshifted, horigin] using hkept
    · simpa only [Grid.normalized, value_bind, hvalue', hshifted', horigin'] using hkept'
    · rw [machineRequiredColumns_eq (fun request hrequest => hkept.ends _ (hcolumn request hrequest))
        fun request hrequest => shifted_spans hfits hcolumns _ (hcolumn request hrequest)]
    · rw [machineRequiredColumns_eq]
      · intro request hrequest
        obtain ⟨original, horiginal, rfl⟩ := List.mem_map.mp hrequest
        exact hkept'.ends _ (hrow original horiginal)
      · intro request hrequest
        obtain ⟨original, horiginal, rfl⟩ := List.mem_map.mp hrequest
        exact shifted_spans hfits' hrows _ (hrow original horiginal)

/-- Items that span back from the last line of a named area, start before the first column and are
placed automatically. -/
def areaGrid : Grid Unit where
  template := some (.keyword "\"a a b\"".toList)
  columns := [()]
  rows := []
  items := [fun property =>
      if property = "grid-column-start".toList then some (.keyword "span 2".toList)
      else if property = "grid-column-end".toList then some (.keyword "b-end".toList)
      else none,
    fun property =>
      if property = "grid-column-start".toList then some (.number ⟨-9, by decide⟩) else none,
    fun _ => none]

theorem staysInRange_areaGrid : areaGrid.StaysInRange () := by
  refine (staysInRange_iff () areaGrid (by decide) (by decide)).mpr ⟨?_, ?_⟩
  · have hlines : areaGrid.lines "grid-column".toList true =
        [(.span 2, .line 4), (.line (-9), .auto), (.auto, .auto)] := by decide
    rw [hlines]
    exact ⟨by simp, by decide, by decide⟩
  · have hlines : areaGrid.lines "grid-row".toList false =
        [(.auto, .auto), (.auto, .auto), (.auto, .auto)] := by decide
    rw [hlines]
    exact ⟨by simp, by decide, by decide⟩

/-- A grid of one explicit column, whose item starts at line 2 and spans as many tracks as there are
numbers. -/
def endlessGrid : Grid Unit where
  template := none
  columns := [()]
  rows := []
  items := [fun property =>
    if property = "grid-column-start".toList then some (.keyword "2".toList)
    else if property = "grid-column-end".toList then
      some (.keyword "span 18446744073709551615".toList)
    else none]

/-- The end of the item is not computed. -/
theorem endlessGrid_fails : ¬ ∀ grid : Grid Unit, (grid.explicitColumns ()).length < 2 ^ 31 →
    (grid.explicitRows ()).length < 2 ^ 31 → grid.StaysInRange () := by
  intro h
  have hrange := h endlessGrid (by decide) (by decide)
  have hrequired : (machineRequiredColumns (endlessGrid.normalized ()).value.requests).exact = false := by
    decide
  rw [hrange.required] at hrequired
  cases hrequired

end

end Omoikane.Layout
