import Omoikane.Layout.GridSearch

/-!
# The passes

Each pass goes over all items and places some of them.  The areas that are placed are kept with
their items in a list, in the order in which they were placed.  `Progress` relates the state to that
list, and `Sound` says what holds of an area and those before it.
-/

namespace Omoikane.Layout

/-! ## Lists that are built at their end -/

section

variable {α β σ : Type} {Step : List α → α → Prop} {items : List α}

/-- Every element of a list was a step after those before it. -/
def Built (Step : List α → α → Prop) (items : List α) : Prop :=
  ∀ before item after, items = before ++ item :: after → Step before item

theorem Built.nil : Built Step [] := fun before item after h => by
  cases before <;> cases h

theorem Built.concat (h : Built Step items) {item : α} (hstep : Step items item) :
    Built Step (items ++ [item]) := by
  intro before other after heq
  rcases List.eq_nil_or_concat after with rfl | ⟨rest, last, rfl⟩
  · obtain ⟨hitems, hitem⟩ := List.append_inj' heq rfl
    cases hitem
    rwa [← hitems]
  · rw [List.concat_eq_append] at heq
    have hassoc : items ++ [item] = (before ++ other :: rest) ++ [last] := by
      rw [heq, List.append_assoc, List.cons_append]
    obtain ⟨hitems, -⟩ := List.append_inj' hassoc rfl
    exact h before other rest hitems

/-- A loop that skips some items, and whose state goes with the list of what it made of the others:
if no item is visited twice, that list has the items to be visited, in their order. -/
theorem foldlM_visits {step : σ → α → Option σ} {visits : α → Bool} {key : β → α}
    {Inv : σ → List β → Prop} (hskip : ∀ s a, visits a = false → step s a = some s)
    {all : List α} (hvisit : ∀ s made a, Inv s made → a ∈ all → visits a = true →
      a ∉ made.map key → ∃ s' b, step s a = some s' ∧ Inv s' (made ++ [b]) ∧ key b = a) :
    ∀ (items : List α), items.Nodup → items ⊆ all → ∀ {s : σ} {made : List β}, Inv s made →
      (∀ a ∈ items, visits a = true → a ∉ made.map key) →
      ∃ s' more, items.foldlM step s = some s' ∧ Inv s' (made ++ more) ∧
        more.map key = items.filter visits
  | [], _, _, s, made, h, _ => ⟨s, [], rfl, by rwa [List.append_nil], rfl⟩
  | a :: items, hnodup, hsub, s, made, h, hnew => by
    obtain ⟨ha, hitems⟩ := List.nodup_cons.mp hnodup
    have hsub' : items ⊆ all := fun _ hb => hsub (List.mem_cons_of_mem a hb)
    cases hvisits : visits a with
    | false =>
      obtain ⟨s', more, hfold, hinv, hmore⟩ := foldlM_visits hskip hvisit items hitems hsub' h
        fun b hb => hnew b (List.mem_cons_of_mem _ hb)
      refine ⟨s', more, ?_, hinv, ?_⟩
      · rw [List.foldlM_cons, hskip s a hvisits]
        exact hfold
      · rw [List.filter_cons_of_neg (by rw [hvisits]; exact Bool.false_ne_true), hmore]
    | true =>
      obtain ⟨s₁, b, hstep, hinv₁, hkey⟩ := hvisit s made a h (hsub List.mem_cons_self) hvisits
        (hnew a List.mem_cons_self hvisits)
      obtain ⟨s', more, hfold, hinv, hmore⟩ := foldlM_visits hskip hvisit items hitems hsub' hinv₁
        fun c hc hc' hmem => by
          rw [List.map_append, List.map_singleton, hkey] at hmem
          rcases List.mem_append.mp hmem with hmem | hmem
          · exact hnew c (List.mem_cons_of_mem _ hc) hc' hmem
          · rw [List.mem_singleton.mp hmem] at hc
            exact ha hc
      refine ⟨s', b :: more, ?_, ?_, ?_⟩
      · rw [List.foldlM_cons, hstep]
        exact hfold
      · rwa [List.append_assoc] at hinv
      · rw [List.filter_cons_of_pos hvisits, List.map_cons, hkey, hmore]

end

/-! ## Items and areas -/

/-- An item of the requests, at its index. -/
abbrev Item := Request × Nat

/-- The pass that places an item. -/
def pass (item : Item) : Nat :=
  if item.1.2.start.isNone then 2 else if item.1.1.start.isNone then 1 else 0

/-- An area is where the request says, as far as it says, and as large. -/
structure Honours (request : Request) (placement : Placement) : Prop where
  column : ∀ start, request.1.start = some start → placement.column = start
  row : ∀ start, request.2.start = some start → placement.row = start
  columnSpan : placement.columnSpan = max request.1.span 1
  rowSpan : placement.rowSpan = max request.2.span 1

/-- Two areas share a cell. -/
def Placement.Overlaps (placement other : Placement) : Prop :=
  ∃ row column, placement.Covers row column ∧ other.Covers row column

/-- The position of an area, its row first. -/
def Placement.position (placement : Placement) : Nat × Nat := (placement.row, placement.column)

/-- An item with its area. -/
abbrev Entry := Item × Placement

/-- The cells that areas cover. -/
def Taken (entries : List Entry) (row column : Nat) : Prop :=
  ∃ entry ∈ entries, entry.2.Covers row column

theorem taken_concat {entries : List Entry} {entry : Entry} {row column : Nat} :
    Taken (entries ++ [entry]) row column ↔
      Taken entries row column ∨ entry.2.Covers row column := by
  constructor
  · rintro ⟨other, hother, hcovers⟩
    rcases List.mem_append.mp hother with hother | hother
    · exact .inl ⟨other, hother, hcovers⟩
    · rw [List.mem_singleton.mp hother] at hcovers
      exact .inr hcovers
  · rintro (⟨other, hother, hcovers⟩ | hcovers)
    · exact ⟨other, List.mem_append_left _ hother, hcovers⟩
    · exact ⟨entry, List.mem_append_right _ (List.mem_singleton_self _), hcovers⟩

theorem free_taken_iff {entries : List Entry} {placement : Placement} :
    Free (Taken entries) placement ↔ ∀ other ∈ entries, ¬ placement.Overlaps other.2 := by
  constructor
  · rintro hfree other hother ⟨row, column, hcovers, hcovers'⟩
    exact hfree row column hcovers ⟨other, hother, hcovers'⟩
  · rintro hapart row column hcovers ⟨other, hother, hcovers'⟩
    exact hapart other hother ⟨row, column, hcovers, hcovers'⟩

/-- What holds of an area and the areas that were placed before it, in a grid that is finally
`width` columns wide. -/
structure Sound (dense : Bool) (width : Nat) (before : List Entry) (entry : Entry) : Prop where
  honours : Honours entry.1.1 entry.2
  apart : pass entry.1 ≠ 0 → ∀ other ∈ before, ¬ entry.2.Overlaps other.2
  ascending : pass entry.1 = 2 → dense = false → ∀ other ∈ before, pass other.1 = 2 →
    RowMajor other.2.position entry.2.position
  first : pass entry.1 = 2 → dense = true → ∀ position : Nat × Nat,
    (∀ start, entry.1.1.1.start = some start → position.2 = start) →
    position.2 + entry.2.columnSpan ≤ width → RowMajor position entry.2.position →
    ∃ other ∈ before, Placement.Overlaps
      ⟨position.2, position.1, entry.2.columnSpan, entry.2.rowSpan⟩ other.2

/-! ## The state -/

section

variable {τ : Type} {auto : τ} {requests : List Request} {columns rows : List τ}
  {state : Placing τ} {entries : List Entry} {item : Item}

/-- The state after some areas were placed, starting from some tracks. -/
structure Progress (auto : τ) (requests : List Request) (columns rows : List τ)
    (state : Placing τ) (entries : List Entry) : Prop where
  table : ∃ width, width ≤ state.columns.length ∧ Table state.occupied width (Taken entries)
  columns : Extends auto columns state.columns
  rows : Extends auto rows state.rows
  length : state.result.length = requests.length
  items : ∀ entry ∈ entries, entry.1 ∈ requests.zipIdx
  result : ∀ entry ∈ entries, state.result[entry.1.2]? = some entry.2
  inside : ∀ entry ∈ entries,
    entry.2.column + entry.2.columnSpan ≤ state.columns.length ∧
      entry.2.row + entry.2.rowSpan ≤ state.rows.length

/-- The columns and the table may grow. -/
theorem Progress.grow (h : Progress auto requests columns rows state entries)
    {columns' : List τ} {occupied : List (List Bool)} {width : Nat}
    (hcolumns : Extends auto state.columns columns') (hwidth : width ≤ columns'.length)
    (htable : Table occupied width (Taken entries)) :
    Progress auto requests columns rows { state with columns := columns', occupied } entries where
  table := ⟨width, hwidth, htable⟩
  columns := h.columns.trans hcolumns
  rows := h.rows
  length := h.length
  items := h.items
  result := h.result
  inside entry hentry := by
    obtain ⟨hcolumn, hrow⟩ := h.inside entry hentry
    exact ⟨Nat.le_trans hcolumn hcolumns.length_le, hrow⟩

/-- An area is occupied and becomes that of its item. -/
theorem Progress.occupy (h : Progress auto requests columns rows state entries)
    (hitem : item ∈ requests.zipIdx) (hnew : item ∉ entries.map Prod.fst) (placement : Placement)
    (cursors : Nat → Option Nat) :
    ∃ state', occupyArea auto state placement = some state' ∧
      Progress auto requests columns rows
        { state' with result := state'.result.set item.2 placement, rowCursors := cursors }
        (entries ++ [(item, placement)]) ∧
      state'.rowCursors = state.rowCursors ∧
      (placement.column + placement.columnSpan ≤ state.columns.length →
        state'.columns = state.columns) := by
  obtain ⟨width, hwidth, htable⟩ := h.table
  have hcolumns : Extends auto state.columns (resize state.columns
      (max state.columns.length (placement.column + placement.columnSpan)) auto) :=
    extends_resize ..
  have hrows : Extends auto state.rows (resize state.rows
      (max state.rows.length (placement.row + placement.rowSpan)) auto) := extends_resize ..
  have hcolumnsLength := length_resize state.columns
    (max state.columns.length (placement.column + placement.columnSpan)) auto
  have hrowsLength := length_resize state.rows
    (max state.rows.length (placement.row + placement.rowSpan)) auto
  obtain ⟨htable', hheight⟩ := htable.ensureOccupancy (Nat.le_trans hwidth hcolumns.length_le)
    (resize state.rows (max state.rows.length (placement.row + placement.rowSpan)) auto).length
  obtain ⟨filled, hfilled, -, htable''⟩ := @Table.fillArea _ _ _ htable' placement
    (by rw [hheight, hrowsLength]; omega) (by rw [hcolumnsLength]; exact Nat.le_max_right ..)
  refine ⟨{ state with
      columns := resize state.columns
        (max state.columns.length (placement.column + placement.columnSpan)) auto
      rows := resize state.rows (max state.rows.length (placement.row + placement.rowSpan)) auto
      occupied := filled },
    by rw [occupyArea, hfilled]; rfl, ?_, rfl, fun hfits => ?_⟩
  · refine ⟨⟨_, Nat.le_refl _, htable''.congr fun r c =>
        (@taken_concat entries (item, placement) r c).symm⟩,
      h.columns.trans hcolumns, h.rows.trans hrows, (List.length_set ..).trans h.length,
      fun entry hentry => ?_, fun entry hentry => ?_, fun entry hentry => ?_⟩
    · rcases List.mem_append.mp hentry with hentry | hentry
      · exact h.items entry hentry
      · rw [List.mem_singleton.mp hentry]
        exact hitem
    · show (state.result.set item.2 placement)[entry.1.2]? = _
      have hget := List.mem_zipIdx_iff_getElem?.mp hitem
      rcases List.mem_append.mp hentry with hentry | hentry
      · -- another item has another index
        have hne : item.2 ≠ entry.1.2 := by
          intro heq
          have hother := List.mem_zipIdx_iff_getElem?.mp (h.items entry hentry)
          rw [← heq, hget] at hother
          refine hnew (List.mem_map.mpr ⟨entry, hentry, ?_⟩)
          exact (Prod.ext (Option.some.inj hother) heq).symm
        rw [List.getElem?_set_ne hne]
        exact h.result entry hentry
      · rw [List.mem_singleton.mp hentry]
        refine List.getElem?_set_self ?_
        rw [h.length]
        exact (List.getElem?_eq_some_iff.mp hget).1
    · show _ ≤ (resize state.columns _ auto).length ∧ _ ≤ (resize state.rows _ auto).length
      rw [hcolumnsLength, hrowsLength]
      rcases List.mem_append.mp hentry with hentry | hentry
      · have := h.inside entry hentry
        omega
      · rw [List.mem_singleton.mp hentry]
        exact ⟨Nat.le_max_right .., Nat.le_max_right ..⟩
  · show resize state.columns _ auto = state.columns
    rw [Nat.max_eq_left hfits, resize_of_le (Nat.le_refl _), Nat.sub_self]
    exact List.append_nil _

/-! ## Definite rows -/

theorem placeLocked_skip (dense : Bool) {definite : Bool} (state : Placing τ)
    (h : pass item ≠ if definite then 0 else 1) :
    placeLocked auto dense definite state item = some state := by
  obtain ⟨⟨column, row⟩, index⟩ := item
  unfold pass at h
  unfold placeLocked
  cases hrow : row.start with
  | none => simp only [hrow]
  | some candidateRow =>
    simp only [hrow, Option.isNone_some] at h ⊢
    rw [if_pos]
    intro heq
    refine h ?_
    cases definite <;> cases hcolumn : column.start <;> rw [hcolumn] at heq <;>
      first | rfl | cases heq

/-- What the first two passes keep. -/
def Locked (auto : τ) (requests : List Request) (columns rows : List τ) (dense : Bool)
    (state : Placing τ) (entries : List Entry) : Prop :=
  Progress auto requests columns rows state entries ∧ ∀ width, Built (Sound dense width) entries

theorem placeLocked_spec {dense definite : Bool}
    (h : Locked auto requests columns rows dense state entries) (hitem : item ∈ requests.zipIdx)
    (hpass : pass item = if definite then 0 else 1) (hnew : item ∉ entries.map Prod.fst) :
    ∃ state' entry, placeLocked auto dense definite state item = some state' ∧
      Locked auto requests columns rows dense state' (entries ++ [entry]) ∧ entry.1 = item := by
  obtain ⟨hprogress, hbuilt⟩ := h
  obtain ⟨⟨column, row⟩, index⟩ := item
  have hstart : ∃ candidateRow, row.start = some candidateRow ∧ column.start.isSome = definite := by
    unfold pass at hpass
    cases hrow : row.start with
    | none =>
      rw [hrow] at hpass
      cases definite <;> cases hpass
    | some candidateRow =>
      refine ⟨candidateRow, rfl, ?_⟩
      rw [hrow] at hpass
      cases definite <;> cases hcolumn : column.start <;> rw [hcolumn] at hpass <;>
        first | rfl | cases hpass
  obtain ⟨candidateRow, hrow, hdefinite⟩ := hstart
  -- the column that the item gets, and the table in which it was looked for
  obtain ⟨candidateColumn, columns', occupied', hsearch, hcolumn, hgrown, hfree⟩ :
      ∃ candidateColumn columns' occupied',
        (column.start.elim
          (findColumn auto candidateRow (max column.span 1) (max row.span 1)
            (state.columns.length + 1)
            (if dense then 0 else (state.rowCursors candidateRow).getD 0)
            state.columns state.occupied)
          fun start => some (start, state.columns, state.occupied)) =
            some (candidateColumn, columns', occupied') ∧
        (∀ start, column.start = some start → candidateColumn = start) ∧
        Progress auto requests columns rows
          { state with columns := columns', occupied := occupied' } entries ∧
        (column.start = none → Free (Taken entries)
          ⟨candidateColumn, candidateRow, max column.span 1, max row.span 1⟩) := by
    cases hcolumn : column.start with
    | some start =>
      exact ⟨start, _, _, rfl, fun other hother => Option.some.inj hother, hprogress, nofun⟩
    | none =>
      obtain ⟨width, hwidth, htable⟩ := hprogress.table
      obtain ⟨candidateColumn, columns', occupied', hfound, hextends, htable', -, hfree⟩ :=
        findColumn_spec (fun r c htaken => Nat.lt_of_lt_of_le (htable.lt_of_taken htaken).2 hwidth)
          state.columns.length htable hwidth (Nat.le_add_left ..)
      exact ⟨candidateColumn, columns', occupied', hfound, nofun,
        hprogress.grow hextends (Nat.le_refl _) htable', fun _ => hfree⟩
  obtain ⟨state', hoccupy, hprogress', hcursors, -⟩ := hgrown.occupy hitem hnew
    ⟨candidateColumn, candidateRow, max column.span 1, max row.span 1⟩
    fun r => if ¬ definite ∧ r = candidateRow then some (candidateColumn + max column.span 1)
      else state.rowCursors r
  refine ⟨_, _, ?_, ⟨hprogress', fun width => (hbuilt width).concat ?_⟩, rfl⟩
  · rw [placeLocked]
    simp only [hrow]
    rw [if_neg (not_not.mpr hdefinite), hsearch]
    simp only [Option.bind_eq_bind, Option.bind_some, hoccupy, hcursors]
    rfl
  · refine ⟨⟨fun start hs => hcolumn start hs, fun start hs => ?_, rfl, rfl⟩, fun hne => ?_, ?_, ?_⟩
    · rw [hrow] at hs
      exact Option.some.inj hs
    · refine free_taken_iff.mp (hfree ?_)
      cases definite with
      | true => exact absurd hpass hne
      | false =>
        cases hcolumn' : column.start with
        | none => rfl
        | some start => rw [hcolumn'] at hdefinite; cases hdefinite
    · intro htwo
      rw [htwo] at hpass
      cases definite <;> cases hpass
    · intro htwo
      rw [htwo] at hpass
      cases definite <;> cases hpass

/-- A pass over the items with a definite row. -/
theorem placeLocked_pass {dense : Bool} (definite : Bool)
    (h : Locked auto requests columns rows dense state entries)
    (hbefore : ∀ entry ∈ entries, pass entry.1 ≠ if definite then 0 else 1) :
    ∃ state' more, requests.zipIdx.foldlM (placeLocked auto dense definite) state = some state' ∧
      Locked auto requests columns rows dense state' (entries ++ more) ∧
      more.map Prod.fst =
        requests.zipIdx.filter (pass · = if definite then 0 else 1) := by
  refine @foldlM_visits Item Entry (Placing τ) _ (fun item => pass item = if definite then 0 else 1) _
    (Locked auto requests columns rows dense) (fun state item hskip => ?_) requests.zipIdx
    (fun state made item hinv hitem hvisit hnew => ?_) requests.zipIdx
    ((List.nodup_zipIdx_map_snd requests).of_map _) (fun _ hm => hm) _ _ h fun item _ hvisit hmem => ?_
  · exact placeLocked_skip dense state (of_decide_eq_false hskip)
  · exact placeLocked_spec hinv hitem (of_decide_eq_true hvisit) hnew
  · obtain ⟨entry, hentry, rfl⟩ := List.mem_map.mp hmem
    exact hbefore entry hentry (of_decide_eq_true hvisit)

/-! ## Automatic rows -/

theorem placeAutomatic_skip (dense : Bool) (state : (Nat × Nat) × Placing τ)
    (h : pass item ≠ 2) : placeAutomatic auto dense state item = some state := by
  obtain ⟨cursor, state⟩ := state
  obtain ⟨⟨column, row⟩, index⟩ := item
  unfold placeAutomatic
  cases hrow : row.start with
  | none =>
    refine absurd ?_ h
    rw [pass, hrow]
    rfl
  | some start => simp only [hrow]

/-- What the last pass keeps, with the cursor: its column, and its row. -/
structure Automatic (auto : τ) (requests : List Request) (columns rows : List τ) (dense : Bool)
    (width : Nat) (state : (Nat × Nat) × Placing τ) (entries : List Entry) : Prop where
  progress : Progress auto requests columns rows state.2 entries
  width_eq : state.2.columns.length = width
  built : Built (Sound dense width) entries
  cursor_le : state.1.1 ≤ width
  behind : dense = false → ∀ entry ∈ entries, pass entry.1 = 2 →
    ¬ RowMajor (state.1.2, state.1.1) entry.2.position ∧ Taken entries state.1.2 state.1.1

theorem startCursor_column {dense : Bool} {start : Option Nat} {cursor : Nat × Nat} {s : Nat}
    (h : start = some s) : (startCursor dense start cursor).1 = s := by
  rw [startCursor, h]

theorem startCursor_dense {start : Option Nat} {cursor : Nat × Nat} :
    (startCursor true start cursor).2 = 0 := by
  cases start with
  | none => rfl
  | some start =>
    show (if start < 0 then 1 else 0) = 0
    exact if_neg (Nat.not_lt_zero start)

/-- The search starts at the cursor, or after it. -/
theorem startCursor_sparse {start : Option Nat} {cursor : Nat × Nat} :
    startCursor false start cursor = cursor ∨
      RowMajor (cursor.2, cursor.1)
        ((startCursor false start cursor).2, (startCursor false start cursor).1) := by
  obtain ⟨cursorColumn, cursorRow⟩ := cursor
  cases start with
  | none => exact .inl rfl
  | some start =>
    show (start, if start < cursorColumn then cursorRow + 1 else cursorRow) = _ ∨
      RowMajor _ (if start < cursorColumn then cursorRow + 1 else cursorRow, start)
    unfold RowMajor
    rw [Prod.mk.injEq]
    dsimp only
    split <;> omega

theorem placeAutomatic_spec {dense : Bool} {width : Nat} {state : (Nat × Nat) × Placing τ}
    (h : Automatic auto requests columns rows dense width state entries)
    (hitem : item ∈ requests.zipIdx) (hpass : pass item = 2) (hnew : item ∉ entries.map Prod.fst)
    (hrequired : item.1.1.start.getD 0 + max item.1.1.span 1 ≤ width) :
    ∃ state' entry, placeAutomatic auto dense state item = some state' ∧
      Automatic auto requests columns rows dense width state' (entries ++ [entry]) ∧
      entry.1 = item := by
  obtain ⟨cursor, state⟩ := state
  obtain ⟨hprogress, hwidth, hbuilt, hcursor, hbehind⟩ := h
  obtain ⟨⟨column, row⟩, index⟩ := item
  dsimp only at hprogress hwidth hcursor hbehind hrequired
  have hrow : row.start = none := by
    unfold pass at hpass
    cases hrow : row.start with
    | none => rfl
    | some start =>
      rw [hrow, Option.isNone_some, if_neg Bool.false_ne_true] at hpass
      split at hpass <;> cases hpass
  obtain ⟨tableWidth, htableWidth, htable⟩ := hprogress.table
  -- the search
  have hstartFits : column.start.isSome = true →
      (startCursor dense column.start cursor).1 + max column.span 1 ≤ width := by
    intro hsome
    obtain ⟨start, hstart⟩ := Option.isSome_iff_exists.mp hsome
    rw [startCursor_column hstart]
    rwa [hstart, Option.getD_some] at hrequired
  have hstartLe : (startCursor dense column.start cursor).1 ≤ width := by
    cases hstart : column.start with
    | none =>
      cases dense with
      | true => exact Nat.zero_le _
      | false => exact hcursor
    | some start =>
      have := hstartFits (by rw [hstart]; rfl)
      rw [hstart] at this
      exact Nat.le_trans (Nat.le_add_right ..) this
  obtain ⟨found, row', occupied', hsearch, htable', hfit⟩ := @findCell_spec width (Taken entries)
    (max column.span 1) (max row.span 1) state.occupied.length column.start.isSome
    (fun r c htaken => (htable.lt_of_taken htaken).1)
    (Nat.le_trans (Nat.le_add_left ..) hrequired) (Nat.lt_of_lt_of_le Nat.zero_lt_one
      (Nat.le_max_right ..)) ((state.occupied.length + 1) * (width + 1))
    (startCursor dense column.start cursor).1 (startCursor dense column.start cursor).2
    state.occupied tableWidth htable (hwidth ▸ htableWidth) hstartLe hstartFits (by
      rw [Nat.succ_mul]
      exact Nat.add_le_add (Nat.mul_le_mul_right _ (Nat.sub_le ..)) (Nat.sub_le ..))
  have hfits := hfit.candidate.fits
  have hfree := free_taken_iff.mp hfit.free
  have hcolumn : ∀ start, column.start = some start → found = start := by
    intro start hstart
    exact (hfit.candidate.column_eq (by rw [hstart]; rfl)).trans (startCursor_column hstart)
  obtain ⟨state', hoccupy, hprogress', hcursors, hcolumns⟩ :=
    (hprogress.grow (Extends.refl _) (Nat.le_of_eq hwidth.symm) htable').occupy hitem hnew
      ⟨found, row', max column.span 1, max row.span 1⟩ state.rowCursors
  have hcolumns' : state'.columns = state.columns := hcolumns (by rw [hwidth]; exact hfits)
  refine ⟨((found, row'), { state' with
      result := state'.result.set index ⟨found, row', max column.span 1, max row.span 1⟩ }),
    (((column, row), index), ⟨found, row', max column.span 1, max row.span 1⟩), ?_, ?_, rfl⟩
  · unfold placeAutomatic
    simp only [hrow, hwidth]
    simp only [Option.bind_eq_bind, hsearch, Option.bind_some, hoccupy]
    rfl
  have hcovers : Placement.Covers ⟨found, row', max column.span 1, max row.span 1⟩ row' found := by
    refine ⟨Nat.le_refl _, ?_, Nat.le_refl _, ?_⟩ <;>
    · dsimp only
      omega
  -- in a sparse grid the cell of the cursor is taken, so that the area lies behind it
  have hbehind' : dense = false → ∀ other ∈ entries, pass other.1 = 2 →
      RowMajor other.2.position (row', found) := by
    intro hsparse other hother htwo
    obtain ⟨hnot, ⟨taker, htaker, htakes⟩⟩ := hbehind hsparse other hother htwo
    have hnotBefore := hfit.candidate.not_before
    have hne : ¬ (row' = cursor.2 ∧ found = cursor.1) := by
      rintro ⟨rfl, rfl⟩
      exact hfree taker htaker ⟨_, _, hcovers, htakes⟩
    subst hsparse
    rcases startCursor_sparse with hsame | hafter
    · rw [hsame] at hnotBefore
      unfold RowMajor at hnot hnotBefore ⊢
      dsimp only at hnot hnotBefore hne ⊢
      omega
    · unfold RowMajor at hnot hnotBefore hafter ⊢
      dsimp only at hnot hnotBefore hafter ⊢
      omega
  refine ⟨?_, (congrArg List.length hcolumns').trans hwidth, hbuilt.concat ⟨⟨hcolumn, fun start hs => ?_, rfl, rfl⟩,
    fun _ => hfree, fun _ hsparse other hother htwo => hbehind' hsparse other hother htwo,
    fun _ hdense position hposition hwide hbefore => ?_⟩, Nat.le_trans (Nat.le_add_right ..) hfits,
    fun hsparse other hother htwo => ?_⟩
  · rw [hcursors] at *
    exact hprogress'
  · rw [hrow] at hs
    cases hs
  · subst hdense
    have htaken := hfit.first position ⟨fun hsome => ?_, hwide, ?_⟩ hbefore
    · by_contra hnone
      refine htaken (free_taken_iff.mpr fun other hother hoverlaps => ?_)
      exact hnone ⟨other, hother, hoverlaps⟩
    · obtain ⟨start, hstart⟩ := Option.isSome_iff_exists.mp hsome
      exact (hposition start hstart).trans (startCursor_column hstart).symm
    · rw [startCursor_dense]
      cases hstart : column.start with
      | none =>
        rintro (hlt | ⟨-, hlt⟩)
        · exact absurd hlt (Nat.not_lt_zero _)
        · exact absurd hlt (Nat.not_lt_zero _)
      | some start =>
        rintro (hlt | ⟨-, hlt⟩)
        · exact absurd hlt (Nat.not_lt_zero _)
        · rw [startCursor_column rfl] at hlt
          exact absurd hlt (Nat.not_lt.mpr (Nat.le_of_eq (hposition start hstart).symm))
  · rcases List.mem_append.mp hother with hother | hother
    · refine ⟨fun hbefore => ?_, taken_concat.mpr (.inr hcovers)⟩
      exact RowMajor.irrefl _ (hbefore.trans (hbehind' hsparse other hother htwo))
    · rw [List.mem_singleton.mp hother]
      exact ⟨RowMajor.irrefl _, taken_concat.mpr (.inr hcovers)⟩

/-- The pass over the items with an automatic row. -/
theorem placeAutomatic_pass {dense : Bool} {width : Nat} {state : (Nat × Nat) × Placing τ}
    (h : Automatic auto requests columns rows dense width state entries)
    (hrequired : ∀ request ∈ requests, request.1.start.getD 0 + max request.1.span 1 ≤ width)
    (hbefore : ∀ entry ∈ entries, pass entry.1 ≠ 2) :
    ∃ state' more, requests.zipIdx.foldlM (placeAutomatic auto dense) state = some state' ∧
      Automatic auto requests columns rows dense width state' (entries ++ more) ∧
      more.map Prod.fst = requests.zipIdx.filter (pass · = 2) := by
  refine @foldlM_visits Item Entry ((Nat × Nat) × Placing τ) _ (fun item => pass item = 2) _
    (Automatic auto requests columns rows dense width) (fun state item hskip => ?_) requests.zipIdx
    (fun state made item hinv hitem hvisit hnew => ?_) requests.zipIdx
    ((List.nodup_zipIdx_map_snd requests).of_map _) (fun _ hm => hm) _ _ h
    fun item _ hvisit hmem => ?_
  · exact placeAutomatic_skip dense state (of_decide_eq_false hskip)
  · refine placeAutomatic_spec hinv hitem (of_decide_eq_true hvisit) hnew (hrequired _ ?_)
    exact List.mem_of_getElem? (List.mem_zipIdx_iff_getElem?.mp hitem)
  · obtain ⟨entry, hentry, rfl⟩ := List.mem_map.mp hmem
    exact hbefore entry hentry (of_decide_eq_true hvisit)

end

end Omoikane.Layout
