import Omoikane.Layout.GridOccupancy

/-!
# The searches

The search along a row ends at a free area (`findColumn_spec`).  The search from a cursor ends at the
first free area, in row-major order, of those it may take (`findCell_spec`).  Neither reaches its
bound: an area beyond all cells that are taken is free.
-/

namespace Omoikane.Layout

/-- A position, its row first, comes before another one. -/
def RowMajor (a b : Nat × Nat) : Prop := a.1 < b.1 ∨ a.1 = b.1 ∧ a.2 < b.2

theorem RowMajor.trans {a b c : Nat × Nat} (h : RowMajor a b) (h' : RowMajor b c) :
    RowMajor a c := by
  unfold RowMajor at *
  omega

theorem RowMajor.irrefl (a : Nat × Nat) : ¬ RowMajor a a := by
  unfold RowMajor
  omega

/-- No cell of an area is taken. -/
def Free (taken : Nat → Nat → Prop) (placement : Placement) : Prop :=
  ∀ row column, placement.Covers row column → ¬ taken row column

section

variable {τ : Type} {auto : τ} {tracks tracks' tracks'' : List τ}

/-- Tracks were made after the last one. -/
def Extends (auto : τ) (tracks tracks' : List τ) : Prop :=
  ∃ made, tracks' = tracks ++ List.replicate made auto

theorem Extends.refl (tracks : List τ) : Extends auto tracks tracks :=
  ⟨0, (List.append_nil tracks).symm⟩

theorem Extends.trans (h : Extends auto tracks tracks') (h' : Extends auto tracks' tracks'') :
    Extends auto tracks tracks'' := by
  obtain ⟨made, rfl⟩ := h
  obtain ⟨made', rfl⟩ := h'
  exact ⟨made + made', by rw [List.append_assoc, List.replicate_append_replicate]⟩

theorem Extends.length_le (h : Extends auto tracks tracks') : tracks.length ≤ tracks'.length := by
  obtain ⟨made, rfl⟩ := h
  rw [List.length_append]
  exact Nat.le_add_right ..

theorem extends_resize (tracks : List τ) (length : Nat) :
    Extends auto tracks (resize tracks (max tracks.length length) auto) :=
  ⟨_, resize_of_le (Nat.le_max_left ..) auto⟩

end

variable {τ : Type} {auto : τ} {occupied : List (List Bool)} {width : Nat}
  {taken : Nat → Nat → Prop}

/-- One turn of the loop over the columns of a row, in a table with these columns. -/
theorem findColumn_step (htable : Table occupied width taken) {columns : List τ}
    (hwidth : width ≤ columns.length) (row columnSpan rowSpan limit column : Nat) :
    ∃ columns' occupied', Extends auto columns columns' ∧ Table occupied' columns'.length taken ∧
      column + columnSpan ≤ columns'.length ∧
      ((Free taken ⟨column, row, columnSpan, rowSpan⟩ ∧
          findColumn auto row columnSpan rowSpan (limit + 1) column columns occupied =
            some (column, columns', occupied')) ∨
        (¬ Free taken ⟨column, row, columnSpan, rowSpan⟩ ∧
          findColumn auto row columnSpan rowSpan (limit + 1) column columns occupied =
            findColumn auto row columnSpan rowSpan limit (column + 1) columns' occupied')) := by
  have hextends : Extends auto columns
      (resize columns (max columns.length (column + columnSpan)) auto) := extends_resize ..
  have hlength := length_resize columns (max columns.length (column + columnSpan)) auto
  obtain ⟨htable', hheight⟩ := htable.ensureOccupancy
    (Nat.le_trans hwidth hextends.length_le) (row + rowSpan)
  have hfits : column + columnSpan ≤
      (resize columns (max columns.length (column + columnSpan)) auto).length := by
    rw [hlength]
    exact Nat.le_max_right ..
  obtain ⟨free, hfree, hiff⟩ := @Table.areaIsFree _ _ _ htable' column row columnSpan rowSpan
    (by rw [hheight]; exact Nat.le_max_right ..) hfits
  refine ⟨_, _, hextends, htable', hfits, ?_⟩
  rw [findColumn]
  simp only [Option.bind_eq_bind, hfree, Option.bind_some]
  cases free with
  | true => exact .inl ⟨hiff.mp rfl, rfl⟩
  | false => exact .inr ⟨fun h => Bool.false_ne_true (hiff.mpr h), rfl⟩

/-- The loop over the columns of a row finds a free area. -/
theorem findColumn_spec {row columnSpan rowSpan bound : Nat}
    (hbound : ∀ r c, taken r c → c < bound) (limit : Nat) :
    ∀ {column : Nat} {columns : List τ} {occupied : List (List Bool)} {width : Nat},
      Table occupied width taken → width ≤ columns.length → bound ≤ column + limit →
      ∃ column' columns' occupied', findColumn auto row columnSpan rowSpan (limit + 1) column
          columns occupied = some (column', columns', occupied') ∧
        Extends auto columns columns' ∧ Table occupied' columns'.length taken ∧
        column' + columnSpan ≤ columns'.length ∧
        Free taken ⟨column', row, columnSpan, rowSpan⟩ := by
  induction limit with
  | zero =>
    intro column columns occupied width htable hwidth hlimit
    obtain ⟨columns', occupied', hextends, htable', hfits, ⟨hfree, heq⟩ | ⟨htaken, -⟩⟩ :=
      findColumn_step htable hwidth row columnSpan rowSpan 0 column
    · exact ⟨column, columns', occupied', heq, hextends, htable', hfits, hfree⟩
    · refine (htaken fun r c hcovers hcell => ?_).elim
      have hlt := hbound r c hcell
      have hge := hcovers.2.2.1
      dsimp only at hge
      omega
  | succ limit ih =>
    intro column columns occupied width htable hwidth hlimit
    obtain ⟨columns', occupied', hextends, htable', hfits, ⟨hfree, heq⟩ | ⟨-, heq⟩⟩ :=
      findColumn_step htable hwidth row columnSpan rowSpan (limit + 1) column
    · exact ⟨column, columns', occupied', heq, hextends, htable', hfits, hfree⟩
    · obtain ⟨column', columns'', occupied'', hrest, hextends', htable'', hfits', hfree⟩ :=
        @ih (column + 1) _ _ _ htable' (Nat.le_refl _) (by omega)
      exact ⟨column', columns'', occupied'', heq.trans hrest, hextends.trans hextends',
        htable'', hfits', hfree⟩

/-- The positions that a search from a cursor may take: in its column if that is definite, in the
columns there are, and not before the cursor. -/
structure Candidate (width columnSpan : Nat) (definite : Bool) (column row : Nat)
    (position : Nat × Nat) : Prop where
  column_eq : definite = true → position.2 = column
  fits : position.2 + columnSpan ≤ width
  not_before : ¬ RowMajor position (row, column)

/-- The first free position of those that a search from a cursor may take. -/
structure FirstFit (taken : Nat → Nat → Prop) (width columnSpan rowSpan : Nat) (definite : Bool)
    (column row : Nat) (position : Nat × Nat) : Prop where
  candidate : Candidate width columnSpan definite column row position
  free : Free taken ⟨position.2, position.1, columnSpan, rowSpan⟩
  first : ∀ earlier, Candidate width columnSpan definite column row earlier →
    RowMajor earlier position → ¬ Free taken ⟨earlier.2, earlier.1, columnSpan, rowSpan⟩

/-- After a position that is not free and that no other may be taken before, the search goes on from
a cursor that skips no position. -/
theorem FirstFit.resume {columnSpan rowSpan column row nextColumn nextRow : Nat} {definite : Bool}
    {looked position : Nat × Nat}
    (h : FirstFit taken width columnSpan rowSpan definite nextColumn nextRow position)
    (hlooked : Candidate width columnSpan definite column row looked)
    (htaken : ¬ Free taken ⟨looked.2, looked.1, columnSpan, rowSpan⟩)
    (hfirst : ∀ other, Candidate width columnSpan definite column row other →
      other = looked ∨ RowMajor looked other)
    (hcolumn : definite = true → nextColumn = looked.2)
    (hnext : ¬ RowMajor (nextRow, nextColumn) looked)
    (hskips : ∀ other, Candidate width columnSpan definite column row other →
      RowMajor looked other → ¬ RowMajor other (nextRow, nextColumn)) :
    FirstFit taken width columnSpan rowSpan definite column row position where
  candidate := by
    refine ⟨fun hd => ?_, h.candidate.fits, ?_⟩
    · exact (h.candidate.column_eq hd).trans ((hcolumn hd).trans (hlooked.column_eq hd))
    · have hnot := h.candidate.not_before
      have hnot' := hlooked.not_before
      unfold RowMajor at hnot hnot' hnext ⊢
      dsimp only at hnot hnot' hnext ⊢
      omega
  free := h.free
  first other hother hbefore := by
    rcases hfirst other hother with rfl | hafter
    · exact htaken
    · refine h.first other ⟨fun hd => ?_, hother.fits, hskips other hother hafter⟩ hbefore
      exact (hother.column_eq hd).trans ((hlooked.column_eq hd).symm.trans (hcolumn hd).symm)

/-- One turn of the search from a cursor: it looks at the first position it may take, and goes on
from the next. -/
theorem findCell_step {tableWidth : Nat} (htable : Table occupied tableWidth taken)
    (htableWidth : tableWidth ≤ width) {columnSpan column : Nat} {definite : Bool}
    (row rowSpan : Nat) (hspan : columnSpan ≤ width)
    (hdefinite : definite = true → column + columnSpan ≤ width) (limit : Nat) :
    ∃ column' row' occupied', Table occupied' width taken ∧
      Candidate width columnSpan definite column row (row', column') ∧
      (width < column + columnSpan → column' = 0 ∧ row' = row + 1) ∧
      (column + columnSpan ≤ width → column' = column ∧ row' = row) ∧
      ((Free taken ⟨column', row', columnSpan, rowSpan⟩ ∧
          findCell width columnSpan rowSpan definite (limit + 1) column row occupied =
            some (column', row', occupied')) ∨
        (¬ Free taken ⟨column', row', columnSpan, rowSpan⟩ ∧
          findCell width columnSpan rowSpan definite (limit + 1) column row occupied =
            if definite then
              findCell width columnSpan rowSpan definite limit column' (row' + 1) occupied'
            else findCell width columnSpan rowSpan definite limit (column' + 1) row' occupied')) := by
  obtain ⟨column', row', hnext, hcandidate, hwrap, hstay⟩ : ∃ column' row',
      (if width < column + columnSpan then (0, row + 1) else (column, row)) = (column', row') ∧
      Candidate width columnSpan definite column row (row', column') ∧
      (width < column + columnSpan → column' = 0 ∧ row' = row + 1) ∧
      (column + columnSpan ≤ width → column' = column ∧ row' = row) := by
    by_cases hfits : width < column + columnSpan
    · refine ⟨0, row + 1, if_pos hfits, ⟨fun hd => ?_, ?_, ?_⟩, fun _ => ⟨rfl, rfl⟩,
        fun hle => absurd hfits (Nat.not_lt.mpr hle)⟩
      · exact absurd hfits (Nat.not_lt.mpr (hdefinite hd))
      · rw [Nat.zero_add]
        exact hspan
      · unfold RowMajor
        dsimp only
        omega
    · refine ⟨column, row, if_neg hfits, ⟨fun _ => rfl, Nat.not_lt.mp hfits, ?_⟩,
        fun hlt => absurd hlt hfits, fun _ => ⟨rfl, rfl⟩⟩
      unfold RowMajor
      dsimp only
      omega
  obtain ⟨htable', hheight⟩ := htable.ensureOccupancy htableWidth (row' + rowSpan)
  obtain ⟨free, hfree, hiff⟩ := @Table.areaIsFree _ _ _ htable' column' row' columnSpan rowSpan
    (by rw [hheight]; exact Nat.le_max_right ..) hcandidate.fits
  refine ⟨column', row', _, htable', hcandidate, hwrap, hstay, ?_⟩
  rw [findCell, hnext]
  simp only [Option.bind_eq_bind, hfree, Option.bind_some]
  cases free with
  | true => exact .inl ⟨hiff.mp rfl, rfl⟩
  | false => exact .inr ⟨fun h => Bool.false_ne_true (hiff.mpr h), rfl⟩

/-- The search from a cursor ends at the first free position of those it may take. -/
theorem findCell_spec {columnSpan rowSpan height : Nat} {definite : Bool}
    (hheight : ∀ r c, taken r c → r < height) (hspan : columnSpan ≤ width)
    (hpositive : 0 < columnSpan) (limit : Nat) :
    ∀ {column row : Nat} {occupied : List (List Bool)} {tableWidth : Nat},
      Table occupied tableWidth taken → tableWidth ≤ width → column ≤ width →
      (definite = true → column + columnSpan ≤ width) →
      (height - row) * (width + 1) + (width + 1 - column) ≤ limit →
      ∃ column' row' occupied', findCell width columnSpan rowSpan definite (limit + 1) column row
          occupied = some (column', row', occupied') ∧
        Table occupied' width taken ∧
        FirstFit taken width columnSpan rowSpan definite column row (row', column') := by
  induction limit with
  | zero =>
    intro column row occupied tableWidth _ _ hcolumn _ hlimit
    omega
  | succ limit ih =>
    intro column row occupied tableWidth htable htableWidth hcolumn hdefinite hlimit
    obtain ⟨column', row', occupied', htable', hcandidate, hwrap, hstay, hcase⟩ :=
      findCell_step htable htableWidth row rowSpan hspan hdefinite (limit + 1)
    have hfirst : ∀ position, Candidate width columnSpan definite column row position →
        position = (row', column') ∨ RowMajor (row', column') position := by
      rintro ⟨r, c⟩ ⟨-, hfits, hbefore⟩
      unfold RowMajor at hbefore ⊢
      dsimp only at hfits hbefore ⊢
      rw [Prod.mk.injEq]
      by_cases hlt : width < column + columnSpan
      · have := hwrap hlt
        omega
      · have := hstay (Nat.not_lt.mp hlt)
        omega
    rcases hcase with ⟨hfree, heq⟩ | ⟨htaken, heq⟩
    · refine ⟨column', row', occupied', heq, htable', hcandidate, hfree,
        fun position hposition hbefore => ?_⟩
      rcases hfirst position hposition with rfl | hafter
      · exact (RowMajor.irrefl _ hbefore).elim
      · exact (RowMajor.irrefl _ (hbefore.trans hafter)).elim
    · -- an area below all cells that are taken is free
      have hrow : row' < height := by
        by_contra hge
        refine htaken fun r c hcovers hcell => ?_
        have hlt := hheight r c hcell
        have hle := hcovers.1
        dsimp only at hle
        omega
      have hfits := hcandidate.fits
      dsimp only at hfits
      obtain ⟨above, habove⟩ : ∃ above, height - row = above + 1 := by
        have : row ≤ row' := by
          by_cases hlt : width < column + columnSpan
          · have := hwrap hlt
            omega
          · have := hstay (Nat.not_lt.mp hlt)
            omega
        exact ⟨height - row - 1, by omega⟩
      rw [habove, Nat.succ_mul] at hlimit
      cases definite with
      | true =>
        have hcolumn' : column' = column := hcandidate.column_eq rfl
        have hrow' : row' = row := (hstay (hdefinite rfl)).2
        obtain ⟨column'', row'', occupied'', hfound, htable'', hfit⟩ :=
          @ih column' (row' + 1) occupied' width htable' (Nat.le_refl width) (by omega)
            (fun _ => hfits) (by
            rw [hrow', hcolumn', show height - (row + 1) = above by omega]
            omega)
        refine ⟨column'', row'', occupied'', heq.trans hfound, htable'',
          hfit.resume hcandidate htaken hfirst (fun _ => rfl) ?_ fun other hother hafter => ?_⟩
        · unfold RowMajor
          dsimp only
          omega
        · have hsame := hother.column_eq rfl
          unfold RowMajor at hafter ⊢
          dsimp only at hafter ⊢
          omega
      | false =>
        obtain ⟨column'', row'', occupied'', hfound, htable'', hfit⟩ :=
          @ih (column' + 1) row' occupied' width htable' (Nat.le_refl width) (by omega) nofun (by
            by_cases hlt : width < column + columnSpan
            · obtain ⟨hcolumn', hrow'⟩ := hwrap hlt
              rw [hrow', hcolumn', show height - (row + 1) = above by omega]
              omega
            · obtain ⟨hcolumn', hrow'⟩ := hstay (Nat.not_lt.mp hlt)
              rw [hrow', hcolumn', habove, Nat.succ_mul]
              omega)
        refine ⟨column'', row'', occupied'', heq.trans hfound, htable'',
          hfit.resume hcandidate htaken hfirst nofun ?_ fun other hother hafter => ?_⟩
        · unfold RowMajor
          dsimp only
          omega
        · unfold RowMajor at hafter ⊢
          dsimp only at hafter ⊢
          omega

end Omoikane.Layout
