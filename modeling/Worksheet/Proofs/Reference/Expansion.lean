import Mathlib
import Worksheet.Reference.Range

/-!
# Expansion of ranges

A range is expanded into the cells that it covers and the grid has, row by row and from left to
right. That order is strict, so the expansion is settled by which cells are in it. It is found as
well by a walk over the rectangle alone, which ends at the last row of the grid and in each row at
the row's last cell; an open end therefore costs nothing, and where the range begins behind the end
or ends in front of its beginning there is nothing to walk.
-/

set_option autoImplicit false

namespace Worksheet

/-- One cell stands in front of another, row by row and from left to right. -/
def Cell.Before (first second : Cell) : Prop :=
  first.row < second.row ∨ first.row = second.row ∧ first.column < second.column

instance : Std.Irrefl Cell.Before where
  irrefl cell before := by
    unfold Cell.Before at before
    omega

instance : Std.Antisymm Cell.Before where
  antisymm first second before after := by
    unfold Cell.Before at before after
    omega

def EntryBefore (first second : Cell × Value) : Prop :=
  first.1.Before second.1

instance : Std.Irrefl EntryBefore where
  irrefl entry before := irrefl entry.1 before

instance : Std.Antisymm EntryBefore where
  antisymm first second before after := by
    unfold EntryBefore Cell.Before at before after
    omega

theorem pairwise_zipIdx {α : Type} (list : List α) :
    list.zipIdx.Pairwise fun first second => first.2 < second.2 := by
  have indices : (list.zipIdx.map Prod.snd).Pairwise (· < ·) := by
    rw [List.zipIdx_map_snd]
    exact List.pairwise_lt_range' 1
  exact List.pairwise_map.mp indices

namespace Grid

variable {grid : Grid} {cell : Cell}

theorem pairwise_entries (grid : Grid) : grid.entries.Pairwise EntryBefore := by
  refine List.pairwise_flatMap.mpr ⟨fun row _ => ?_, ?_⟩
  · exact List.pairwise_map.mpr ((pairwise_zipIdx row.1).imp fun less => .inr ⟨rfl, less⟩)
  · refine (pairwise_zipIdx grid.rows).imp fun {upper lower} less => ?_
    intro first inUpper second inLower
    obtain ⟨_, _, rfl⟩ := List.mem_map.mp inUpper
    obtain ⟨_, _, rfl⟩ := List.mem_map.mp inLower
    exact .inl less

theorem mem_entries {value : Value} :
    (cell, value) ∈ grid.entries ↔ grid.get? cell = some value := by
  unfold entries get?
  simp only [List.mem_flatMap, List.mem_map, List.mem_zipIdx_iff_getElem?, Prod.exists,
    Option.bind_eq_some_iff, Prod.mk.injEq]
  constructor
  · rintro ⟨row, _, rowHere, _, _, valueHere, rfl, rfl⟩
    exact ⟨row, rowHere, valueHere⟩
  · rintro ⟨row, rowHere, valueHere⟩
    exact ⟨row, cell.row, rowHere, value, cell.column, valueHere, rfl, rfl⟩

def width (grid : Grid) (row : Nat) : Nat :=
  (grid.rows[row]?.getD []).length

theorem exists_get?_iff :
    (∃ value, grid.get? cell = some value) ↔
      cell.row < grid.rowCount ∧ cell.column < grid.width cell.row := by
  unfold get? rowCount width
  constructor
  · intro ⟨value, present⟩
    obtain ⟨row, rowHere, valueHere⟩ := Option.bind_eq_some_iff.mp present
    obtain ⟨below, _⟩ := List.getElem?_eq_some_iff.mp rowHere
    obtain ⟨inside, _⟩ := List.getElem?_eq_some_iff.mp valueHere
    rw [rowHere]
    exact ⟨below, inside⟩
  · intro ⟨below, inside⟩
    have rowHere := List.getElem?_eq_getElem below
    rw [rowHere] at inside ⊢
    exact ⟨_, List.getElem?_eq_getElem inside⟩

end Grid

def inclusive (first last : Nat) : List Nat :=
  List.range' first (last + 1 - first)

theorem mem_inclusive {first last number : Nat} :
    number ∈ inclusive first last ↔ first ≤ number ∧ number ≤ last := by
  rw [inclusive, List.mem_range'_1]
  omega

theorem pairwise_inclusive (first last : Nat) : (inclusive first last).Pairwise (· < ·) :=
  List.pairwise_lt_range' 1

namespace Range

variable {range : Range} {grid : Grid} {cell : Cell}

def walkRow (range : Range) (row width : Nat) : List Cell :=
  match width with
  | 0 => []
  | lastColumn + 1 =>
      (inclusive range.first.column (min range.last.column lastColumn)).map (⟨·, row⟩)

/-- The cells of a range, with the ends that lie outside the grid drawn in. -/
def walk (range : Range) (grid : Grid) : List Cell :=
  match grid.rowCount with
  | 0 => []
  | lastRow + 1 =>
      (inclusive range.first.row (min range.last.row lastRow)).flatMap fun row =>
        range.walkRow row (grid.width row)

theorem mem_walkRow {row width : Nat} :
    cell ∈ range.walkRow row width ↔
      cell.row = row ∧ range.first.column ≤ cell.column ∧ cell.column ≤ range.last.column ∧
        cell.column < width := by
  cases width with
  | zero => simp [walkRow]
  | succ lastColumn =>
      simp only [walkRow, List.mem_map, mem_inclusive]
      constructor
      · rintro ⟨column, bounds, rfl⟩
        refine ⟨rfl, ?_⟩
        dsimp only
        omega
      · intro ⟨inRow, bounds⟩
        refine ⟨cell.column, by omega, ?_⟩
        rw [← inRow]

theorem mem_walk :
    cell ∈ range.walk grid ↔
      (range.first.row ≤ cell.row ∧ cell.row ≤ range.last.row) ∧
        (range.first.column ≤ cell.column ∧ cell.column ≤ range.last.column) ∧
          cell.row < grid.rowCount ∧ cell.column < grid.width cell.row := by
  unfold walk
  cases grid.rowCount with
  | zero => simp
  | succ lastRow =>
      simp only [List.mem_flatMap, mem_inclusive, mem_walkRow]
      constructor
      · rintro ⟨row, rows, rfl, columns⟩
        omega
      · intro bounds
        exact ⟨cell.row, by omega⟩

theorem pairwise_walkRow (range : Range) (row width : Nat) :
    (range.walkRow row width).Pairwise Cell.Before := by
  cases width with
  | zero => exact .nil
  | succ lastColumn =>
      exact List.pairwise_map.mpr ((pairwise_inclusive _ _).imp fun less => .inr ⟨rfl, less⟩)

theorem pairwise_walk (range : Range) (grid : Grid) :
    (range.walk grid).Pairwise Cell.Before := by
  unfold walk
  cases grid.rowCount with
  | zero => exact .nil
  | succ lastRow =>
      refine List.pairwise_flatMap.mpr ⟨fun row _ => pairwise_walkRow range row _, ?_⟩
      refine (pairwise_inclusive _ _).imp fun {upper lower} less => ?_
      intro first inUpper second inLower
      left
      rw [(mem_walkRow.mp inUpper).1, (mem_walkRow.mp inLower).1]
      exact less

theorem covers_iff :
    range.covers cell = true ↔
      (range.first.row ≤ cell.row ∧ cell.row ≤ range.last.row) ∧
        range.first.column ≤ cell.column ∧ cell.column ≤ range.last.column := by
  unfold covers
  simp only [Bool.and_eq_true, decide_eq_true_eq]
  omega

theorem mem_entries {value : Value} :
    (cell, value) ∈ range.entries grid ↔
      grid.get? cell = some value ∧ range.covers cell = true := by
  rw [entries, List.mem_filter, Grid.mem_entries]

theorem pairwise_entries (range : Range) (grid : Grid) :
    (range.entries grid).Pairwise EntryBefore :=
  grid.pairwise_entries.filter _

theorem mem_cells :
    cell ∈ range.cells grid ↔
      range.covers cell = true ∧ ∃ value, grid.get? cell = some value := by
  unfold cells
  simp only [List.mem_map, Prod.exists, mem_entries]
  constructor
  · rintro ⟨_, value, ⟨present, covered⟩, rfl⟩
    exact ⟨covered, value, present⟩
  · intro ⟨covered, value, present⟩
    exact ⟨cell, value, ⟨present, covered⟩, rfl⟩

theorem pairwise_cells (range : Range) (grid : Grid) :
    (range.cells grid).Pairwise Cell.Before :=
  List.pairwise_map.mpr (range.pairwise_entries grid)

theorem cells_eq_walk (range : Range) (grid : Grid) : range.cells grid = range.walk grid := by
  refine (range.pairwise_cells grid).eq_of_mem_iff (range.pairwise_walk grid) fun cell => ?_
  rw [mem_cells, mem_walk, covers_iff, Grid.exists_get?_iff, and_assoc]

theorem map_values (range : Range) (grid : Grid) :
    (range.values grid).map some = (range.cells grid).map grid.get? := by
  unfold values cells
  rw [List.map_map, List.map_map]
  refine List.map_congr_left fun (cell, value) member => ?_
  exact (mem_entries.mp member).1.symm

theorem numbers_eq (range : Range) (grid : Grid) :
    range.numbers grid =
      (range.cells grid).filterMap fun cell => (grid.get? cell).bind Value.cellNumber? := by
  have read : (range.values grid).filterMap Value.cellNumber? =
      ((range.values grid).map some).filterMap fun value => value.bind Value.cellNumber? := by
    rw [List.filterMap_map]
    rfl
  rw [numbers, read, map_values, List.filterMap_map]
  rfl

/-- A range is expanded into exactly the present cells between its bounds, each once, row by row and
from left to right. Its values are the values of these cells, one for each, and its numbers are the
numbers among them; and the cells are those that the walk finds. -/
theorem expansion_exact (range : Range) (grid : Grid) :
    (∀ cell, cell ∈ range.cells grid ↔
      (range.first.row ≤ cell.row ∧ cell.row ≤ range.last.row) ∧
        (range.first.column ≤ cell.column ∧ cell.column ≤ range.last.column) ∧
          cell.row < grid.rowCount ∧ cell.column < grid.width cell.row) ∧
    (range.cells grid).Nodup ∧
    (range.cells grid).Pairwise Cell.Before ∧
    range.cells grid = range.walk grid ∧
    (range.values grid).map some = (range.cells grid).map grid.get? ∧
    (range.values grid).length = (range.cells grid).length ∧
    range.numbers grid = (range.values grid).filterMap Value.cellNumber? ∧
    range.numbers grid =
      (range.cells grid).filterMap fun cell => (grid.get? cell).bind Value.cellNumber? := by
  have walked := range.cells_eq_walk grid
  refine ⟨fun cell => ?_, ?_, range.pairwise_cells grid, walked, range.map_values grid, ?_, rfl,
    range.numbers_eq grid⟩
  · rw [walked]
    exact mem_walk
  · exact (range.pairwise_cells grid).nodup
  · rw [values, cells, List.length_map, List.length_map]

/-- Columns without an end in a grid whose rows differ in length. -/
example :
    (columns 2 1).cells ⟨[[.text [], .text [], .text []], [], [.text [], .text []], [.text []]]⟩ =
      [⟨1, 0⟩, ⟨2, 0⟩, ⟨1, 2⟩] := by
  rfl

end Range

end Worksheet
