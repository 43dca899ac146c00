import Mathlib.Algebra.BigOperators.Group.Finset.Basic
import SdkLoom.Go.Columns

/-!
# Where the cells of aligned rows stand

Cells are padded to the width of their column, save the last of each row, and rows need not have the same number of cells.
A cell counts for the width of its column even where it is the last of its row and takes no padding, so no cell runs over
the start of the next column. By induction along a row every cell starts where its column does, whatever stands before the
row (`laid_rowText`), and so it does in all lines (`columns_aligned`).
-/

namespace SdkLoom.Go

/-! ## Widths -/

/-- The width of a column: no cell of it is wider, and if it has cells, one of them is as wide. -/
structure IsColumnWidth (rows : List (List String)) (j width : Nat) : Prop where
  bound : ∀ row ∈ rows, ∀ cell, row[j]? = some cell → cell.length ≤ width
  attained : (∃ row ∈ rows, j < row.length) → ∃ row ∈ rows, ∃ cell, row[j]? = some cell ∧ cell.length = width

theorem isColumnWidth_columnWidth (rows : List (List String)) (j : Nat) :
    IsColumnWidth rows j (columnWidth rows j) := by
  have hmem : ∀ n, n ∈ (rows.filterMap fun row => (row[j]?).map String.length) ↔
      ∃ row ∈ rows, ∃ cell, row[j]? = some cell ∧ cell.length = n := by
    intro n
    simp only [List.mem_filterMap, Option.map_eq_some_iff]
  have hmax : (0 :: rows.filterMap fun row => (row[j]?).map String.length).max? = some (columnWidth rows j) :=
    List.max?_cons'
  obtain ⟨hgreatest, hbound⟩ := List.max?_eq_some_iff.1 hmax
  have hcell : ∀ row ∈ rows, ∀ cell, row[j]? = some cell → cell.length ≤ columnWidth rows j :=
    fun row hrow cell hcell => hbound _ (List.mem_cons_of_mem _ ((hmem _).2 ⟨row, hrow, cell, hcell, rfl⟩))
  refine ⟨hcell, fun ⟨row, hrow, hj⟩ => ?_⟩
  rcases List.mem_cons.1 hgreatest with hzero | hattained
  · -- only empty cells: each of them is as wide
    have hempty := hcell row hrow _ (List.getElem?_eq_getElem hj)
    exact ⟨row, hrow, _, List.getElem?_eq_getElem hj, by omega⟩
  · exact (hmem _).1 hattained

/-! ## Rows -/

/-- The place in its line at which the cells of a column start: after the tab and after all columns before it, each with the
space that ends it. -/
def columnStart (width : Nat → Nat) (k : Nat) : Nat := 1 + ∑ j ∈ Finset.range k, (width j + 1)

theorem columnStart_succ (width : Nat → Nat) (k : Nat) :
    columnStart width (k + 1) = columnStart width k + width k + 1 := by
  rw [columnStart, columnStart, Finset.sum_range_succ]
  omega

/-- A line that has the cells of a row at given places. Between two cells stand spaces and nothing else, one at least; after
the last cell the line ends, and a row without cells ends at the first place. -/
structure Laid (start : Nat → Nat) (row : List String) (line : List Char) : Prop where
  cells : ∀ k cell, row[k]? = some cell → cell.toList <+: line.drop (start k)
  gaps : ∀ k cell, row[k]? = some cell → k + 1 < row.length → ∃ gap,
    start (k + 1) = start k + cell.length + (gap + 1) ∧
      List.replicate (gap + 1) ' ' <+: line.drop (start k + cell.length)
  ending : ∀ k cell, row[k]? = some cell → k + 1 = row.length → line.drop (start k + cell.length) = ['\n']
  blank : row = [] → line.drop (start 0) = ['\n']

theorem laid_nil {start : Nat → Nat} {line : List Char} (h : line.drop (start 0) = ['\n']) : Laid start [] line where
  cells k cell hcell := by cases hcell
  gaps k cell hcell := by cases hcell
  ending k cell hcell := by cases hcell
  blank _ := h

theorem laid_singleton {start : Nat → Nat} {cell : String} {line : List Char}
    (h : line.drop (start 0) = cell.toList ++ ['\n']) : Laid start [cell] line := by
  have honly : ∀ {k other}, [cell][k]? = some other → k = 0 ∧ other = cell := by
    intro k other hother
    cases k with
    | zero => exact ⟨rfl, (Option.some.inj hother).symm⟩
    | succ k => cases hother
  refine ⟨?_, ?_, ?_, ?_⟩
  · intro k other hother
    obtain ⟨rfl, rfl⟩ := honly hother
    rw [h]
    exact List.prefix_append _ _
  · intro k other _ hlast
    cases Nat.not_lt_zero _ (Nat.lt_of_succ_lt_succ hlast)
  · intro k other hother _
    obtain ⟨rfl, rfl⟩ := honly hother
    rw [← List.drop_drop, h, ← String.length_toList, List.drop_left]
  · intro hnil
    cases hnil

/-- A cell before others, with the spaces up to the next one. -/
theorem Laid.cons {start : Nat → Nat} {cell next : String} {rest : List String} {line : List Char} (gap : Nat)
    (hcell : cell.toList ++ List.replicate (gap + 1) ' ' <+: line.drop (start 0))
    (hnext : start 1 = start 0 + cell.length + (gap + 1)) (h : Laid (fun k => start (k + 1)) (next :: rest) line) :
    Laid start (cell :: next :: rest) line where
  cells k other hother := by
    cases k with
    | zero =>
      cases hother
      exact (List.prefix_append _ _).trans hcell
    | succ k => exact h.cells k other hother
  gaps k other hother hlast := by
    cases k with
    | zero =>
      cases hother
      obtain ⟨tail, htail⟩ := hcell
      refine ⟨gap, hnext, tail, ?_⟩
      rw [← List.drop_drop, ← htail, ← String.length_toList, List.append_assoc, List.drop_left]
    | succ k => exact h.gaps k other hother (Nat.lt_of_succ_lt_succ hlast)
  ending k other hother hlast := by
    cases k with
    | zero => cases Nat.succ.inj hlast
    | succ k => exact h.ending k other hother (Nat.succ.inj hlast)
  blank hnil := by cases hnil

/-- A padded cell and the space after it. -/
theorem toList_padCell_space (cell : String) (width : Nat) :
    (padCell cell width ++ " ").toList = cell.toList ++ List.replicate (width - cell.length + 1) ' ' := by
  rw [padCell, String.append_assoc, String.toList_append, String.toList_append, String.toList_ofList, List.replicate_succ']
  rfl

/-- What a row is written as holds its cells where their columns start, whatever fills the line up to its first cell. -/
theorem laid_rowText (rows : List (List String)) (k : Nat) (cells : List String) (front : List Char)
    (hfront : front.length = columnStart (columnWidth rows) k)
    (hcells : ∀ i cell, cells[i]? = some cell → cell.length ≤ columnWidth rows (k + i)) :
    Laid (fun i => columnStart (columnWidth rows) (k + i)) cells (front ++ ((rowText rows k cells).toList ++ ['\n'])) := by
  induction cells generalizing k front with
  | nil =>
    refine laid_nil ?_
    rw [Nat.add_zero, ← hfront, List.drop_left]
    rfl
  | cons cell rest ih =>
    have hhere : columnStart (columnWidth rows) (k + 0) = front.length := hfront.symm
    cases rest with
    | nil =>
      refine laid_singleton ?_
      rw [hhere, List.drop_left]
      rfl
    | cons next rest =>
      have hcell : cell.length ≤ columnWidth rows k := hcells 0 cell rfl
      have hsucc := columnStart_succ (columnWidth rows) k
      have htext : (rowText rows k (cell :: next :: rest)).toList =
          (padCell cell (columnWidth rows k) ++ " ").toList ++ (rowText rows (k + 1) (next :: rest)).toList :=
        String.toList_append
      -- the cell with its padding and a space fills the line up to the next column
      have hlength : (front ++ (padCell cell (columnWidth rows k) ++ " ").toList).length =
          columnStart (columnWidth rows) (k + 1) := by
        rw [toList_padCell_space, List.length_append, List.length_append, List.length_replicate, String.length_toList,
          hfront]
        omega
      have hshift : ∀ i, k + 1 + i = k + (i + 1) := by omega
      have hlaid := ih _ _ hlength fun i other hother => hshift i ▸ hcells (i + 1) other hother
      simp only [hshift, List.append_assoc] at hlaid
      rw [htext, List.append_assoc]
      refine hlaid.cons (columnWidth rows k - cell.length) ?_ ?_
      · rw [hhere, List.drop_left, toList_padCell_space]
        exact List.prefix_append _ _
      · rw [hhere]
        omega

/-! ## Lines -/

/-- Texts that are appended one after the other are appended as one. -/
theorem foldl_append_eq (lines : List String) (out : String) : lines.foldl (· ++ ·) out = out ++ String.join lines := by
  induction lines generalizing out with
  | nil => exact String.append_empty.symm
  | cons line lines ih => rw [List.foldl_cons, ih, String.join_cons, String.append_assoc]

/-- Rows are appended to a text as one line for each of them, in order. Every line starts with a tab, and the cells of a
column start at one place in all lines that have one: after the tab, the width of each column before it and a space for each
of these. Between cells stand only spaces, at least one, and nothing follows the last cell of a row. -/
theorem columns_aligned (out : String) (rows : List (List String)) :
    ∃ (width : Nat → Nat) (lines : List String),
      (∀ j, IsColumnWidth rows j (width j)) ∧
      out ++ columns rows = lines.foldl (· ++ ·) out ∧
      List.Forall₂ (fun row line => line.toList.head? = some '\t' ∧ Laid (columnStart width) row line.toList)
        rows lines := by
  refine ⟨columnWidth rows, rows.map fun row => "\t" ++ rowText rows 0 row ++ "\n",
    isColumnWidth_columnWidth rows, ?_, ?_⟩
  · exact (foldl_append_eq _ out).symm
  · refine List.forall₂_map_right_iff.2 (List.forall₂_same.2 fun row hrow => ?_)
    have htext : ("\t" ++ rowText rows 0 row ++ "\n").toList = ['\t'] ++ ((rowText rows 0 row).toList ++ ['\n']) := by
      rw [String.append_assoc, String.toList_append, String.toList_append]
      rfl
    have hlaid := laid_rowText rows 0 row ['\t'] rfl fun i cell hcell => by
      rw [Nat.zero_add]
      exact (isColumnWidth_columnWidth rows i).bound row hrow cell hcell
    simp only [Nat.zero_add] at hlaid
    rw [htext]
    exact ⟨rfl, hlaid⟩

/-- The widest name is the last cell of its row. -/
example : columns [["ID", "string"], ["CreatedAt"], ["N", "int", "tag"]] =
    "\tID        string\n\tCreatedAt\n\tN         int    tag\n" := by decide

end SdkLoom.Go
