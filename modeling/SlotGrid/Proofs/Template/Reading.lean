import Mathlib
import SlotGrid.Template.Scan

/-! # The order of cells

The cells of a grid are read from left to right and from top to bottom. Each is read once, so a cell that
comes before another in this order is found among those read earlier.
-/

namespace SlotGrid

/-- The name at a place of a grid. -/
def nameAt (rows : List (List Char)) (row column : Nat) : Option Char := rows[row]?.bind (·[column]?)

theorem cell?_eq_nameAt (t : Template) (row column : Nat) :
    t.cell? row column = nameAt (t.rows.map Row.cells) row column := by
  unfold Template.cell? nameAt
  rw [List.getElem?_map, Option.bind_map]
  rfl

namespace Cell

/-- Whether a cell is read before another. -/
def Before (a b : Cell) : Prop := a.row < b.row ∨ a.row = b.row ∧ a.column < b.column

theorem Before.irrefl (a : Cell) : ¬ a.Before a := by
  unfold Before; omega

theorem Before.asymm {a b : Cell} (h : a.Before b) : ¬ b.Before a := by
  unfold Before at *; omega

end Cell

theorem mem_cellsOf {rows : List (List Char)} {c : Cell} :
    c ∈ cellsOf rows ↔ nameAt rows c.row c.column = some c.name := by
  simp only [cellsOf, List.mem_flatMap, List.mem_map, Prod.exists, List.mem_zipIdx_iff_getElem?, nameAt,
    Option.bind_eq_some_iff]
  constructor
  · rintro ⟨cells, row, hr, name, column, hc, rfl⟩
    exact ⟨cells, hr, hc⟩
  · rintro ⟨cells, hr, hc⟩
    exact ⟨cells, c.row, hr, c.name, c.column, hc, rfl⟩

theorem pairwise_zipIdx {α : Type} (xs : List α) : xs.zipIdx.Pairwise fun x y => x.2 < y.2 := by
  have h := List.pairwise_lt_range' (s := 0) (n := xs.length) 1
  rw [← List.zipIdx_map_snd, List.pairwise_map] at h
  exact h

theorem pairwise_before_cellsOf (rows : List (List Char)) : (cellsOf rows).Pairwise Cell.Before := by
  refine List.pairwise_flatMap.mpr ⟨?_, ?_⟩
  · rintro ⟨cells, row⟩ -
    exact List.pairwise_map.mpr ((pairwise_zipIdx cells).imp fun h => .inr ⟨rfl, h⟩)
  · refine (pairwise_zipIdx rows).imp ?_
    rintro ⟨xs, i⟩ ⟨ys, j⟩ hij a ha b hb
    obtain ⟨_, _, rfl⟩ := List.mem_map.mp ha
    obtain ⟨_, _, rfl⟩ := List.mem_map.mp hb
    exact .inl hij

theorem map_name_cellsOf (rows : List (List Char)) : (cellsOf rows).map Cell.name = rows.flatten := by
  conv_rhs => rw [← List.zipIdx_map_fst 0 rows, ← List.flatMap_def]
  rw [cellsOf, List.map_flatMap]
  refine congrArg (List.flatMap · _) (funext fun ⟨cells, row⟩ => ?_)
  rw [List.map_map]
  exact List.zipIdx_map_fst 0 cells

/-- What is read before a cell is what lies before it. -/
theorem mem_left_iff {rows : List (List Char)} {read rest : List Cell} {c : Cell}
    (h : cellsOf rows = read ++ c :: rest) (a : Cell) :
    a ∈ read ↔ nameAt rows a.row a.column = some a.name ∧ a.Before c := by
  have hp := pairwise_before_cellsOf rows
  rw [h, List.pairwise_append, List.pairwise_cons] at hp
  obtain ⟨-, ⟨hrest, -⟩, hcross⟩ := hp
  rw [← mem_cellsOf, h]
  constructor
  · intro ha
    exact ⟨List.mem_append_left _ ha, hcross a ha c List.mem_cons_self⟩
  · rintro ⟨ha, hb⟩
    rcases List.mem_append.mp ha with ha | ha
    · exact ha
    · rcases List.mem_cons.mp ha with rfl | ha
      · exact absurd hb (Cell.Before.irrefl _)
      · exact absurd hb (hrest a ha).asymm

end SlotGrid
