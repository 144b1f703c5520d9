import Mathlib
import SlotGrid.Template.Slot

/-! # Growing slots

A slot that grows cell by cell always holds complete rows and a beginning of one more. It is closed exactly
when that beginning is a complete row too, and then it holds its whole rectangle.
-/

namespace SlotGrid.Slot

variable {s s' : Slot} {row column : Nat}

/-- The cells that were taken: all rows before the last, and the last up to the last cell. -/
def Took (s : Slot) (row column : Nat) : Prop :=
  s.column ≤ column ∧
    (s.row ≤ row ∧ row < s.lastRow ∧ column ≤ s.endColumn ∨ row = s.lastRow ∧ column ≤ s.lastColumn)

/-- What the numbers of a slot have to do with each other while it grows. -/
structure WellShaped (s : Slot) : Prop where
  row_le : s.row ≤ s.lastRow
  rowspan_eq : s.rowspan = s.lastRow - s.row + 1
  column_le : s.column ≤ s.lastColumn
  lastColumn_lt : s.lastColumn < s.column + s.colspan
  first_row : s.lastRow = s.row → s.lastColumn + 1 = s.column + s.colspan

theorem wellShaped_single (name : Char) (row column : Nat) : (single name row column).WellShaped := by
  constructor <;> simp [single]

theorem took_single {name : Char} {r c : Nat} :
    (single name row column).Took r c ↔ r = row ∧ c = column := by
  simp only [single, Took]; omega

/-- A slot takes a cell in its first row, within a later row, or at the start of a new row. -/
theorem expand_cases (h : s.expand row column = .ok s') :
    (row = s.lastRow ∧ column = s.lastColumn + 1 ∧ row = s.row ∧
      s' = { s with colspan := s.colspan + 1, lastRow := row, lastColumn := column }) ∨
    (row = s.lastRow ∧ column = s.lastColumn + 1 ∧ row ≠ s.row ∧ column ≤ s.endColumn ∧
      s' = { s with lastRow := row, lastColumn := column }) ∨
    (row = s.lastRow + 1 ∧ s.lastColumn = s.endColumn ∧ column = s.column ∧
      s' = { s with rowspan := s.rowspan + 1, lastRow := row, lastColumn := column }) := by
  unfold expand at h
  split_ifs at h with hnext hfirst hout hstart
  · cases h
    exact .inl ⟨hnext.1, hnext.2, hfirst, rfl⟩
  · cases h
    exact .inr (.inl ⟨hnext.1, hnext.2, hfirst, by omega, rfl⟩)
  · cases h
    exact .inr (.inr ⟨hstart.1, hstart.2.1, hstart.2.2, rfl⟩)

theorem WellShaped.expand (hs : s.WellShaped) (h : s.expand row column = .ok s') : s'.WellShaped := by
  obtain ⟨h₁, h₂, h₃, h₄, h₅⟩ := hs
  obtain ⟨hr, hc, hf, rfl⟩ | ⟨hr, hc, hf, hl, rfl⟩ | ⟨hr, hl, hc, rfl⟩ := expand_cases h <;>
    constructor <;> simp only [endColumn] at * <;> omega

theorem took_expand (hs : s.WellShaped) (h : s.expand row column = .ok s') (r c : Nat) :
    s'.Took r c ↔ s.Took r c ∨ r = row ∧ c = column := by
  obtain ⟨h₁, h₂, h₃, h₄, h₅⟩ := hs
  obtain ⟨hr, hc, hf, rfl⟩ | ⟨hr, hc, hf, hl, rfl⟩ | ⟨hr, hl, hc, rfl⟩ := expand_cases h <;>
    simp only [Took, endColumn] at * <;> omega

theorem name_expand (h : s.expand row column = .ok s') : s'.name = s.name := by
  obtain ⟨-, -, -, rfl⟩ | ⟨-, -, -, -, rfl⟩ | ⟨-, -, -, rfl⟩ := expand_cases h <;> rfl

theorem WellShaped.rowspan_pos (hs : s.WellShaped) : 0 < s.rowspan := by
  rw [hs.rowspan_eq]; omega

theorem WellShaped.colspan_pos (hs : s.WellShaped) : 0 < s.colspan := by
  have h₁ := hs.column_le
  have h₂ := hs.lastColumn_lt
  omega

theorem WellShaped.took_first (hs : s.WellShaped) : s.Took s.row s.column := by
  obtain ⟨h₁, h₂, h₃, h₄, h₅⟩ := hs
  unfold Took endColumn; omega

theorem WellShaped.took_last (hs : s.WellShaped) : s.Took s.lastRow s.lastColumn :=
  ⟨hs.column_le, .inr ⟨rfl, le_rfl⟩⟩

theorem Took.row_le {r c : Nat} (h : s.Took r c) : r ≤ s.lastRow := by
  unfold Took at h; omega

theorem Took.column_le {r c : Nat} (h : s.Took r c) : s.column ≤ c := h.1

theorem Took.le_endColumn {r c : Nat} (h : s.Took r c) (hs : s.WellShaped) : c ≤ s.endColumn := by
  have h₁ := hs.lastColumn_lt
  unfold Took endColumn at *; omega

theorem not_took_next : ¬ s.Took s.lastRow (s.lastColumn + 1) := by
  unfold Took; omega

theorem WellShaped.isClosed_iff (hs : s.WellShaped) : s.isClosed = true ↔ s.lastColumn = s.endColumn := by
  obtain ⟨h₁, h₂, h₃, h₄, h₅⟩ := hs
  rw [isClosed, decide_eq_true_eq, endColumn]
  omega

/-- A closed slot has taken its rectangle. -/
theorem WellShaped.took_iff_covers (hs : s.WellShaped) (hc : s.isClosed = true) (r c : Nat) :
    s.Took r c ↔ s.Covers r c := by
  rw [hs.isClosed_iff] at hc
  obtain ⟨h₁, h₂, h₃, h₄, h₅⟩ := hs
  simp only [Took, Covers, endRow, endColumn] at *
  omega

end SlotGrid.Slot
