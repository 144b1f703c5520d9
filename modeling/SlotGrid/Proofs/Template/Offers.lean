import SlotGrid.Proofs.Template.Rectangles

/-! # Slots that are offered cells

A slot may be offered any cells, in any order and more than once, and is left as it is by those it refuses. What it
took is at any time its complete rows and a beginning of one more.
-/

namespace SlotGrid

/-- A cell is taken only once. -/
theorem Slot.not_took_of_expand {s s' : Slot} {row column : ℕ} (h : s.expand row column = .ok s') :
    ¬ s.Took row column := by
  obtain ⟨hr, hc, -⟩ | ⟨hr, hc, -⟩ | ⟨hr, -⟩ := expand_cases h <;> unfold Took <;> omega

/-- A slot and the cells that it has taken, the first one included. -/
structure Growth where
  slot : Slot
  cells : List (ℕ × ℕ)
  deriving DecidableEq, Repr

namespace Growth

/-- Offers the slot a cell, which it takes or refuses. -/
def offer (g : Growth) (cell : ℕ × ℕ) : Growth :=
  match g.slot.expand cell.1 cell.2 with
  | .ok slot => ⟨slot, g.cells ++ [cell]⟩
  | .error _ => g

/-- A new slot that has been offered some cells. -/
def ofOffers (name : Char) (row column : ℕ) (offers : List (ℕ × ℕ)) : Growth :=
  offers.foldl offer ⟨.single name row column, [(row, column)]⟩

/-- The cells are those that the numbers of the slot stand for, each once. -/
structure Sound (g : Growth) : Prop where
  wellShaped : g.slot.WellShaped
  nodup : g.cells.Nodup
  took_iff : ∀ r c, g.slot.Took r c ↔ (r, c) ∈ g.cells

variable {g : Growth}

theorem offer_of_error {cell : ℕ × ℕ} {e : TemplateError} (h : g.slot.expand cell.1 cell.2 = .error e) :
    g.offer cell = g := by
  rw [offer, h]

theorem sound_single (name : Char) (row column : ℕ) : Sound ⟨.single name row column, [(row, column)]⟩ where
  wellShaped := Slot.wellShaped_single name row column
  nodup := List.nodup_singleton _
  took_iff r c := by rw [Slot.took_single, List.mem_singleton, Prod.mk.injEq]

theorem Sound.offer (h : g.Sound) (cell : ℕ × ℕ) : (g.offer cell).Sound := by
  unfold Growth.offer
  cases hs : g.slot.expand cell.1 cell.2 with
  | error e => exact h
  | ok slot =>
    have hnew : cell ∉ g.cells := fun hmem => Slot.not_took_of_expand hs ((h.took_iff _ _).mpr hmem)
    refine ⟨h.wellShaped.expand hs, List.nodup_append.mpr ⟨h.nodup, List.nodup_singleton cell, ?_⟩, fun r c => ?_⟩
    · rintro a ha b hb rfl
      exact hnew (List.mem_singleton.mp hb ▸ ha)
    · rw [Slot.took_expand h.wellShaped hs, h.took_iff, List.mem_append, List.mem_singleton, Prod.ext_iff]

theorem sound_ofOffers (name : Char) (row column : ℕ) (offers : List (ℕ × ℕ)) :
    (ofOffers name row column offers).Sound :=
  List.foldlRecOn (motive := Sound) offers _ (sound_single name row column) fun _ h cell _ => h.offer cell

/-! ## The cells of a slot -/

namespace Sound

theorem lastRow_eq (h : g.Sound) : g.slot.lastRow = g.slot.endRow := by
  have h₁ := h.wellShaped.row_le
  have h₂ := h.wellShaped.rowspan_eq
  unfold Slot.endRow
  omega

theorem lastColumn_le (h : g.Sound) : g.slot.lastColumn ≤ g.slot.endColumn := by
  have h₁ := h.wellShaped.lastColumn_lt
  unfold Slot.endColumn
  omega

/-- The rows but the last are complete, and the last has a beginning. -/
theorem mem_cells_iff (h : g.Sound) (r c : ℕ) :
    (r, c) ∈ g.cells ↔
      (g.slot.row ≤ r ∧ r < g.slot.endRow) ∧ g.slot.column ≤ c ∧ c ≤ g.slot.endColumn ∨
        r = g.slot.endRow ∧ g.slot.column ≤ c ∧ c ≤ g.slot.lastColumn := by
  rw [← h.took_iff, Slot.Took, h.lastRow_eq]
  tauto

theorem covers_iff (h : g.Sound) (r c : ℕ) :
    g.slot.Covers r c ↔ (g.slot.row ≤ r ∧ r < g.slot.row + g.slot.rowspan) ∧
      g.slot.column ≤ c ∧ c < g.slot.column + g.slot.colspan := by
  have hrowspan := h.wellShaped.rowspan_pos
  have hcolspan := h.wellShaped.colspan_pos
  unfold Slot.Covers Slot.endRow Slot.endColumn
  omega

theorem requireClosed_iff (h : g.Sound) :
    g.slot.requireClosed = .ok () ↔ ∀ r c, (r, c) ∈ g.cells ↔ g.slot.Covers r c := by
  rw [Slot.requireClosed_eq_ok]
  constructor
  · intro hclosed r c
    rw [← h.took_iff, h.wellShaped.took_iff_covers hclosed]
  · intro hall
    have hrow := h.wellShaped.row_le
    have hcolumn := h.wellShaped.column_le
    have hlast := h.lastColumn_le
    -- The last corner of the rectangle can only have been taken at the end of the last row.
    have hcorner : (g.slot.endRow, g.slot.endColumn) ∈ g.cells :=
      (hall _ _).mpr ⟨h.lastRow_eq ▸ hrow, le_rfl, hcolumn.trans hlast, le_rfl⟩
    rw [h.mem_cells_iff] at hcorner
    rw [h.wellShaped.isClosed_iff]
    omega

/-- The numbers of a slot go no further than one past the largest coordinate. -/
theorem le_of_cells (h : g.Sound) {bound : ℕ} (hb : ∀ cell ∈ g.cells, cell.1 ≤ bound ∧ cell.2 ≤ bound) :
    g.slot.row + g.slot.rowspan ≤ bound + 1 ∧ g.slot.column + g.slot.colspan ≤ bound + 1 ∧
      g.slot.lastRow ≤ bound ∧ g.slot.lastColumn ≤ bound := by
  obtain ⟨h₁, h₂, h₃, h₄, h₅⟩ := h.wellShaped
  have hlast := hb _ ((h.took_iff _ _).mp h.wellShaped.took_last)
  have hcorner : g.slot.Took g.slot.row g.slot.endColumn := by
    unfold Slot.Took Slot.endColumn
    omega
  have hright := (hb _ ((h.took_iff _ _).mp hcorner)).2
  unfold Slot.endColumn at hright
  omega

end Sound

end Growth

example : (Growth.ofOffers 'a' 0 0 [(0, 1), (0, 1), (1, 0), (0, 2), (1, 2)]).cells = [(0, 0), (0, 1), (1, 0)] := by
  decide

end SlotGrid
