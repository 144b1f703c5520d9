import SlotGrid.Proofs.Template.Partition
import SlotGrid.Sizing.Grid

/-! # Grids of templates

Whatever is found out about a grid, its template stays the one that was built, so its slots lie within its
rows and columns.
-/

namespace SlotGrid

variable {ε α : Type} [Quantity α]

/-- A column of which nothing is known. -/
def GridColumn.fresh (c : GridColumn α) : GridColumn α := { c with extent := none, computed := 0 }

namespace Grid

variable {g g' : Grid ε α}

/-- The template of the grid is partitioned, and the columns are the ones of the template once they are built. -/
structure Sound (g : Grid ε α) : Prop where
  partitioned : g.template.Partitioned
  columns_eq : ∀ cs, g.columns = some cs → cs.map GridColumn.fresh = g.freshColumns

/-- Whether the grid and its slots have the elements that the passes ask for. -/
structure Materialized (g : Grid ε α) : Prop where
  element : g.element.isSome
  slots : ∀ s ∈ g.slots, s.isEmpty = false → s.element.isSome

theorem freshColumns_congr (h : g'.template = g.template) : g'.freshColumns = g.freshColumns := by
  have hw : g'.widths = g.widths := congrArg Template.widths h
  unfold freshColumns
  rw [h, hw]

theorem builtColumns_congr (h : g'.template = g.template) (hc : g'.columns = g.columns) :
    g'.builtColumns = g.builtColumns := by
  unfold builtColumns
  rw [hc, freshColumns_congr h]

theorem length_freshColumns (g : Grid ε α) : g.freshColumns.length = g.widths.length :=
  List.length_mapIdx

theorem Sound.of_template (hg : g.Sound) (h : g'.template = g.template) (hc : g'.columns = g.columns) :
    g'.Sound := by
  refine ⟨h ▸ hg.partitioned, fun cs hcs => ?_⟩
  rw [freshColumns_congr h]
  exact hg.columns_eq cs (hc ▸ hcs)

theorem template_ofTemplate (t : Template) : (ofTemplate t : Grid ε α).template = t := by
  obtain ⟨selector, css, rows, widths, slots⟩ := t
  simp [template, ofTemplate, Function.comp_def]

theorem sound_ofTemplate {t : Template} (ht : t.Partitioned) : (ofTemplate t : Grid ε α).Sound := by
  constructor
  · rw [template_ofTemplate]
    exact ht
  · intro cs hcs
    cases hcs

omit [Quantity α] in
theorem template_named (g : Grid ε α) (id slotInfix : String) :
    (g.named id slotInfix).template = g.template := by
  unfold Grid.named template
  rw [List.map_map]
  rfl

theorem Sound.named (hg : g.Sound) (id slotInfix : String) : (g.named id slotInfix).Sound :=
  hg.of_template (template_named g id slotInfix) rfl

namespace Sound

theorem map_fresh_builtColumns (hg : g.Sound) : g.builtColumns.map GridColumn.fresh = g.freshColumns := by
  unfold builtColumns
  cases hc : g.columns with
  | some cs => exact hg.columns_eq cs hc
  | none =>
    refine (List.map_congr_left fun c hmem => ?_).trans (List.map_id _)
    obtain ⟨i, _, hi, rfl⟩ := List.mem_mapIdx.mp hmem
    rfl

theorem length_builtColumns (hg : g.Sound) : g.builtColumns.length = g.widths.length := by
  rw [← List.length_map (f := GridColumn.fresh), hg.map_fresh_builtColumns, length_freshColumns]

theorem withColumns (hg : g.Sound) : g.withColumns.Sound := by
  refine ⟨hg.partitioned, fun cs hcs => ?_⟩
  cases hcs
  exact hg.map_fresh_builtColumns

omit [Quantity α] in
theorem mem_template {s : GridSlot ε α} (hs : s ∈ g.slots) : s.toSlot ∈ g.template.slots.toList :=
  List.mem_map_of_mem hs

theorem wellShaped (hg : g.Sound) {s : GridSlot ε α} (hs : s ∈ g.slots) : s.WellShaped :=
  hg.partitioned.slots.wellShaped _ (mem_template hs)

/-- Slots lie within the rows and columns. -/
theorem within (hg : g.Sound) {s : GridSlot ε α} (hs : s ∈ g.slots) :
    s.row + s.rowspan ≤ g.rows.length ∧ s.column + s.colspan ≤ g.widths.length := by
  have hend := hg.partitioned.endRow_lt (mem_template hs)
  have hshape := hg.wellShaped hs
  have h₁ := hshape.rowspan_pos
  have h₂ := hshape.colspan_pos
  have hrows : g.template.rowCount = g.rows.length := List.length_map _
  have hcolumns : g.template.columnCount = g.widths.length := rfl
  unfold Slot.endRow Slot.endColumn at hend
  omega

theorem nodup_names (hg : g.Sound) : (g.slots.map (·.name)).Nodup := by
  have h := hg.partitioned.nodup_names
  unfold Slots.names template at h
  rwa [List.map_map] at h

end Sound

end Grid

end SlotGrid
