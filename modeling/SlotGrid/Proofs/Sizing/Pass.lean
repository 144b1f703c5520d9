import SlotGrid.Proofs.Sizing.Reached
import SlotGrid.Sizing.Pass

/-! # Sizing without errors

A pass over grids of which each has elements for all slots or none at all ends without an error.
-/

namespace SlotGrid

variable {ε α : Type} [Quantity α] {m : Measure ε α} {config : Config} {g : Grid ε α}

namespace Grid

/-- A grid that has all elements that the passes ask for once it has one of its own. -/
structure Ready (g : Grid ε α) : Prop where
  sound : g.Sound
  materialized : g.isMaterialized = true → g.Materialized

/-- A grid whose columns are built and whose slots have extents and widths if it has elements. -/
structure Sized (g : Grid ε α) : Prop extends g.Ready where
  columns : g.isMaterialized = true → g.columns.isSome
  slots : g.isMaterialized = true → ∀ s ∈ g.slots, s.extent.isSome ∧ s.width.isSome

/-- A sized grid with the same template. -/
structure SizedFrom (g g' : Grid ε α) : Prop where
  template_eq : g'.template = g.template
  sized : g'.Sized

theorem map_template_eq {gs gs' : List (Grid ε α)} (h : List.Forall₂ SizedFrom gs gs') :
    gs'.map template = gs.map template := by
  induction h with
  | nil => rfl
  | cons hr _ ih => rw [List.map_cons, List.map_cons, ih, hr.template_eq]

theorem sized_of_forall₂ {gs gs' : List (Grid ε α)} (h : List.Forall₂ SizedFrom gs gs') :
    ∀ g ∈ gs', g.Sized := by
  induction h with
  | nil => exact fun _ hg => absurd hg List.not_mem_nil
  | cons hr _ ih => exact List.forall_mem_cons.mpr ⟨hr.sized, ih⟩

theorem exists_sizeColumnsIfMaterialized (m : Measure ε α) (config : Config) (hg : g.Ready) :
    ∃ g', g.sizeColumnsIfMaterialized m config = .ok g' ∧ g.SizedFrom g' := by
  unfold sizeColumnsIfMaterialized
  split_ifs with hmat
  · have hm := hg.materialized hmat
    obtain ⟨container, widths, -, hl, -, hsize⟩ := exists_sizeColumns m config hg.sound hm
    have hlength : (g.extents m container).length = g.widths.length := length_extents hg.sound
    have hsound := hg.sound.widened (hl.trans hlength.symm)
    refine ⟨_, hsize, template_widened .., ⟨hsound, fun _ => hm.widened⟩, fun _ => rfl, fun _ => ?_⟩
    rw [slots_widened, List.forall_mem_map]
    exact fun _ _ => ⟨rfl, rfl⟩
  · exact ⟨g, rfl, rfl, hg, fun h => absurd h hmat, fun h => absurd h hmat⟩

theorem exists_sizeRowsIfMaterialized (m : Measure ε α) (hg : g.Sized) :
    ∃ g', g.sizeRowsIfMaterialized m = .ok g' ∧ g.SizedFrom g' := by
  unfold sizeRowsIfMaterialized
  split_ifs with hmat
  · have hm := hg.materialized hmat
    obtain ⟨container, hc⟩ := Option.isSome_iff_exists.mp hm.element
    have hsize := sizeRows_eq_ok (m := m) hg.sound hm (fun s hs _ => (hg.slots hmat s hs).2) hc
    refine ⟨_, hsize, template_heightened .., ⟨hg.sound.heightened, fun _ => hm.heightened⟩,
      fun _ => hg.columns hmat, fun _ => ?_⟩
    exact forall_slots_heightened (fun _ _ => Iff.rfl) (hg.slots hmat)
  · exact ⟨g, rfl, rfl, hg⟩

theorem Sound.length_columnWidths (hg : g.Sound) : g.columnWidths.length = g.widths.length := by
  have hbuilt := hg.length_builtColumns
  unfold columnWidths
  unfold builtColumns at hbuilt
  cases hc : g.columns with
  | none => exact List.length_map _
  | some cs =>
    rw [hc] at hbuilt
    exact (List.length_map _).trans hbuilt

/-- A slot starts within the rows and columns. -/
theorem Sound.requireOrigin_eq_ok (hg : g.Sound) {s : GridSlot ε α} (hs : s ∈ g.slots) :
    s.requireOrigin g.rowHeights.length g.columnWidths.length = .ok () := by
  have hwithin := hg.within hs
  have hrows : g.rowHeights.length = g.rows.length := List.length_map _
  refine Checked.bind_eq_ok.mpr ⟨(), if_pos ?_, if_pos ?_⟩
  · rw [hg.length_columnWidths]
    omega
  · omega

/-- A width pass asks for lengths and widths around the element of the grid only. -/
theorem sizeColumnsIfMaterialized_congr {m' : Measure ε α} (config : Config) (g : Grid ε α)
    (hpreferred : m'.preferred = m.preferred) (hminimum : m'.minimum = m.minimum)
    (haround : ∀ e, g.element = some e → m'.available e = m.available e ∧ ∀ l, m'.resolve l e = m.resolve l e) :
    g.sizeColumnsIfMaterialized m' config = g.sizeColumnsIfMaterialized m config := by
  unfold sizeColumnsIfMaterialized sizeColumns elementOrError
  cases he : g.element with
  | none => simp only [isMaterialized, he, Option.isSome_none, Bool.false_eq_true, if_false]
  | some e =>
    obtain ⟨havailable, hresolve⟩ := haround e he
    have hmeasure : ∀ s : GridSlot ε α, s.measure m' = s.measure m := by
      intro s
      unfold GridSlot.measure GridSlot.measuredExtent
      rw [hpreferred, hminimum]
    have hextent : ∀ (slots : List (GridSlot ε α)) (c : GridColumn α),
        c.currentExtent m' e slots = c.currentExtent m e slots := by
      intro slots c
      unfold GridColumn.currentExtent GridColumn.ruledExtent
      simp only [hresolve]
    simp only [Option.elim_some, hmeasure, hextent, havailable, bind, Except.bind]

theorem element_sizeColumnsIfMaterialized {g' : Grid ε α} (h : g.sizeColumnsIfMaterialized m config = .ok g') :
    g'.element = g.element := by
  unfold sizeColumnsIfMaterialized at h
  split_ifs at h
  · obtain ⟨container, widths, -, -, rfl⟩ := eq_widened h
    rfl
  · cases h
    rfl

theorem element_sizeRowsIfMaterialized {g' : Grid ε α} (h : g.sizeRowsIfMaterialized m = .ok g') :
    g'.element = g.element := by
  unfold sizeRowsIfMaterialized sizeRows at h
  split_ifs at h
  · simp only [Checked.bind_eq_ok] at h
    obtain ⟨_, -, _, -, _, -, _, -, h⟩ := h
    cases h
    rfl
  · cases h
    rfl

/-- The slots keep their elements. -/
theorem map_element_sizeColumnsIfMaterialized {g' : Grid ε α} (h : g.sizeColumnsIfMaterialized m config = .ok g') :
    g'.slots.map GridSlot.element = g.slots.map GridSlot.element := by
  unfold sizeColumnsIfMaterialized at h
  split_ifs at h
  · obtain ⟨container, widths, -, -, rfl⟩ := eq_widened h
    rw [slots_widened, List.map_map]
    rfl
  · cases h
    rfl

end Grid

end SlotGrid
