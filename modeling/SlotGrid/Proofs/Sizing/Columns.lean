import SlotGrid.Proofs.Sizing.Grid
import SlotGrid.Proofs.Sizing.Widening
import SlotGrid.Sizing.Columns

/-! # What the width pass computes

On a grid with elements the width pass ends without an error. It computes the extents of the columns once and
for all, and then a width for each of them.
-/

namespace SlotGrid

variable {ε α : Type} [Quantity α] {m : Measure ε α} {config : Config}

namespace GridSlot

/-- The extent of the content; nothing for a slot without an element. -/
def intrinsicExtent (m : Measure ε α) (s : GridSlot ε α) : Extent α :=
  s.extent.getD <|
    if s.isEmpty then ⟨0, 0⟩
    else s.element.elim ⟨0, 0⟩ fun e => ⟨if 1 < s.colspan then 0 else m.minimum e, m.preferred e⟩

def measured (m : Measure ε α) (s : GridSlot ε α) : GridSlot ε α :=
  { s with extent := some (s.intrinsicExtent m) }

theorem measuredExtent_eq (m : Measure ε α) (s : GridSlot ε α) :
    s.measuredExtent m =
      if s.extent = none ∧ s.isEmpty = false ∧ s.element = none then .error (.noElement s.name)
      else .ok (s.intrinsicExtent m) := by
  unfold measuredExtent intrinsicExtent elementOrError
  cases s.extent with
  | some x => rfl
  | none =>
    cases s.isEmpty with
    | true => rfl
    | false => cases s.element <;> rfl

theorem measure_eq (m : Measure ε α) (s : GridSlot ε α) :
    s.measure m =
      if s.extent = none ∧ s.isEmpty = false ∧ s.element = none then .error (.noElement s.name)
      else .ok (s.measured m) := by
  unfold measure
  rw [measuredExtent_eq]
  split_ifs <;> rfl

theorem measure_eq_ok {s : GridSlot ε α} (h : s.isEmpty = false → s.element.isSome) :
    s.measure m = .ok (s.measured m) := by
  rw [measure_eq, if_neg]
  rintro ⟨-, he, hs⟩
  simp [hs] at h
  simp [h] at he

theorem eq_measured {s s' : GridSlot ε α} (h : s.measure m = .ok s') : s' = s.measured m := by
  rw [measure_eq] at h
  split_ifs at h
  cases h
  rfl

end GridSlot

section Lists

omit [Quantity α]

def GridColumn.withExtent (c : GridColumn α) (x : Extent α) : GridColumn α := { c with extent := some x }

def GridColumn.withComputed (c : GridColumn α) (w : α) : GridColumn α := { c with computed := w }

variable {β γ δ : Type} {f : α → β → γ} {g : γ → δ}

theorem map_zipWith_left {h : α → δ} (hf : ∀ a b, g (f a b) = h a) {xs : List α} {ys : List β}
    (hl : xs.length ≤ ys.length) : (List.zipWith f xs ys).map g = xs.map h := by
  induction xs generalizing ys with
  | nil => rfl
  | cons x xs ih =>
    cases ys with
    | nil => cases hl
    | cons y ys =>
      rw [List.zipWith_cons_cons, List.map_cons, hf, ih (Nat.le_of_succ_le_succ hl), List.map_cons]

theorem map_zipWith_right {h : β → δ} (hf : ∀ a b, g (f a b) = h b) {xs : List α} {ys : List β}
    (hl : ys.length ≤ xs.length) : (List.zipWith f xs ys).map g = ys.map h := by
  rw [List.zipWith_comm]
  exact map_zipWith_left (fun b a => hf a b) hl

end Lists

namespace Grid

variable {g g' : Grid ε α} {container : ε} {widths : List α}

def measuredSlots (m : Measure ε α) (g : Grid ε α) : List (GridSlot ε α) := g.slots.map (·.measured m)

/-- The extents of the columns. -/
def extents (m : Measure ε α) (container : ε) (g : Grid ε α) : List (Extent α) :=
  g.builtColumns.map (·.currentExtent m container (g.measuredSlots m))

/-- The grid after a width pass that came to these widths. -/
def widened (m : Measure ε α) (container : ε) (widths : List α) (g : Grid ε α) : Grid ε α :=
  ({ g with slots := g.measuredSlots m } : Grid ε α).withColumnWidths
    (List.zipWith GridColumn.withExtent g.builtColumns (g.extents m container)) widths

theorem length_extents (hg : g.Sound) : (g.extents m container).length = g.widths.length :=
  (List.length_map _).trans hg.length_builtColumns

/-- The columns fit whatever the available width is, if there are more rounds than columns. -/
theorem exists_fitColumns (available : α) {cap : ℕ} {extents : List (Extent α)} (h : extents.length < cap) :
    ∃ widths, fitColumns available cap extents = .ok widths ∧ widths.length = extents.length := by
  unfold fitColumns
  split_ifs
  · exact ⟨_, rfl, List.length_map _⟩
  · have hcap : (extents.map Extent.preferred).length < cap := by rwa [List.length_map]
    obtain ⟨widths, hw, hl⟩ := Widening.exists_widen available hcap
    rw [hw]
    exact ⟨widths, rfl, hl.trans (List.length_map _)⟩

theorem length_fitColumns {available : α} {cap : ℕ} {extents : List (Extent α)}
    (h : fitColumns available cap extents = .ok widths) : widths.length = extents.length := by
  unfold fitColumns at h
  split_ifs at h
  · cases h
    exact List.length_map _
  · cases hw : Widening.widen? (extents.map Extent.preferred) available cap with
    | none =>
      rw [hw] at h
      cases h
    | some ws =>
      rw [hw] at h
      cases h
      exact (Widening.length_rounds hw).trans (by simp)

theorem lt_roundLimit (config : Config) (n : ℕ) : n < config.roundLimit n :=
  lt_of_lt_of_le (Nat.lt_succ_self n) (le_max_right _ _)

theorem requireColumns_eq_ok {s : Slot} {n : ℕ} (h : s.column + s.colspan ≤ n) : s.requireColumns n = .ok () :=
  if_pos h

/-- The width pass ends without an error on grids with elements. -/
theorem exists_sizeColumns (m : Measure ε α) (config : Config) (hg : g.Sound) (hm : g.Materialized) :
    ∃ container widths, g.element = some container ∧ widths.length = g.widths.length ∧
      fitColumns (m.available container) (config.roundLimit g.widths.length) (g.extents m container) =
        .ok widths ∧
      g.sizeColumns m config = .ok (g.widened m container widths) := by
  obtain ⟨container, hc⟩ := Option.isSome_iff_exists.mp hm.element
  have hlength : (g.extents m container).length = g.widths.length := length_extents hg
  have hcap : (g.extents m container).length < config.roundLimit g.widths.length :=
    hlength ▸ lt_roundLimit config _
  obtain ⟨widths, hw, hl⟩ := exists_fitColumns (m.available container) hcap
  rw [hlength] at hl
  refine ⟨container, widths, hc, hl, hw, ?_⟩
  have hmeasure : g.slots.mapM (·.measure m) = .ok (g.measuredSlots m) :=
    Checked.mapM_ok fun s hs => GridSlot.measure_eq_ok (hm.slots s hs)
  have hwithin : (g.measuredSlots m).forM (fun s => s.requireColumns widths.length) = .ok () := by
    rw [Checked.forM_eq_ok]
    intro s' hs'
    obtain ⟨s, hs, rfl⟩ := List.mem_map.mp hs'
    exact requireColumns_eq_ok (hl ▸ (hg.within hs).2)
  rw [← hlength] at hw
  have hcontainer : g.elementOrError = .ok container := by rw [elementOrError, hc]; rfl
  unfold sizeColumns
  simp only [Checked.bind_eq_ok]
  exact ⟨container, hcontainer, _, hmeasure, widths, hw, (), hwithin, rfl⟩

/-- A width pass that ends without an error. -/
theorem eq_widened (h : g.sizeColumns m config = .ok g') :
    ∃ container widths, g.element = some container ∧
      fitColumns (m.available container) (config.roundLimit (g.extents m container).length)
        (g.extents m container) = .ok widths ∧ g' = g.widened m container widths := by
  unfold sizeColumns at h
  simp only [Checked.bind_eq_ok] at h
  obtain ⟨container, hc, slots, hslots, widths, hw, _, -, h⟩ := h
  have hmeasured : slots = g.measuredSlots m :=
    Checked.eq_map_of_mapM (fun s _ s' hs => GridSlot.eq_measured hs) hslots
  subst hmeasured
  cases h
  refine ⟨container, widths, ?_, hw, rfl⟩
  unfold elementOrError at hc
  cases he : g.element with
  | none =>
    rw [he] at hc
    cases hc
  | some e =>
    rw [he] at hc
    cases hc
    rfl

/-! ## The widened grid -/

theorem slots_widened (m : Measure ε α) (container : ε) (widths : List α) (g : Grid ε α) :
    (g.widened m container widths).slots = g.slots.map fun s =>
      { s.measured m with width := some (Quantity.total ((widths.drop s.column).take s.colspan)) } := by
  unfold widened withColumnWidths measuredSlots
  rw [List.map_map]
  rfl

theorem template_widened (m : Measure ε α) (container : ε) (widths : List α) (g : Grid ε α) :
    (g.widened m container widths).template = g.template := by
  unfold template
  rw [slots_widened, List.map_map]
  rfl

/-- The columns after a width pass. -/
def widenedColumns (m : Measure ε α) (container : ε) (widths : List α) (g : Grid ε α) : List (GridColumn α) :=
  List.zipWith GridColumn.withComputed
    (List.zipWith GridColumn.withExtent g.builtColumns (g.extents m container)) widths

theorem map_fresh_widenedColumns (hl : widths.length = (g.extents m container).length) :
    (g.widenedColumns m container widths).map GridColumn.fresh = g.builtColumns.map GridColumn.fresh := by
  have hx : (g.extents m container).length = g.builtColumns.length := List.length_map _
  have hfresh : ∀ (c : GridColumn α) w, (c.withComputed w).fresh = c.fresh := fun _ _ => rfl
  have hfresh' : ∀ (c : GridColumn α) x, (c.withExtent x).fresh = c.fresh := fun _ _ => rfl
  rw [widenedColumns, map_zipWith_left hfresh, map_zipWith_left hfresh' hx.ge]
  rw [List.length_zipWith, hl, hx, min_self]

theorem map_extent_widenedColumns (hl : widths.length = (g.extents m container).length) :
    (g.widenedColumns m container widths).map GridColumn.extent = (g.extents m container).map some := by
  have hx : (g.extents m container).length = g.builtColumns.length := List.length_map _
  have hextent : ∀ (c : GridColumn α) w, (c.withComputed w).extent = c.extent := fun _ _ => rfl
  have hextent' : ∀ (c : GridColumn α) x, (c.withExtent x).extent = some x := fun _ _ => rfl
  rw [widenedColumns, map_zipWith_left hextent, map_zipWith_right hextent' hx.le]
  rw [List.length_zipWith, hl, hx, min_self]

theorem map_computed_widenedColumns (hl : widths.length = (g.extents m container).length) :
    (g.widenedColumns m container widths).map GridColumn.computed = widths := by
  have hx : (g.extents m container).length = g.builtColumns.length := List.length_map _
  have hcomputed : ∀ (c : GridColumn α) w, (c.withComputed w).computed = w := fun _ _ => rfl
  rw [widenedColumns, map_zipWith_right hcomputed, List.map_id']
  rw [List.length_zipWith, hl, hx, min_self]

theorem columnWidths_widened (hl : widths.length = (g.extents m container).length) :
    (g.widened m container widths).columnWidths = widths :=
  map_computed_widenedColumns hl

theorem Sound.widened (hg : g.Sound) (hl : widths.length = (g.extents m container).length) :
    (g.widened m container widths).Sound := by
  have ht := template_widened m container widths g
  refine ⟨ht ▸ hg.partitioned, fun cs hcs => ?_⟩
  rw [freshColumns_congr ht, ← hg.map_fresh_builtColumns, ← map_fresh_widenedColumns hl]
  cases hcs
  rfl

theorem Materialized.widened (hm : g.Materialized) : (g.widened m container widths).Materialized := by
  refine ⟨hm.element, fun s' hs' => ?_⟩
  rw [slots_widened] at hs'
  obtain ⟨s, hs, rfl⟩ := List.mem_map.mp hs'
  exact hm.slots s hs

theorem Sound.of_sizeColumns (hg : g.Sound) (h : g.sizeColumns m config = .ok g') : g'.Sound := by
  obtain ⟨container, widths, -, hw, rfl⟩ := eq_widened h
  exact hg.widened (length_fitColumns hw)

end Grid

end SlotGrid
