import SlotGrid.Proofs.Sizing.RowHeights

/-! # Tilings

The columns and rows cut the box of a grid into cells, and each slot covers a rectangle of them. So once both
passes are done the regions of the slots share the box among them without gaps and overlaps.
-/

namespace SlotGrid

/-! ## Offsets -/

section Offsets

variable {qs : List ℚ}

/-- The distance of a row or column from the edge. -/
def offsetOf (qs : List ℚ) (index : ℕ) : ℚ := (qs.take index).sum

theorem offsetOf_add (qs : List ℚ) (index count : ℕ) :
    offsetOf qs (index + count) = offsetOf qs index + ((qs.drop index).take count).sum := by
  unfold offsetOf
  rw [List.take_add, List.sum_append]

theorem offsetOf_mono (h : ∀ q ∈ qs, 0 ≤ q) {i j : ℕ} (hij : i ≤ j) : offsetOf qs i ≤ offsetOf qs j := by
  obtain ⟨n, rfl⟩ := Nat.exists_eq_add_of_le hij
  rw [offsetOf_add]
  apply le_add_of_nonneg_right
  apply List.sum_nonneg
  exact fun q hq => h q (List.mem_of_mem_drop (List.mem_of_mem_take hq))

theorem offsetOf_length (qs : List ℚ) : offsetOf qs qs.length = qs.sum := by
  unfold offsetOf
  rw [List.take_length]

/-- Every point lies within a row or column. -/
theorem exists_offsetOf_between (hne : qs ≠ []) {x : ℝ} (h₀ : 0 ≤ x) (hx : x ≤ qs.sum) :
    ∃ i < qs.length, offsetOf qs i ≤ x ∧ x ≤ offsetOf qs (i + 1) := by
  by_contra! hno
  have hbelow : ∀ i < qs.length, offsetOf qs i ≤ x := by
    intro i
    induction i with
    | zero => simpa [offsetOf] using fun _ => h₀
    | succ i ih =>
      intro hi
      exact (hno i (by omega) (ih (by omega))).le
  have hpos := List.length_pos_iff.mpr hne
  have hlast := hno (qs.length - 1) (by omega) (hbelow _ (by omega))
  rw [Nat.sub_add_cancel hpos, offsetOf_length] at hlast
  exact absurd hx (not_le.mpr hlast)

end Offsets

/-! ## Regions -/

namespace Region

/-- The points of a region with its edges. -/
def points (r : Region ℚ) : Set (ℝ × ℝ) :=
  Set.Icc (r.x : ℝ) ((r.x + r.width : ℚ) : ℝ) ×ˢ Set.Icc (r.y : ℝ) ((r.y + r.height : ℚ) : ℝ)

theorem mem_points_box {width height : ℚ} {x y : ℝ} :
    (x, y) ∈ points ⟨0, 0, width, height⟩ ↔ (0 ≤ x ∧ x ≤ width) ∧ 0 ≤ y ∧ y ≤ height := by
  unfold points
  simp only [Set.mem_prod, Set.mem_Icc, Rat.cast_zero, zero_add]

theorem interior_points (r : Region ℚ) :
    interior r.points =
      Set.Ioo (r.x : ℝ) ((r.x + r.width : ℚ) : ℝ) ×ˢ Set.Ioo (r.y : ℝ) ((r.y + r.height : ℚ) : ℝ) := by
  unfold points
  rw [interior_prod_eq, interior_Icc, interior_Icc]

/-- Regions beside or above each other have no inner point in common. -/
theorem disjoint_interior {r r' : Region ℚ}
    (h : r.x + r.width ≤ r'.x ∨ r'.x + r'.width ≤ r.x ∨ r.y + r.height ≤ r'.y ∨ r'.y + r'.height ≤ r.y) :
    Disjoint (interior r.points) (interior r'.points) := by
  rw [interior_points, interior_points, Set.disjoint_left]
  rintro ⟨x, y⟩ ⟨⟨hx₁, hx₂⟩, hy₁, hy₂⟩ ⟨⟨hx₁', hx₂'⟩, hy₁', hy₂'⟩
  dsimp only at *
  rcases h with h | h | h | h
  · exact lt_irrefl _ ((hx₂.trans_le (Rat.cast_le.mpr h)).trans hx₁')
  · exact lt_irrefl _ ((hx₂'.trans_le (Rat.cast_le.mpr h)).trans hx₁)
  · exact lt_irrefl _ ((hy₂.trans_le (Rat.cast_le.mpr h)).trans hy₁')
  · exact lt_irrefl _ ((hy₂'.trans_le (Rat.cast_le.mpr h)).trans hy₁)

end Region

namespace Grid

variable {ε : Type} {g : Grid ε Exact} {ws hs : List ℚ}

/-- The regions of the slots lie within the box of the grid, have no inner point in common and leave no point
of the box uncovered. -/
structure Tiled (g : Grid ε Exact) (box : Size ℚ) : Prop where
  width_eq : g.width = .finite box.width
  height_eq : g.height = .finite box.height
  within : ∀ s ∈ g.slots, ∃ r : Region ℚ, g.region? s.name = some (r.map .finite) ∧
    r.points ⊆ Region.points ⟨0, 0, box.width, box.height⟩
  disjoint : ∀ s ∈ g.slots, ∀ s' ∈ g.slots, s.name ≠ s'.name → ∀ r r' : Region ℚ,
    g.region? s.name = some (r.map .finite) → g.region? s'.name = some (r'.map .finite) →
    Disjoint (interior r.points) (interior r'.points)
  covered : ∀ p ∈ Region.points ⟨0, 0, box.width, box.height⟩, ∃ s ∈ g.slots, ∃ r : Region ℚ,
    g.region? s.name = some (r.map .finite) ∧ p ∈ r.points

/-- A grid whose columns have the widths `ws` and whose rows have the heights `hs`, with slots as large as the
columns and rows that they lie in. -/
structure Laid (g : Grid ε Exact) (ws hs : List ℚ) : Prop where
  sound : g.Sound
  nonneg_ws : ∀ w ∈ ws, 0 ≤ w
  nonneg_hs : ∀ h ∈ hs, 0 ≤ h
  columnWidths_eq : g.columnWidths = ws.map .finite
  rowHeights_eq : g.rowHeights = hs.map .finite
  length_ws : ws.length = g.widths.length
  width_eq : g.width = .finite ws.sum
  height_eq : g.height = .finite hs.sum
  slot_width : ∀ s ∈ g.slots, s.width = some (.finite ((ws.drop s.column).take s.colspan).sum)
  slot_height : ∀ s ∈ g.slots, s.height = .finite ((hs.drop s.row).take s.rowspan).sum

/-- The region of a slot over columns and rows of these sizes. -/
def regionOver (ws hs : List ℚ) (s : Slot) : Region ℚ :=
  ⟨offsetOf ws s.column, offsetOf hs s.row, ((ws.drop s.column).take s.colspan).sum,
    ((hs.drop s.row).take s.rowspan).sum⟩

theorem right_regionOver (s : Slot) :
    (regionOver ws hs s).x + (regionOver ws hs s).width = offsetOf ws (s.column + s.colspan) :=
  (offsetOf_add ws s.column s.colspan).symm

theorem bottom_regionOver (s : Slot) :
    (regionOver ws hs s).y + (regionOver ws hs s).height = offsetOf hs (s.row + s.rowspan) :=
  (offsetOf_add hs s.row s.rowspan).symm

theorem mem_points_regionOver {s : Slot} {x y : ℝ} :
    (x, y) ∈ (regionOver ws hs s).points ↔
      (offsetOf ws s.column ≤ x ∧ x ≤ offsetOf ws (s.column + s.colspan)) ∧
        offsetOf hs s.row ≤ y ∧ y ≤ offsetOf hs (s.row + s.rowspan) := by
  unfold Region.points
  rw [right_regionOver, bottom_regionOver]
  rfl

theorem offset_map_finite (qs : List ℚ) (index : ℕ) :
    offset (qs.map Exact.finite) index = .finite (offsetOf qs index) := by
  unfold offset offsetOf
  rw [← List.map_take, ← Exact.sum_map_finite, List.sum_eq_foldl]

theorem Laid.length_hs (h : g.Laid ws hs) : hs.length = g.rows.length := by
  have hlength := congrArg List.length h.rowHeights_eq
  unfold rowHeights at hlength
  rw [List.length_map, List.length_map] at hlength
  exact hlength.symm

namespace Laid

theorem region?_eq (h : g.Laid ws hs) {s : GridSlot ε Exact} (hmem : s ∈ g.slots) :
    g.region? s.name = some ((regionOver ws hs s.toSlot).map .finite) := by
  have hslot : g.slot? s.name = some s := Keyed.get?_of_mem _ h.sound.nodup_names hmem
  unfold region?
  rw [hslot, h.columnWidths_eq, h.rowHeights_eq, Option.map_some, h.slot_width s hmem, h.slot_height s hmem,
    offset_map_finite, offset_map_finite]
  rfl

theorem eq_regionOver (h : g.Laid ws hs) {s : GridSlot ε Exact} (hmem : s ∈ g.slots) {r : Region ℚ}
    (hr : g.region? s.name = some (r.map .finite)) : r = regionOver ws hs s.toSlot := by
  rw [h.region?_eq hmem] at hr
  obtain ⟨x, y, width, height⟩ := r
  simp only [Option.some.injEq, Region.map, Region.mk.injEq, Exact.finite.injEq] at hr
  obtain ⟨rfl, rfl, rfl, rfl⟩ := hr
  rfl

theorem points_subset (h : g.Laid ws hs) {s : GridSlot ε Exact} (hmem : s ∈ g.slots) :
    (regionOver ws hs s.toSlot).points ⊆ Region.points ⟨0, 0, ws.sum, hs.sum⟩ := by
  have hwithin := h.sound.within hmem
  have hleft : 0 ≤ offsetOf ws s.column := offsetOf_mono h.nonneg_ws (Nat.zero_le _)
  have htop : 0 ≤ offsetOf hs s.row := offsetOf_mono h.nonneg_hs (Nat.zero_le _)
  have hright : offsetOf ws (s.column + s.colspan) ≤ ws.sum := by
    rw [← offsetOf_length]
    exact offsetOf_mono h.nonneg_ws (h.length_ws ▸ hwithin.2)
  have hbottom : offsetOf hs (s.row + s.rowspan) ≤ hs.sum := by
    rw [← offsetOf_length]
    exact offsetOf_mono h.nonneg_hs (h.length_hs ▸ hwithin.1)
  rintro ⟨x, y⟩ hp
  obtain ⟨⟨hx₁, hx₂⟩, hy₁, hy₂⟩ := mem_points_regionOver.mp hp
  rw [Region.mem_points_box]
  refine ⟨⟨?_, hx₂.trans (Rat.cast_le.mpr hright)⟩, ?_, hy₂.trans (Rat.cast_le.mpr hbottom)⟩
  · exact (Rat.cast_nonneg.mpr hleft).trans hx₁
  · exact (Rat.cast_nonneg.mpr htop).trans hy₁

/-- Different slots lie beside or above each other. -/
theorem beside_or_above (h : g.Laid ws hs) {s s' : GridSlot ε Exact} (hmem : s ∈ g.slots)
    (hmem' : s' ∈ g.slots) (hne : s.name ≠ s'.name) :
    s.column + s.colspan ≤ s'.column ∨ s'.column + s'.colspan ≤ s.column ∨
      s.row + s.rowspan ≤ s'.row ∨ s'.row + s'.rowspan ≤ s.row := by
  by_contra! hmeet
  obtain ⟨h₁, h₂, h₃, h₄⟩ := hmeet
  have hshape := h.sound.wellShaped hmem
  have hshape' := h.sound.wellShaped hmem'
  have hwithin := h.sound.within hmem
  have hwithin' := h.sound.within hmem'
  have hrow := hshape.rowspan_pos
  have hrow' := hshape'.rowspan_pos
  have hcolumn := hshape.colspan_pos
  have hcolumn' := hshape'.colspan_pos
  have hcov : s.Covers (max s.row s'.row) (max s.column s'.column) := by
    unfold Slot.Covers Slot.endRow Slot.endColumn
    omega
  have hcov' : s'.Covers (max s.row s'.row) (max s.column s'.column) := by
    unfold Slot.Covers Slot.endRow Slot.endColumn
    omega
  have hname := (h.sound.partitioned.cell?_eq_some_iff (Sound.mem_template hmem) _ _).mpr hcov
  have hname' := (h.sound.partitioned.cell?_eq_some_iff (Sound.mem_template hmem') _ _).mpr hcov'
  exact hne (Option.some_injective _ (hname.symm.trans hname'))

theorem disjoint_regionOver (h : g.Laid ws hs) {s s' : GridSlot ε Exact} (hmem : s ∈ g.slots)
    (hmem' : s' ∈ g.slots) (hne : s.name ≠ s'.name) :
    Disjoint (interior (regionOver ws hs s.toSlot).points) (interior (regionOver ws hs s'.toSlot).points) := by
  apply Region.disjoint_interior
  rw [right_regionOver, right_regionOver, bottom_regionOver, bottom_regionOver]
  rcases h.beside_or_above hmem hmem' hne with hle | hle | hle | hle
  · exact .inl (offsetOf_mono h.nonneg_ws hle)
  · exact .inr (.inl (offsetOf_mono h.nonneg_ws hle))
  · exact .inr (.inr (.inl (offsetOf_mono h.nonneg_hs hle)))
  · exact .inr (.inr (.inr (offsetOf_mono h.nonneg_hs hle)))

/-- A point of the box lies in the slot that covers its row and column. -/
theorem exists_mem_regionOver (h : g.Laid ws hs) (hrows : 0 < g.rows.length) (hcolumns : 0 < g.widths.length)
    {p : ℝ × ℝ} (hp : p ∈ Region.points ⟨0, 0, ws.sum, hs.sum⟩) :
    ∃ s ∈ g.slots, p ∈ (regionOver ws hs s.toSlot).points := by
  obtain ⟨x, y⟩ := p
  obtain ⟨⟨hx₀, hx⟩, hy₀, hy⟩ := Region.mem_points_box.mp hp
  have hws : ws ≠ [] := List.length_pos_iff.mp (h.length_ws ▸ hcolumns)
  have hhs : hs ≠ [] := List.length_pos_iff.mp (h.length_hs ▸ hrows)
  obtain ⟨i, hi, hxi, hxi'⟩ := exists_offsetOf_between hws hx₀ hx
  obtain ⟨j, hj, hyj, hyj'⟩ := exists_offsetOf_between hhs hy₀ hy
  have hj' : j < g.template.rowCount := by
    rw [h.length_hs] at hj
    exact hj.trans_eq (List.length_map _).symm
  obtain ⟨slot, ⟨hslot, hcov⟩, -⟩ :=
    h.sound.partitioned.existsUnique_covers hj' (hi.trans_eq h.length_ws)
  obtain ⟨s, hmem, rfl⟩ := List.mem_map.mp hslot
  obtain ⟨hr₁, hr₂, hc₁, hc₂⟩ := hcov
  have hshape := h.sound.wellShaped hmem
  have hrow : j + 1 ≤ s.row + s.rowspan := by
    have := hshape.rowspan_pos
    unfold Slot.endRow at hr₂
    omega
  have hcolumn : i + 1 ≤ s.column + s.colspan := by
    have := hshape.colspan_pos
    unfold Slot.endColumn at hc₂
    omega
  refine ⟨s, hmem, mem_points_regionOver.mpr ⟨⟨?_, ?_⟩, ?_, ?_⟩⟩
  · exact (Rat.cast_le.mpr (offsetOf_mono h.nonneg_ws hc₁)).trans hxi
  · exact hxi'.trans (Rat.cast_le.mpr (offsetOf_mono h.nonneg_ws hcolumn))
  · exact (Rat.cast_le.mpr (offsetOf_mono h.nonneg_hs hr₁)).trans hyj
  · exact hyj'.trans (Rat.cast_le.mpr (offsetOf_mono h.nonneg_hs hrow))

theorem tiled (h : g.Laid ws hs) (hrows : 0 < g.rows.length) (hcolumns : 0 < g.widths.length) :
    g.Tiled ⟨ws.sum, hs.sum⟩ := by
  refine ⟨h.width_eq, h.height_eq, ?_, ?_, ?_⟩
  · intro s hmem
    exact ⟨_, h.region?_eq hmem, h.points_subset hmem⟩
  · intro s hmem s' hmem' hne r r' hr hr'
    rw [h.eq_regionOver hmem hr, h.eq_regionOver hmem' hr']
    exact h.disjoint_regionOver hmem hmem' hne
  · intro p hp
    obtain ⟨s, hmem, hps⟩ := h.exists_mem_regionOver hrows hcolumns hp
    exact ⟨s, hmem, _, h.region?_eq hmem, hps⟩

end Laid

/-! ## Both passes -/

variable {m m' : Measure ε Exact} {container : ε}

theorem total_slice (qs : List ℚ) (index count : ℕ) :
    Quantity.total (((qs.map Exact.finite).drop index).take count) =
      .finite ((qs.drop index).take count).sum := by
  rw [Exact.total_eq_sum, ← List.map_drop, ← List.map_take, Exact.sum_map_finite]

theorem width_widened {widths : List Exact} {s : GridSlot ε Exact}
    (hs : s ∈ ((g.widened m container widths).heightened m' container).slots) :
    s.width = some (Quantity.total ((widths.drop s.column).take s.colspan)) := by
  let f (s : GridSlot ε Exact) : Option Exact × ℕ × ℕ := (s.width, s.column, s.colspan)
  have hmap := map_slots_heightened m' container (g.widened m container widths) f fun _ _ => rfl
  have hmem := List.mem_map_of_mem (f := f) hs
  rw [hmap, slots_widened, List.map_map] at hmem
  obtain ⟨s₀, -, hs₀⟩ := List.mem_map.mp hmem
  simp only [f, Function.comp_apply, Prod.mk.injEq] at hs₀
  obtain ⟨hwidth, hcolumn, hcolspan⟩ := hs₀
  rw [← hwidth, ← hcolumn, ← hcolspan]
  rfl

theorem exists_laid {widths : List Exact} (hg : g.Sound)
    (hl : widths.length = (g.extents m container).length) (hw : ∀ w ∈ widths, w.IsSize) (hm' : m'.Sizes)
    (hrows : (g.widened m container widths).LengthRowsSuffice m' container) :
    ∃ ws hs, ((g.widened m container widths).heightened m' container).Laid ws hs := by
  obtain ⟨ws, hws, rfl⟩ := Exact.IsSize.exists_map_finite hw
  have hsound : (g.widened m container (ws.map .finite)).Sound := hg.widened hl
  have hsizes : ∀ s ∈ (g.widened m container (ws.map .finite)).slots, ∀ w, s.width = some w → w.IsSize := by
    rw [slots_widened, List.forall_mem_map]
    intro s _ w hsw
    cases hsw
    rw [total_slice]
    refine ⟨_, List.sum_nonneg fun q hq => hws q ?_, rfl⟩
    exact List.mem_of_mem_drop (List.mem_of_mem_take hq)
  have hsettled := settled_heightened hsound hm' hsizes hrows
  obtain ⟨hs, hhs, hheights⟩ := Exact.IsSize.exists_map_finite (List.forall_mem_map.mpr hsettled.sized)
  refine ⟨ws, hs, hsound.heightened, hws, hhs, columnWidths_widened hl, hheights, ?_, ?_, ?_, ?_, ?_⟩
  · exact ((List.length_map _).symm.trans hl).trans (length_extents hg)
  · exact (Exact.total_eq_sum _).trans (Exact.sum_map_finite ws)
  · rw [hsettled.height, hheights, Exact.sum_map_finite]
  · intro s hmem
    rw [width_widened hmem, total_slice]
  · intro s hmem
    rw [hsettled.slots s hmem]
    unfold Slot.spannedHeight Slot.spannedRows
    rw [List.map_take, List.map_drop, hheights, total_slice]

/-- Sizing a grid with elements by measures that answer with sizes makes its slots tile its box, unless content
of a slot is taller than its rows and none of these may grow. -/
theorem slots_tile_box (config : Config) (hg : g.Reached Measure.Sizes) (hmat : g.Materialized) (hm : m.Sizes)
    (hm' : m'.Sizes) (hc : g.element = some container) :
    ∃ g₁, g.sizeColumns m config = .ok g₁ ∧
      (g₁.LengthRowsSuffice m' container → ∃ g₂ box, g₁.sizeRows m' = .ok g₂ ∧ g₂.Tiled box) := by
  obtain ⟨c, widths, hc', hl, hfit, hsize⟩ := exists_sizeColumns m config hg.sound hmat
  obtain rfl : c = container := Option.some_injective _ (hc'.symm.trans hc)
  have hlength : (g.extents m c).length = g.widths.length := length_extents hg.sound
  have hwidths : ∀ w ∈ widths, w.IsSize :=
    isSize_fitColumns (hm.available c) (fun x hx => isBounded_extents hm hg.bounded hx)
      (hlength ▸ lt_roundLimit config _) hfit
  have hsound : (g.widened m c widths).Sound := hg.sound.widened (hl.trans hlength.symm)
  refine ⟨_, hsize, fun hrows => ?_⟩
  obtain ⟨ws, hs, hlaid⟩ := exists_laid hg.sound (hl.trans hlength.symm) hwidths hm' hrows
  have hset : ∀ s ∈ (g.widened m c widths).slots, s.isEmpty = false → s.width.isSome := by
    rw [slots_widened, List.forall_mem_map]
    exact fun _ _ _ => rfl
  obtain ⟨_, _, _, _, ht⟩ := hg.exists_ofRows
  obtain ⟨hpos, hpos'⟩ := Template.pos_of_ofRows ht
  refine ⟨_, _, sizeRows_eq_ok hsound hmat.widened hset hc, hlaid.tiled ?_ hpos'⟩
  have hcount := congrArg List.length (map_toRow_heightened m' c (g.widened m c widths))
  rw [List.length_map, List.length_map] at hcount
  rw [hcount]
  exact hpos.trans_eq (List.length_map _)

/-- A slot beside two rows of which one may grow. -/
def besideRows : Grid Unit Exact :=
  (ofTemplate
    { selector := "body", css := "", rows := [⟨['a', 'b'], .length ⟨10, .px⟩⟩, ⟨['a', '.'], .auto⟩]
      widths := [.minContent, .equal]
      slots := ⟨[⟨'a', 0, 0, 2, 1, 1, 0⟩, .single 'b' 0 1, .single '.' 1 1]⟩ }).occupied ()

theorem slots_tile_besideRows :
    ∃ g₁, besideRows.sizeColumns (.uniform 60 10 40 10 30) .standard = .ok g₁ ∧
      ∃ g₂ box, g₁.sizeRows (.uniform 60 10 40 10 30) = .ok g₂ ∧ g₂.Tiled box := by
  have hbuilt : Template.ofRows "body" "" [⟨['a', 'b'], .length ⟨10, .px⟩⟩, ⟨['a'], .auto⟩] [.minContent] =
      .ok _ := rfl
  have hm : (Measure.uniform 60 10 40 10 30).Sizes :=
    Measure.sizes_uniform (by decide) (by decide) (by decide) (by decide) (by decide)
  obtain ⟨g₁, hg₁, htile⟩ := slots_tile_box .standard ((Reached.built hbuilt).occupied ())
    (materialized_occupied () _) hm hm rfl
  refine ⟨g₁, hg₁, htile ?_⟩
  obtain ⟨_, widths, -, -, rfl⟩ := eq_widened hg₁
  have hgrows : ∀ s ∈ besideRows.slots, 1 < s.rowspan →
      ∃ r ∈ s.spannedRows besideRows.rows, r.height.mayGrow = true := by decide
  unfold LengthRowsSuffice
  rw [slots_widened, List.forall_mem_map]
  intro s hs ht hfixed
  obtain ⟨r, hr, hgrow⟩ := hgrows s hs ht
  exact absurd ((hfixed r hr).symm.trans hgrow) Bool.false_ne_true

end Grid

end SlotGrid
