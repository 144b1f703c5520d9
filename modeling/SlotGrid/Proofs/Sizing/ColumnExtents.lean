import SlotGrid.Proofs.Sizing.ColumnWidths

/-! # Extents of columns

The width of a column asks for an extent, which for some widths is that of the slots that cover the column. Columns
that do not fit with their minimums get exactly these; others take what is available, or what they prefer if that is
less.
-/

namespace SlotGrid

variable {ε : Type} {m : Measure ε Exact} {g g' : Grid ε Exact} {container : ε}

/-! ## What is measured -/

/-- The extent that a measure gives to a slot. The empty slot has none, and a slot of several columns sets no lower
bound to them. -/
inductive GridSlot.HasExtent (m : Measure ε Exact) (s : GridSlot ε Exact) : Extent Exact → Prop
  | empty (h : s.isEmpty = true) : s.HasExtent m ⟨0, 0⟩
  | single {e : ε} (h : s.isEmpty = false) (he : s.element = some e) (hspan : s.colspan = 1) :
      s.HasExtent m ⟨m.minimum e, m.preferred e⟩
  | spanning {e : ε} (h : s.isEmpty = false) (he : s.element = some e) (hspan : 1 < s.colspan) :
      s.HasExtent m ⟨0, m.preferred e⟩

theorem GridSlot.hasExtent_iff {s : GridSlot ε Exact} (hextent : s.extent = none) (hspan : 0 < s.colspan)
    (he : s.isEmpty = false → s.element.isSome) {x : Extent Exact} : s.HasExtent m x ↔ s.intrinsicExtent m = x := by
  unfold intrinsicExtent
  rw [hextent, Option.getD_none]
  constructor
  · rintro (h | ⟨h, he, hspan⟩ | ⟨h, he, hspan⟩)
    · rw [if_pos h]
    · simp [h, he, hspan]
    · simp [h, he, hspan]
  · rintro rfl
    by_cases h : s.isEmpty = true
    · rw [if_pos h]
      exact .empty h
    · have h := Bool.eq_false_iff.mpr h
      obtain ⟨e, he⟩ := Option.isSome_iff_exists.mp (he h)
      simp only [h, he, Bool.false_eq_true, if_false, Option.elim_some]
      split_ifs with hmore
      · exact .spanning h he hmore
      · exact .single h he (by omega)

/-- The extent that the width of a column asks for, over the extents of the slots that cover the column. -/
inductive Width.AsksFor (m : Measure ε Exact) (container : ε) (contents : Set (Extent Exact)) :
    Width → Extent Exact → Prop
  | length (l : Length) : AsksFor m container contents (.length l) ⟨m.resolve l container, m.resolve l container⟩
  | equal : AsksFor m container contents .equal ⟨0, .infinite⟩
  | minContent {w : Exact} (h : IsGreatest (Extent.minimum '' contents) w) :
      AsksFor m container contents .minContent ⟨w, w⟩
  | maxContent {w : Exact} (h : IsGreatest (Extent.preferred '' contents) w) :
      AsksFor m container contents .maxContent ⟨w, w⟩
  | fitContent {low high : Exact} (hlow : IsGreatest (Extent.minimum '' contents) low)
      (hhigh : IsGreatest (Extent.preferred '' contents) high) : AsksFor m container contents .fitContent ⟨low, high⟩
  | minMax (low high : Length) :
      AsksFor m container contents (.minMax low high) ⟨m.resolve low container, m.resolve high container⟩

namespace Grid

/-- The extents of the slots that cover a column. -/
def contentsAt (m : Measure ε Exact) (g : Grid ε Exact) (column : ℕ) : Set (Extent Exact) :=
  {x | ∃ s ∈ g.slots, s.column ≤ column ∧ column ≤ s.endColumn ∧ s.HasExtent m x}

/-- The extent that an earlier width pass has found for a column. -/
def keptExtent? {α : Type} [Quantity α] (g : Grid ε α) (column : ℕ) : Option (Extent α) :=
  g.builtColumns[column]?.bind GridColumn.extent

/-! ## The slots of a column -/

section Slots

variable {α : Type} [Quantity α] {g : Grid ε α} {c : GridColumn α} {column : ℕ}

/-- Slots are measured in the passes that measure columns. -/
theorem Reached.extent_eq_none {kind : Measure ε α → Prop} (hg : g.Reached kind) :
    ∀ c ∈ g.builtColumns, c.extent = none → ∀ s ∈ g.slots, s.extent = none := by
  have of_map : ∀ {g g' : Grid ε α}, g'.slots.map (·.extent) = g.slots.map (·.extent) →
      (∀ s ∈ g.slots, s.extent = none) → ∀ s ∈ g'.slots, s.extent = none := by
    intro g g' hmap h s hs
    have hmem := List.mem_map_of_mem (f := (·.extent)) hs
    rw [hmap] at hmem
    obtain ⟨s', hs', heq⟩ := List.mem_map.mp hmem
    exact heq.symm.trans (h s' hs')
  induction hg with
  | built h =>
    intro c hc hx s hs
    obtain ⟨s, -, rfl⟩ := List.mem_map.mp hs
    rfl
  | @named g id slotInfix hg ih =>
    intro c hc hx
    rw [builtColumns_congr (template_named g id slotInfix) rfl] at hc
    refine of_map ?_ (ih c hc hx)
    unfold Grid.named
    rw [List.map_map]
    rfl
  | @attached g element slots hg h ih =>
    intro c hc hx
    rw [builtColumns_congr (template_attached element h) rfl] at hc
    exact of_map (map_slots_of_detached h (·.extent) fun _ => rfl) (ih c hc hx)
  | withColumns hg ih => exact ih
  | sizedColumns hg hm h ih =>
    obtain ⟨container, widths, -, hw, rfl⟩ := eq_widened h
    intro c hc hx
    have hmem := List.mem_map_of_mem (f := GridColumn.extent) hc
    rw [show (Grid.widened _ _ _ _).builtColumns = widenedColumns _ _ _ _ from rfl,
      map_extent_widenedColumns (length_fitColumns hw), hx] at hmem
    obtain ⟨_, -, hnone⟩ := List.mem_map.mp hmem
    cases hnone
  | @sizedRows g g' m hg h ih =>
    obtain ⟨container, -, rfl⟩ := eq_heightened hg.sound h
    intro c hc hx
    rw [builtColumns_congr (template_heightened m container g) rfl] at hc
    exact of_map (map_slots_heightened m container g (·.extent) fun _ _ => rfl) (ih c hc hx)

theorem Sound.names_eq (hg : g.Sound) (hc : g.builtColumns[column]? = some c) :
    g.widths[column]? = some c.width ∧ c.names = g.template.namesInColumn column := by
  have hfresh := congrArg (·[column]?) hg.map_fresh_builtColumns
  simp only [List.getElem?_map, hc, Option.map_some, freshColumns, List.getElem?_mapIdx] at hfresh
  obtain ⟨w, hw, hcolumn⟩ := Option.map_eq_some_iff.mp hfresh.symm
  have hwidth : w = c.width := congrArg GridColumn.width hcolumn
  have hnames : g.template.namesInColumn column = c.names := congrArg GridColumn.names hcolumn
  exact ⟨hwidth ▸ hw, hnames.symm⟩

/-- The slots that are named in a column are those that cover it. -/
theorem Sound.mem_namesInColumn (hg : g.Sound) {s : GridSlot ε α} (hs : s ∈ g.slots) :
    s.name ∈ g.template.namesInColumn column ↔ s.column ≤ column ∧ column ≤ s.endColumn := by
  have hcell := hg.partitioned.cell?_eq_some_iff (Sound.mem_template hs)
  have hspan := (hg.wellShaped hs).rowspan_pos
  unfold Template.namesInColumn
  rw [Keyed.mem_distinct, List.mem_filterMap]
  constructor
  · rintro ⟨r, hr, hname⟩
    obtain ⟨i, hi, rfl⟩ := List.getElem_of_mem hr
    have hcovers := (hcell i column).mp (by simp [Template.cell?, hi, hname])
    exact hcovers.2.2
  · intro hcolumns
    have hcovers : s.Covers s.row column := ⟨le_rfl, by unfold Slot.endRow; omega, hcolumns⟩
    obtain ⟨r, hr, hname⟩ := Option.bind_eq_some_iff.mp ((hcell s.row column).mpr hcovers)
    exact ⟨r, List.mem_of_getElem? hr, hname⟩

theorem Sound.mem_contents (hg : g.Sound) (m : Measure ε α) (hc : g.builtColumns[column]? = some c) {x : Extent α} :
    x ∈ c.contents (g.measuredSlots m) ↔
      ∃ s ∈ g.slots, s.column ≤ column ∧ column ≤ s.endColumn ∧ s.intrinsicExtent m = x := by
  have hnodup : ((g.measuredSlots m).map (·.name)).Nodup := by
    unfold measuredSlots
    rw [List.map_map]
    exact hg.nodup_names
  unfold GridColumn.contents
  rw [(hg.names_eq hc).2, List.mem_filterMap]
  constructor
  · rintro ⟨name, hname, hx⟩
    obtain ⟨s', hs', hextent⟩ := Option.bind_eq_some_iff.mp hx
    obtain ⟨hmem, rfl⟩ := Keyed.mem_of_get? _ hs'
    obtain ⟨s, hs, rfl⟩ := List.mem_map.mp hmem
    obtain ⟨hleft, hright⟩ := (hg.mem_namesInColumn hs).mp hname
    exact ⟨s, hs, hleft, hright, Option.some.inj hextent⟩
  · rintro ⟨s, hs, hleft, hright, rfl⟩
    refine ⟨s.name, (hg.mem_namesInColumn hs).mpr ⟨hleft, hright⟩, ?_⟩
    have hget := Keyed.get?_of_mem (·.name) hnodup (List.mem_map_of_mem (f := (·.measured m)) hs)
    exact Option.bind_eq_some_iff.mpr ⟨_, hget, rfl⟩

end Slots

/-! ## The extent of a column -/

variable {c : GridColumn Exact} {column : ℕ}

theorem exists_covering (hg : g.Reached Measure.Sizes) (hc : column < g.widths.length) :
    ∃ s ∈ g.slots, s.column ≤ column ∧ column ≤ s.endColumn := by
  obtain ⟨_, _, _, _, ht⟩ := hg.exists_ofRows
  obtain ⟨_, ⟨hmem, hcovers⟩, -⟩ := hg.sound.partitioned.existsUnique_covers (Template.pos_of_ofRows ht).1 hc
  obtain ⟨s, hs, rfl⟩ := List.mem_map.mp hmem
  exact ⟨s, hs, hcovers.2.2⟩

/-- A column that was not measured before has the extent that its width asks for. -/
theorem asksFor_ruledExtent (hg : g.Reached Measure.Sizes) (hmat : g.Materialized) (hm : m.Sizes)
    (hc : g.builtColumns[column]? = some c) (hx : c.extent = none) :
    c.width.AsksFor m container (g.contentsAt m column) (c.ruledExtent m container (g.measuredSlots m)) := by
  have hslots := hg.extent_eq_none c (List.mem_of_getElem? hc) hx
  have hcontents : {x | x ∈ c.contents (g.measuredSlots m)} = g.contentsAt m column := by
    ext x
    refine (hg.sound.mem_contents m hc).trans (exists_congr fun s => ?_)
    constructor
    · rintro ⟨hs, hleft, hright, hextent⟩
      exact ⟨hs, hleft, hright,
        (GridSlot.hasExtent_iff (hslots s hs) (hg.sound.wellShaped hs).colspan_pos (hmat.slots s hs)).mpr hextent⟩
    · rintro ⟨hs, hleft, hright, hextent⟩
      exact ⟨hs, hleft, hright,
        (GridSlot.hasExtent_iff (hslots s hs) (hg.sound.wellShaped hs).colspan_pos (hmat.slots s hs)).mp hextent⟩
  have hne : c.contents (g.measuredSlots m) ≠ [] := by
    have hcolumn := (List.getElem?_eq_some_iff.mp (hg.sound.names_eq hc).1).1
    obtain ⟨s, hs, hleft, hright⟩ := exists_covering hg hcolumn
    exact List.ne_nil_of_mem ((hg.sound.mem_contents m hc).mpr ⟨s, hs, hleft, hright, rfl⟩)
  have hsizes : ∀ x ∈ c.contents (g.measuredSlots m), x.IsSize := fun x hx => isSize_contents hm hg.bounded hx
  have hgreatest : ∀ f : Extent Exact → Exact, (∀ x : Extent Exact, x.IsSize → 0 ≤ f x) →
      IsGreatest (f '' g.contentsAt m column) (Quantity.largest ((c.contents (g.measuredSlots m)).map f)) := by
    intro f hf
    have himage : f '' g.contentsAt m column = {w | w ∈ (c.contents (g.measuredSlots m)).map f} := by
      rw [← hcontents]
      ext w
      simp
    rw [himage]
    refine Exact.isGreatest_largest (by simpa using hne) (List.forall_mem_map.mpr fun x hx => hf x (hsizes x hx))
  have hleast := hgreatest Extent.minimum fun x hx => hx.minimum.nonneg
  have hmost := hgreatest Extent.preferred fun x hx => hx.preferred.nonneg
  unfold GridColumn.ruledExtent
  cases c.width with
  | length l => exact .length l
  | equal => exact .equal
  | minContent => exact .minContent hleast
  | maxContent => exact .maxContent hmost
  | fitContent => exact .fitContent hleast hmost
  | minMax low high => exact .minMax low high

/-! ## The pass -/

/-- A width pass on a grid with these columns and their extents: an extent that was found before is kept, others are
those that the widths ask for. -/
structure ColumnsSized (m : Measure ε Exact) (container : ε) (g g' : Grid ε Exact) (cs : List (GridColumn Exact))
    (xs : List (Extent Exact)) : Prop where
  template_eq : g'.template = g.template
  columns_eq : g'.columns = some cs
  widths_eq : cs.map GridColumn.width = g.widths
  extents_eq : cs.map GridColumn.extent = xs.map some
  kept : ∀ column x, g.keptExtent? column = some x → xs[column]? = some x
  asked : ∀ column w, g.widths[column]? = some w → g.keptExtent? column = none →
    ∃ x, xs[column]? = some x ∧ w.AsksFor m container (g.contentsAt m column) x
  overflow : m.available container < (xs.map Extent.minimum).sum →
    cs.map GridColumn.computed = xs.map Extent.minimum
  fit : (xs.map Extent.minimum).sum ≤ m.available container →
    (cs.map GridColumn.computed).sum = min (m.available container) (xs.map Extent.preferred).sum
  slots : ∀ s ∈ g'.slots, s.width = some (((cs.map GridColumn.computed).drop s.column).take s.colspan).sum
  width : g'.width = (cs.map GridColumn.computed).sum

/-- The width pass gives every column the extent that its width asks for, and all columns their minimums or, if these
fit, widths that total what is available or preferred, whichever is less. Slots are as wide as the columns that they
cover, and the grid is as wide as all columns. -/
theorem columns_sized (config : Config) (hg : g.Reached Measure.Sizes) (hmat : g.Materialized) (hm : m.Sizes)
    (hc : g.element = some container) :
    ∃ g' cs xs, g.sizeColumns m config = .ok g' ∧ ColumnsSized m container g g' cs xs := by
  obtain ⟨c', widths, hc', hl, hw, hg'⟩ := exists_sizeColumns m config hg.sound hmat
  obtain rfl : c' = container := Option.some_injective _ (hc'.symm.trans hc)
  have hlength : (g.extents m c').length = g.widths.length := length_extents hg.sound
  rw [← hlength] at hl
  have hcomputed := map_computed_widenedColumns hl
  refine ⟨_, g.widenedColumns m c' widths, g.extents m c', hg', ?_⟩
  constructor
  case template_eq => exact template_widened m c' widths g
  case columns_eq => rfl
  case widths_eq =>
    have hfresh := congrArg (List.map GridColumn.width)
      ((map_fresh_widenedColumns hl).trans hg.sound.map_fresh_builtColumns)
    rw [List.map_map] at hfresh
    refine hfresh.trans (List.ext_getElem? fun column => ?_)
    simp [freshColumns, Function.comp_def]
  case extents_eq => exact map_extent_widenedColumns hl
  case kept =>
    intro column x hx
    obtain ⟨c, hc, hx⟩ := Option.bind_eq_some_iff.mp hx
    simp [extents, hc, GridColumn.currentExtent, hx]
  case asked =>
    intro column w hwidth hnone
    have hcolumn : column < g.builtColumns.length := by
      rw [hg.sound.length_builtColumns]
      exact (List.getElem?_eq_some_iff.mp hwidth).1
    obtain ⟨c, hcolumn⟩ : ∃ c, g.builtColumns[column]? = some c := ⟨_, List.getElem?_eq_getElem hcolumn⟩
    have hx : c.extent = none := by simpa [keptExtent?, hcolumn] using hnone
    have hcw := hwidth.symm.trans (hg.sound.names_eq hcolumn).1
    refine ⟨c.ruledExtent m c' (g.measuredSlots m), ?_, ?_⟩
    · simp [extents, hcolumn, GridColumn.currentExtent, hx]
    · rw [Option.some.inj hcw]
      exact asksFor_ruledExtent hg hmat hm hcolumn hx
  case overflow =>
    intro hover
    unfold fitColumns at hw
    rw [Exact.total_eq_sum, if_pos hover] at hw
    rw [hcomputed]
    exact (Except.ok.inj hw).symm
  case fit =>
    intro hfit
    obtain ⟨level, -, hfill, hsum⟩ := fitColumns_of_le (hm.available c').nonneg
      (hlength ▸ lt_roundLimit config _ : (g.extents m c').length < config.roundLimit g.widths.length) hfit
    rw [hcomputed, Except.ok.inj (hw.symm.trans hfill)]
    exact hsum
  case slots =>
    rw [slots_widened, List.forall_mem_map, hcomputed]
    intro s hs
    rw [Exact.total_eq_sum]
    rfl
  case width =>
    rw [hcomputed]
    exact Exact.total_eq_sum widths

/-- A slot of two columns above two slots of one. -/
def belowSpanning : Grid Unit Exact :=
  (ofTemplate
    { selector := "body", css := "", rows := [⟨['a', 'a'], .auto⟩, ⟨['b', 'c'], .auto⟩]
      widths := [.fitContent, .minContent]
      slots := ⟨[⟨'a', 0, 0, 1, 2, 0, 1⟩, .single 'b' 1 0, .single 'c' 1 1]⟩ }).occupied ()

theorem columns_sized_belowSpanning :
    ∃ g' cs xs, belowSpanning.sizeColumns (.uniform 100 50 40 10 20) .standard = .ok g' ∧
      ColumnsSized (.uniform 100 50 40 10 20) () belowSpanning g' cs xs := by
  have hbuilt : Template.ofRows "body" "" [⟨['a', 'a'], .auto⟩, ⟨['b', 'c'], .auto⟩] [.fitContent, .minContent] =
      .ok _ := rfl
  have hm : (Measure.uniform 100 50 40 10 20).Sizes :=
    Measure.sizes_uniform (by decide) (by decide) (by decide) (by decide) (by decide)
  exact columns_sized .standard ((Reached.built hbuilt).occupied ()) (materialized_occupied () _) hm rfl

end Grid

end SlotGrid
