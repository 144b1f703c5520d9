import SlotGrid.Proofs.Sizing.Reached

/-! # Exact column widths

With exact numbers a width pass either gives all columns their minimums or fills them up to a level. Measures
that answer with sizes lead to sizes.
-/

namespace SlotGrid

variable {ε : Type} {m : Measure ε Exact} {g g' : Grid ε Exact} {container : ε}

/-- Whether the answers of a measure are finite and not negative. -/
structure Measure.Sizes (m : Measure ε Exact) : Prop where
  available : ∀ e, (m.available e).IsSize
  resolve : ∀ l e, (m.resolve l e).IsSize
  preferred : ∀ e, (m.preferred e).IsSize
  minimum : ∀ e, (m.minimum e).IsSize
  contentHeight : ∀ e w, w.IsSize → (m.contentHeight e w).IsSize

/-- An extent of some content. -/
structure Extent.IsSize (x : Extent Exact) : Prop where
  minimum : x.minimum.IsSize
  preferred : x.preferred.IsSize

/-- An extent of some column, whose preferred width may be infinite. -/
structure Extent.IsBounded (x : Extent Exact) : Prop where
  minimum : x.minimum.IsSize
  preferred : 0 ≤ x.preferred

namespace Grid

/-- The extents that a grid keeps are bounded. -/
structure Bounded (g : Grid ε Exact) : Prop where
  slots : ∀ s ∈ g.slots, ∀ x, s.extent = some x → x.IsSize
  columns : ∀ c ∈ g.builtColumns, ∀ x, c.extent = some x → x.IsBounded

theorem extent_freshColumns {α : Type} [Quantity α] {g : Grid ε α} {c : GridColumn α}
    (hc : c ∈ g.freshColumns) : c.extent = none := by
  obtain ⟨i, _, _, rfl⟩ := List.mem_mapIdx.mp hc
  rfl

theorem bounded_ofTemplate (t : Template) : (ofTemplate t : Grid ε Exact).Bounded := by
  constructor
  · intro s hs x hx
    obtain ⟨s, _, rfl⟩ := List.mem_map.mp hs
    cases hx
  · intro c hc x hx
    rw [extent_freshColumns hc] at hx
    cases hx

theorem Bounded.of_map_extent (hb : g.Bounded) (hs : g'.slots.map (·.extent) = g.slots.map (·.extent))
    (hc : g'.builtColumns = g.builtColumns) : g'.Bounded := by
  refine ⟨fun s' hs' x hx => ?_, hc ▸ hb.columns⟩
  have hmem : some x ∈ g.slots.map (·.extent) := hs ▸ List.mem_map.mpr ⟨s', hs', hx⟩
  obtain ⟨s, hs, hsx⟩ := List.mem_map.mp hmem
  exact hb.slots s hs x hsx

theorem isSize_intrinsicExtent (hm : m.Sizes) (hb : g.Bounded) {s : GridSlot ε Exact} (hs : s ∈ g.slots) :
    (s.intrinsicExtent m).IsSize := by
  have hzero : Extent.IsSize ⟨0, 0⟩ := ⟨Exact.IsSize.zero, Exact.IsSize.zero⟩
  unfold GridSlot.intrinsicExtent
  cases hx : s.extent with
  | some x => exact hb.slots s hs x hx
  | none =>
    rw [Option.getD_none]
    by_cases he : s.isEmpty = true
    · rwa [if_pos he]
    · rw [if_neg he]
      cases s.element with
      | none => exact hzero
      | some e =>
        refine ⟨?_, hm.preferred e⟩
        change Exact.IsSize (if 1 < s.colspan then 0 else m.minimum e)
        split_ifs
        · exact Exact.IsSize.zero
        · exact hm.minimum e

theorem isSize_contents (hm : m.Sizes) (hb : g.Bounded) {c : GridColumn Exact} {x : Extent Exact}
    (hx : x ∈ c.contents (g.measuredSlots m)) : x.IsSize := by
  obtain ⟨name, -, hx⟩ := List.mem_filterMap.mp hx
  obtain ⟨s', hs', hx⟩ := Option.bind_eq_some_iff.mp hx
  obtain ⟨s, hs, rfl⟩ := List.mem_map.mp (Keyed.mem_of_get? _ hs').1
  cases hx
  exact isSize_intrinsicExtent hm hb hs

theorem isBounded_extents (hm : m.Sizes) (hb : g.Bounded) {x : Extent Exact}
    (hx : x ∈ g.extents m container) : x.IsBounded := by
  obtain ⟨c, hc, rfl⟩ := List.mem_map.mp hx
  unfold GridColumn.currentExtent
  cases hcx : c.extent with
  | some x => exact hb.columns c hc x hcx
  | none =>
    have hleast : (Quantity.largest ((c.contents (g.measuredSlots m)).map Extent.minimum)).IsSize := by
      refine Exact.IsSize.largest (List.forall_mem_map.mpr fun x hx => ?_)
      exact (isSize_contents hm hb hx).minimum
    have hmost : (Quantity.largest ((c.contents (g.measuredSlots m)).map Extent.preferred)).IsSize := by
      refine Exact.IsSize.largest (List.forall_mem_map.mpr fun x hx => ?_)
      exact (isSize_contents hm hb hx).preferred
    simp only [Option.getD_none]
    unfold GridColumn.ruledExtent
    cases c.width with
    | length l => exact ⟨hm.resolve l container, (hm.resolve l container).nonneg⟩
    | equal => exact ⟨Exact.IsSize.zero, Exact.le_infinite 0⟩
    | minContent => exact ⟨hleast, hleast.nonneg⟩
    | maxContent => exact ⟨hmost, hmost.nonneg⟩
    | fitContent => exact ⟨hleast, hmost.nonneg⟩
    | minMax low high => exact ⟨hm.resolve low container, (hm.resolve high container).nonneg⟩

theorem Bounded.widened (hm : m.Sizes) (hb : g.Bounded) {widths : List Exact}
    (hl : widths.length = (g.extents m container).length) : (g.widened m container widths).Bounded := by
  constructor
  · intro s' hs' x hx
    rw [slots_widened] at hs'
    obtain ⟨s, hs, rfl⟩ := List.mem_map.mp hs'
    cases hx
    exact isSize_intrinsicExtent hm hb hs
  · intro c hc x hx
    have hmem : some x ∈ (g.widenedColumns m container widths).map GridColumn.extent :=
      List.mem_map.mpr ⟨c, hc, hx⟩
    rw [map_extent_widenedColumns hl] at hmem
    obtain ⟨y, hy, hyx⟩ := List.mem_map.mp hmem
    cases hyx
    exact isBounded_extents hm hb hy

/-- A grid keeps bounded extents if its widths are computed by measures that answer with sizes. -/
theorem Reached.bounded (hg : g.Reached Measure.Sizes) : g.Bounded := by
  induction hg with
  | built h => exact bounded_ofTemplate _
  | @named g id slotInfix hg ih =>
    refine ih.of_map_extent ?_ (builtColumns_congr (template_named g id slotInfix) rfl)
    unfold Grid.named
    rw [List.map_map]
    rfl
  | @attached g element slots hg h ih =>
    refine ih.of_map_extent (map_slots_of_detached h (·.extent) fun _ => rfl) (builtColumns_congr ?_ rfl)
    exact template_attached element h
  | withColumns hg ih => exact ih.of_map_extent rfl rfl
  | sizedColumns hg hm h ih =>
    obtain ⟨container, widths, -, hw, rfl⟩ := eq_widened h
    exact ih.widened hm (length_fitColumns hw)
  | @sizedRows g g' m hg h ih =>
    obtain ⟨container, -, rfl⟩ := eq_heightened hg.sound h
    exact ih.of_map_extent (map_slots_heightened m container g (·.extent) fun _ _ => rfl)
      (builtColumns_congr (template_heightened m container g) rfl)

/-- Columns of bounded extents get sizes as widths. -/
theorem isSize_fitColumns {available : Exact} {cap : ℕ} {extents : List (Extent Exact)} {widths : List Exact}
    (ha : available.IsSize) (hx : ∀ x ∈ extents, x.IsBounded) (hcap : extents.length < cap)
    (h : fitColumns available cap extents = .ok widths) : ∀ w ∈ widths, w.IsSize := by
  unfold fitColumns at h
  split_ifs at h
  · cases h
    exact List.forall_mem_map.mpr fun x hmem => (hx x hmem).minimum
  · have hcap' : (extents.map Extent.preferred).length < cap := by rwa [List.length_map]
    obtain ⟨v, hv, hw, hsum⟩ := Widening.exists_level (extents.map Extent.preferred) ha.nonneg hcap'
    rw [hw] at h
    cases h
    have hv₀ : 0 ≤ v := (Exact.div_natCast_nonneg ha.nonneg _).trans hv
    have hnonneg : ∀ w ∈ (extents.map Extent.preferred).map (min · v), 0 ≤ w := by
      simp only [List.forall_mem_map]
      exact fun x hmem => le_min (hx x hmem).preferred hv₀
    intro w hmem
    have hle : w ≤ available :=
      calc w ≤ ((extents.map Extent.preferred).map (min · v)).sum := List.single_le_sum hnonneg w hmem
        _ = min available (extents.map Extent.preferred).sum := hsum
        _ ≤ available := min_le_left _ _
    exact ha.of_le (hnonneg w hmem) hle

end Grid

/-! ## The level of the columns -/

/-- A measure to which all elements are alike. -/
def Measure.uniform (available length preferred minimum height : ℚ) : Measure Unit Exact where
  available _ := .finite available
  resolve _ _ := .finite length
  preferred _ := .finite preferred
  minimum _ := .finite minimum
  contentHeight _ _ := .finite height

theorem Measure.sizes_uniform {available length preferred minimum height : ℚ} (ha : 0 ≤ available)
    (hl : 0 ≤ length) (hp : 0 ≤ preferred) (hm : 0 ≤ minimum) (hh : 0 ≤ height) :
    (uniform available length preferred minimum height).Sizes :=
  ⟨fun _ => ⟨_, ha, rfl⟩, fun _ _ => ⟨_, hl, rfl⟩, fun _ => ⟨_, hp, rfl⟩, fun _ => ⟨_, hm, rfl⟩,
    fun _ _ _ => ⟨_, hh, rfl⟩⟩

namespace Grid

theorem fitColumns_of_le {available : Exact} {cap : ℕ} {extents : List (Extent Exact)} (ha : 0 ≤ available)
    (hcap : extents.length < cap) (hfit : (extents.map Extent.minimum).sum ≤ available) :
    ∃ level, available / (extents.length : Exact) ≤ level ∧
      fitColumns available cap extents = .ok (extents.map fun x => min x.preferred level) ∧
      (extents.map fun x => min x.preferred level).sum = min available (extents.map Extent.preferred).sum := by
  have hcap' : (extents.map Extent.preferred).length < cap := by rwa [List.length_map]
  obtain ⟨level, hlevel, hw, hsum⟩ := Widening.exists_level (extents.map Extent.preferred) ha hcap'
  rw [List.length_map] at hlevel
  rw [List.map_map] at hw hsum
  refine ⟨level, hlevel, ?_, hsum⟩
  unfold fitColumns
  rw [Exact.total_eq_sum, if_neg hfit.not_gt, hw]
  rfl

/-- Widths that are computed from the extents of all columns are computed from that of each. -/
theorem computed_of_extent {cs : List (GridColumn Exact)} {xs : List (Extent Exact)} {f : Extent Exact → Exact}
    (hextent : cs.map GridColumn.extent = xs.map some) (hcomputed : cs.map GridColumn.computed = xs.map f)
    {c : GridColumn Exact} (hc : c ∈ cs) {x : Extent Exact} (hx : c.extent = some x) : c.computed = f x := by
  induction cs generalizing xs with
  | nil => cases hc
  | cons c' cs ih =>
    cases xs with
    | nil => cases hextent
    | cons y ys =>
      rw [List.map_cons, List.map_cons, List.cons_eq_cons] at hextent hcomputed
      rcases List.mem_cons.mp hc with rfl | hc
      · obtain rfl : x = y := Option.some_injective _ (hx.symm.trans hextent.1)
        exact hcomputed.1
      · exact ih hextent.2 hcomputed.2 hc

/-- When the least widths of the columns fit, every column gets the width that it prefers up to a common level,
which is at least the equal share. So a column is as wide as its least width exactly if the level is. -/
theorem columns_filled_to_level {kind : Measure ε Exact → Prop} (config : Config) (hg : g.Reached kind)
    (hm : g.Materialized) (hc : g.element = some container) (ha : 0 ≤ m.available container)
    (hfit : ((g.extents m container).map Extent.minimum).sum ≤ m.available container) :
    ∃ g' cs level, g.sizeColumns m config = .ok g' ∧ g'.columns = some cs ∧
      cs.map GridColumn.extent = (g.extents m container).map some ∧
      m.available container / (cs.length : Exact) ≤ level ∧
      (cs.map GridColumn.computed).sum =
        min (m.available container) ((g.extents m container).map Extent.preferred).sum ∧
      ∀ c ∈ cs, ∀ x, c.extent = some x → c.computed = min x.preferred level ∧
        (x.minimum ≤ x.preferred → (x.minimum ≤ c.computed ↔ x.minimum ≤ level)) := by
  have hlength : (g.extents m container).length = g.widths.length := length_extents hg.sound
  have hcap : (g.extents m container).length < config.roundLimit g.widths.length :=
    hlength ▸ lt_roundLimit config _
  obtain ⟨c', widths, hc', hl, hw, hg'⟩ := exists_sizeColumns m config hg.sound hm
  obtain rfl : c' = container := Option.some_injective _ (hc'.symm.trans hc)
  obtain ⟨level, hlevel, hfill, hsum⟩ := fitColumns_of_le ha hcap hfit
  obtain rfl : widths = _ := Except.ok.inj (hw.symm.trans hfill)
  rw [← hlength] at hl
  have hextent := map_extent_widenedColumns hl
  have hcomputed := map_computed_widenedColumns hl
  have hcount := congrArg List.length hextent
  rw [List.length_map, List.length_map] at hcount
  refine ⟨_, g.widenedColumns m c' _, level, hg', rfl, hextent, hcount ▸ hlevel,
    (congrArg List.sum hcomputed).trans hsum, ?_⟩
  intro c hmem x hx
  have hcw : c.computed = min x.preferred level := computed_of_extent hextent hcomputed hmem hx
  refine ⟨hcw, fun hle => ?_⟩
  rw [hcw, le_min_iff]
  exact and_iff_right hle

/-- A column of a given length beside a `*` column. -/
def besideEqual : Grid Unit Exact :=
  (ofTemplate
    { selector := "body", css := "", rows := [⟨['a', 'b'], .auto⟩], widths := [.length ⟨50, .px⟩, .equal]
      slots := ⟨[.single 'a' 0 0, .single 'b' 0 1]⟩ }).occupied ()

theorem reached_besideEqual (kind : Measure Unit Exact → Prop) : besideEqual.Reached kind := by
  have h : Template.ofRows "body" "" [⟨['a', 'b'], .auto⟩] [.length ⟨50, .px⟩, .equal] = .ok _ := rfl
  exact (Reached.built h).occupied ()

open Exact in
theorem extents_besideEqual :
    besideEqual.extents (.uniform 60 50 40 10 20) () = [⟨finite 50, finite 50⟩, ⟨finite 0, infinite⟩] := rfl

theorem columns_filled_besideEqual :
    ∃ g' cs level, besideEqual.sizeColumns (.uniform 60 50 40 10 20) .standard = .ok g' ∧
      g'.columns = some cs ∧ .finite 60 / (cs.length : Exact) ≤ level ∧
      (cs.map GridColumn.computed).sum = min (.finite 60) (.finite 50 + .infinite) ∧
      ∀ c ∈ cs, ∀ x, c.extent = some x → c.computed = min x.preferred level := by
  have hfit : ((besideEqual.extents (.uniform 60 50 40 10 20) ()).map Extent.minimum).sum ≤ .finite 60 := by
    rw [extents_besideEqual]
    decide +kernel
  obtain ⟨g', cs, level, hg', hcs, -, hlevel, hsum, hc⟩ :=
    columns_filled_to_level .standard (reached_besideEqual fun _ => True)
      (materialized_occupied () _) rfl (by decide +kernel) hfit
  exact ⟨g', cs, level, hg', hcs, hlevel, hsum, fun c hmem x hx => (hc c hmem x hx).1⟩

/-- The least widths of all columns may fit and a column still get less than its own: beside a `*` column in a
width of 60, a column of 50 pixels gets 30. -/
theorem not_columns_keep_minimum :
    ¬ ∀ (g g' : Grid Unit Exact) (m : Measure Unit Exact) (config : Config) (cs : List (GridColumn Exact)),
      g.Reached Measure.Sizes → g.Materialized → m.Sizes →
      (∀ x ∈ g.extents m (), x.minimum ≤ x.preferred) →
      ((g.extents m ()).map Extent.minimum).sum ≤ m.available () →
      g.sizeColumns m config = .ok g' → g'.columns = some cs →
      ∀ c ∈ cs, ∀ x, c.extent = some x → x.minimum ≤ c.computed := by
  intro h
  have hm : (Measure.uniform 60 50 40 10 20).Sizes :=
    Measure.sizes_uniform (by decide) (by decide) (by decide) (by decide) (by decide)
  have hg := reached_besideEqual Measure.Sizes
  have hmat : besideEqual.Materialized := materialized_occupied () _
  obtain ⟨_, widths, -, -, hw, hg'⟩ := exists_sizeColumns (.uniform 60 50 40 10 20) .standard hg.sound hmat
  rw [extents_besideEqual] at hw
  have hfit : fitColumns (.finite 60) 30 [⟨.finite 50, .finite 50⟩, ⟨.finite 0, .infinite⟩] =
      (.ok [.finite 30, .finite 30] : Except SizingError (List Exact)) := by decide +kernel
  obtain rfl : widths = _ := Except.ok.inj (hw.symm.trans hfit)
  have hfalse : Exact.finite 50 ≤ .finite 30 := h _ _ _ _ _ hg hmat hm (by rw [extents_besideEqual]; decide +kernel)
    (by rw [extents_besideEqual]; decide +kernel) hg' rfl _ List.mem_cons_self _ rfl
  exact absurd hfalse (by decide +kernel)

end Grid

end SlotGrid
