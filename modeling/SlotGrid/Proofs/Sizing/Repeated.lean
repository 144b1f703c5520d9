import SlotGrid.Proofs.Sizing.ColumnWidths

/-! # Passes one after another

The height pass reads no height that it computes, so it comes to the same heights however often it runs. The width
pass keeps the extents that it found first, and only the available width counts anew.
-/

namespace SlotGrid

variable {ε α : Type} [Quantity α] {m : Measure ε α} {config : Config}

/-! ## Heights -/

def GridRow.withoutHeight (r : GridRow α) : GridRow α := { r with computed := 0 }

def GridSlot.withoutHeight (s : GridSlot ε α) : GridSlot ε α := { s with height := 0 }

/-- The content in a slot without its height. -/
def Content.inOutline (c : Content ε α) : Content ε α := ⟨c.outline, c.height⟩

namespace Content

theorem map_inOutline_find (measured : List (Char × α)) (s : GridSlot ε α) :
    find measured s.withoutHeight = inOutline <$> find measured s := by
  unfold find
  change (measured.lookup s.name).elim _ _ = _ <$> (measured.lookup s.name).elim _ _
  cases measured.lookup s.name <;> rfl

omit [Quantity α] in
theorem slot_eq_of_find {measured : List (Char × α)} {s : GridSlot ε α} {c : Content ε α}
    (h : find measured s = .ok c) : c.slot = s := by
  unfold find at h
  cases hl : measured.lookup s.name with
  | none =>
    rw [hl] at h
    cases h
  | some height =>
    rw [hl] at h
    cases h
    rfl

/-- States of fitting that agree in the rows and in all that settling keeps of the slots. -/
structure SettleAlike (state state' : List (GridRow α) × List (Content ε α)) : Prop where
  rows_eq : state'.1 = state.1
  settle_eq : ∀ rows, state'.2.map (fun c => c.slot.settle rows) = state.2.map fun c => c.slot.settle rows

theorem settle_outline (rows : List (GridRow α)) {c : Content ε α} (h : ¬ c.isTall = true) :
    c.outline.settle rows = c.slot.settle rows := by
  have hspan : ¬ 1 < c.slot.rowspan := fun hlt => h (decide_eq_true hlt)
  unfold GridSlot.settle
  exact (if_neg hspan).trans (if_neg hspan).symm

/-- Fitting writes the height of every slot of several rows anew, and settling that of all others. -/
theorem SettleAlike.fit {state state' : List (GridRow α) × List (Content ε α)} (h : SettleAlike state state')
    (c : Content ε α) : SettleAlike (fit state c) (fit state' c.inOutline) := by
  obtain ⟨rows, done⟩ := state
  obtain ⟨rows', done'⟩ := state'
  obtain rfl : rows' = rows := h.rows_eq
  have hdone := h.settle_eq
  unfold Content.fit
  change SettleAlike (if c.isTall then _ else _) (if c.isTall then _ else _)
  split_ifs with ht
  · refine ⟨rfl, fun rows => ?_⟩
    rw [List.map_append, List.map_append, hdone]
    rfl
  · refine ⟨rfl, fun rows => ?_⟩
    rw [List.map_append, List.map_append, hdone]
    exact congrArg (fun s => _ ++ [s]) (settle_outline rows ht)

theorem SettleAlike.foldl {state state' : List (GridRow α) × List (Content ε α)} (h : SettleAlike state state')
    (cs : List (Content ε α)) :
    SettleAlike (cs.foldl Content.fit state) ((cs.map inOutline).foldl Content.fit state') := by
  induction cs generalizing state state' with
  | nil => exact h
  | cons c cs ih => exact ih (h.fit c)

end Content

theorem GridRow.naturalHeight_withoutHeight (m : Measure ε α) (container : ε) (contents : List (Content ε α))
    (index : ℕ) (r : GridRow α) :
    r.withoutHeight.naturalHeight m container (contents.map Content.inOutline) index =
      r.naturalHeight m container contents index := by
  unfold naturalHeight
  rw [List.filter_map, List.map_map]
  rfl

namespace Grid

variable {g g' : Grid ε α}

/-- The grid without all that the height pass computes. -/
def withoutHeights (g : Grid ε α) : Grid ε α :=
  { g with rows := g.rows.map GridRow.withoutHeight, slots := g.slots.map GridSlot.withoutHeight, height := 0 }

/-- The grid with the rows and slots that fitting came to. -/
def settledFrom (state : List (GridRow α) × List (Content ε α)) (g : Grid ε α) : Grid ε α :=
  let rows := levelRows state.1
  { g with
    rows
    slots := state.2.map fun c => c.slot.settle rows
    height := Quantity.total (rows.map GridRow.computed) }

theorem settledFrom_withoutHeights {state state' : List (GridRow α) × List (Content ε α)}
    (h : Content.SettleAlike state state') (g : Grid ε α) :
    g.withoutHeights.settledFrom state' = g.settledFrom state := by
  unfold settledFrom
  simp only [h.rows_eq, h.settle_eq]
  rfl

theorem naturalRows_withoutHeights (m : Measure ε α) (container : ε) (contents : List (Content ε α))
    (rows : List (GridRow α)) :
    ((rows.map GridRow.withoutHeight).mapIdx fun i r =>
        { r with computed := r.naturalHeight m container (contents.map Content.inOutline) i }) =
      rows.mapIdx fun i r => { r with computed := r.naturalHeight m container contents i } := by
  apply List.ext_getElem (by simp)
  intro i _ _
  simp only [List.getElem_mapIdx, List.getElem_map, GridRow.naturalHeight_withoutHeight]
  rfl

/-- The height pass reads nothing of what it computes. -/
theorem sizeRows_withoutHeights (m : Measure ε α) (g : Grid ε α) : g.withoutHeights.sizeRows m = g.sizeRows m := by
  have hmeasure : (g.withoutHeights.slots.mapM fun s => do return (s.name, ← s.contentHeight m)) =
      g.slots.mapM fun s => do return (s.name, ← s.contentHeight m) :=
    List.mapM_map ..
  have hfind : ∀ measured, g.withoutHeights.slots.mapM (Content.find measured) =
      List.map Content.inOutline <$> g.slots.mapM (Content.find measured) := by
    intro measured
    refine (List.mapM_map ..).trans ?_
    simp only [Function.comp_def, Content.map_inOutline_find]
    exact Checked.mapM_map_right ..
  have hwithin : g.withoutHeights.slots.forM (fun s => s.requireRows g.withoutHeights.rows.length) =
      g.slots.forM fun s => s.requireRows g.rows.length := by
    unfold withoutHeights
    rw [List.length_map]
    exact List.forM_map ..
  unfold sizeRows
  rw [hmeasure]
  simp only [hfind, hwithin]
  refine bind_congr fun container => bind_congr fun measured => ?_
  rw [bind_map_left]
  refine bind_congr fun contents => bind_congr fun _ => ?_
  have hnatural := naturalRows_withoutHeights m container contents g.rows
  have halike : Content.SettleAlike (_, ([] : List (Content ε α))) (_, []) := ⟨congrArg levelRows hnatural, fun _ => rfl⟩
  exact congrArg Except.ok (settledFrom_withoutHeights (halike.foldl contents) g)

theorem withoutHeights_settledFrom {g : Grid ε α} {state : List (GridRow α) × List (Content ε α)}
    (hr : state.1.map GridRow.toRow = g.rows.map GridRow.toRow)
    (hs : state.2.map Content.outline = g.slots.map GridSlot.withoutHeight) :
    (g.settledFrom state).withoutHeights = g.withoutHeights := by
  have hrows : (levelRows state.1).map GridRow.withoutHeight = g.rows.map GridRow.withoutHeight := by
    have h := congrArg (List.map fun r : Row => ({ r with computed := 0 } : GridRow α))
      ((map_toRow_levelRows state.1).trans hr)
    rw [List.map_map, List.map_map] at h
    exact h
  have hslots : (state.2.map fun c => c.slot.settle (levelRows state.1)).map GridSlot.withoutHeight =
      g.slots.map GridSlot.withoutHeight := by
    rw [← hs, List.map_map]
    apply List.map_congr_left
    intro c _
    obtain ⟨h, hc⟩ := settle_eq (levelRows state.1) c.slot
    rw [Function.comp_apply, hc]
    rfl
  unfold settledFrom withoutHeights
  simp only [hrows, hslots]

/-- The height pass changes nothing but heights. -/
theorem withoutHeights_of_sizeRows (h : g.sizeRows m = .ok g') : g'.withoutHeights = g.withoutHeights := by
  unfold sizeRows at h
  simp only [Checked.bind_eq_ok] at h
  obtain ⟨container, -, measured, -, contents, hcontents, _, -, h⟩ := h
  have hslots : contents.map Content.slot = g.slots :=
    (Checked.map_eq_of_mapM (fun s _ c hc => Content.slot_eq_of_find hc) hcontents).trans (List.map_id _)
  cases h
  apply withoutHeights_settledFrom
  · rw [Content.map_toRow_foldl_fit, map_toRow_levelRows]
    exact List.ext_getElem (by simp) fun i _ _ => by simp
  · rw [Content.map_outline_foldl_fit, ← hslots, List.map_map]
    rfl

/-- Grids that differ in their heights only come to the same, in one height pass or in many. -/
theorem sizeRows_of_withoutHeights (m : Measure ε α) (h : g.withoutHeights = g'.withoutHeights) :
    g.sizeRows m = g'.sizeRows m ∧ ∀ n, (· >>= sizeRows m)^[n] (g.sizeRows m) = g'.sizeRows m := by
  have heq : g.sizeRows m = g'.sizeRows m := by
    rw [← sizeRows_withoutHeights, h, sizeRows_withoutHeights]
  have hfixed : (g.sizeRows m >>= sizeRows m) = g.sizeRows m := by
    cases hg : g.sizeRows m with
    | error e => rfl
    | ok g₁ =>
      calc g₁.sizeRows m
          = g₁.withoutHeights.sizeRows m := (sizeRows_withoutHeights m g₁).symm
        _ = g.withoutHeights.sizeRows m := by rw [withoutHeights_of_sizeRows hg]
        _ = .ok g₁ := (sizeRows_withoutHeights m g).trans hg
  constructor
  · exact heq
  · intro n
    exact (Function.iterate_fixed hfixed n).trans heq

/-- Two columns with a slot beside two rows, above a slot of both columns. -/
def besideStar : Grid Unit Exact :=
  (ofTemplate
    { selector := "body", css := "", rows := [⟨['a', 'b'], .auto⟩, ⟨['a', 'c'], .equal⟩, ⟨['d', 'd'], .equal⟩]
      widths := [.minContent, .equal]
      slots := ⟨[⟨'a', 0, 0, 2, 1, 1, 0⟩, .single 'b' 0 1, .single 'c' 1 1, ⟨'d', 2, 0, 1, 2, 2, 1⟩]⟩ }).occupied ()

theorem reached_besideStar (kind : Measure Unit Exact → Prop) : besideStar.Reached kind := by
  have hbuilt : Template.ofRows "body" "" [⟨['a', 'b'], .auto⟩, ⟨['a', 'c'], .equal⟩, ⟨['d', 'd'], .equal⟩]
      [.minContent, .equal] = .ok _ := rfl
  exact (Reached.built hbuilt).occupied ()

/-- The grid after a width pass. -/
def wideBesideStar : Grid Unit Exact := besideStar.widened (.uniform 100 10 50 20 30) () [.finite 20, .finite 80]

theorem sizeColumns_besideStar :
    besideStar.sizeColumns (.uniform 100 10 50 20 30) .standard = .ok wideBesideStar := by
  decide +kernel

/-- The grid with heights of some pass before. -/
def oldBesideStar : Grid Unit Exact :=
  { wideBesideStar with
    rows := wideBesideStar.rows.map ({ · with computed := .finite 7 })
    slots := wideBesideStar.slots.map ({ · with height := .finite 5 })
    height := .finite 9 }

theorem sizeRows_oldBesideStar :
    oldBesideStar.withoutHeights = wideBesideStar.withoutHeights ∧
      oldBesideStar.sizeRows (.uniform 100 10 50 20 30) = wideBesideStar.sizeRows (.uniform 100 10 50 20 30) ∧
      ∀ n, (· >>= sizeRows (.uniform 100 10 50 20 30))^[n] (oldBesideStar.sizeRows (.uniform 100 10 50 20 30)) =
        wideBesideStar.sizeRows (.uniform 100 10 50 20 30) := by
  have h : oldBesideStar.withoutHeights = wideBesideStar.withoutHeights := by decide +kernel
  exact ⟨h, sizeRows_of_withoutHeights _ h⟩

end Grid

/-! ## Widths -/

namespace Grid

variable {g : Grid ε α} {container : ε} {widths widths' : List α}

/-- Extents that were found are kept, whatever the measure answers later. -/
theorem extents_widened (m' : Measure ε α) (hl : widths.length = (g.extents m container).length) :
    (g.widened m container widths).extents m' container = g.extents m container := by
  have hextents := map_extent_widenedColumns hl
  apply List.ext_getElem?
  intro i
  have hi := congrArg (·[i]?) hextents
  simp only [List.getElem?_map] at hi
  change (((g.widenedColumns m container widths).map _)[i]?) = _
  rw [List.getElem?_map]
  cases hx : (g.extents m container)[i]? with
  | none =>
    rw [hx, Option.map_none, Option.map_eq_none_iff] at hi
    rw [hi]
    rfl
  | some x =>
    rw [hx] at hi
    obtain ⟨c, hc, hcx⟩ := Option.map_eq_some_iff.mp hi
    rw [hc, Option.map_some, GridColumn.currentExtent, hcx]
    rfl

omit [Quantity α] in
theorem zipWith_withComputed_twice (cs : List (GridColumn α)) {xs : List (Extent α)} (hl : widths.length = xs.length) :
    List.zipWith GridColumn.withComputed (List.zipWith GridColumn.withExtent
        (List.zipWith GridColumn.withComputed (List.zipWith GridColumn.withExtent cs xs) widths) xs) widths' =
      List.zipWith GridColumn.withComputed (List.zipWith GridColumn.withExtent cs xs) widths' := by
  apply List.ext_getElem
  · simp only [List.length_zipWith]
    omega
  · intro i _ _
    simp only [List.getElem_zipWith]
    rfl

/-- Of two passes the second decides on the widths. -/
theorem widened_widened (m' : Measure ε α) (hl : widths.length = (g.extents m container).length) :
    (g.widened m container widths).widened m' container widths' = g.widened m container widths' := by
  have hcolumns : (g.widened m container widths).widenedColumns m' container widths' =
      g.widenedColumns m container widths' := by
    unfold widenedColumns
    rw [extents_widened m' hl]
    exact zipWith_withComputed_twice g.builtColumns hl
  have hslots : ((g.widened m container widths).widened m' container widths').slots =
      (g.widened m container widths').slots := by
    rw [slots_widened, slots_widened, slots_widened, List.map_map]
    rfl
  have hform : ∀ m (g : Grid ε α), g.widened m container widths' =
      { g with
        columns := some (g.widenedColumns m container widths')
        slots := (g.widened m container widths').slots
        width := Quantity.total widths' } := fun _ _ => rfl
  rw [hform m' (g.widened m container widths), hform m g, hcolumns, hslots]
  rfl

theorem sizeColumns_iterate_withColumns (m : Measure ε α) (config : Config) (g : Grid ε α) (i : ℕ) :
    (withColumns^[i] g).sizeColumns m config = g.sizeColumns m config := by
  induction i generalizing g with
  | zero => rfl
  | succ i ih => exact ih g.withColumns

/-- A second width pass keeps the answers of the first measure but for the available width, and columns may be built
whenever one likes. -/
theorem sizeColumns_twice {kind : Measure ε α → Prop} (m₁ m₂ : Measure ε α) (config : Config) (hg : g.Reached kind)
    (hm : g.Materialized) :
    ∃ g₁ g₂, (∀ i, (withColumns^[i] g).sizeColumns m₁ config = .ok g₁) ∧
      (∀ i, (withColumns^[i] g₁).sizeColumns m₂ config = .ok g₂) ∧
      (∀ i, (withColumns^[i] g).sizeColumns { m₁ with available := m₂.available } config = .ok g₂) ∧
      (m₁ = m₂ → g₂ = g₁) := by
  have hsound := hg.sound
  obtain ⟨container, widths₁, hc, -, hw₁, h₁⟩ := exists_sizeColumns m₁ config hsound hm
  have hl := length_fitColumns hw₁
  have hm₁ : (g.widened m₁ container widths₁).Materialized := hm.widened
  obtain ⟨container', widths₂, hc', -, hw₂, h₂⟩ := exists_sizeColumns m₂ config (hsound.widened hl) hm₁
  obtain rfl : container' = container := Option.some_injective _ (hc'.symm.trans hc)
  rw [extents_widened m₂ hl] at hw₂
  rw [widened_widened m₂ hl] at h₂
  obtain ⟨container, widths, hc', -, hw, h⟩ :=
    exists_sizeColumns { m₁ with available := m₂.available } config hsound hm
  obtain rfl : container = container' := Option.some_injective _ (hc'.symm.trans hc)
  obtain rfl : widths = widths₂ := Except.ok.inj (hw.symm.trans hw₂)
  refine ⟨g.widened m₁ container widths₁, g.widened m₁ container widths, ?_, ?_, ?_, ?_⟩
  · intro i
    exact (sizeColumns_iterate_withColumns m₁ config g i).trans h₁
  · intro i
    exact (sizeColumns_iterate_withColumns m₂ config _ i).trans h₂
  · intro i
    exact (sizeColumns_iterate_withColumns _ config g i).trans h
  · rintro rfl
    rw [Except.ok.inj (hw₁.symm.trans hw₂)]

theorem sizeColumns_twice_besideStar :
    ∃ g₁ g₂,
      (∀ i, (withColumns^[i] besideStar).sizeColumns (.uniform 100 10 50 20 30) .standard = .ok g₁) ∧
      (∀ i, (withColumns^[i] g₁).sizeColumns (.uniform 60 5 70 30 10) .standard = .ok g₂) ∧
      (∀ i, (withColumns^[i] besideStar).sizeColumns (.uniform 60 10 50 20 30) .standard = .ok g₂) ∧
      (Measure.uniform 100 10 50 20 30 = .uniform 60 5 70 30 10 → g₂ = g₁) :=
  sizeColumns_twice _ _ .standard (reached_besideStar fun _ => True) (materialized_occupied () _)

end Grid

end SlotGrid
