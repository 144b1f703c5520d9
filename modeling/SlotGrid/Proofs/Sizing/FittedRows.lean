import SlotGrid.Proofs.Sizing.Repeated
import SlotGrid.Proofs.Sizing.RowHeights

/-! # Rows around their slots

Whatever the rows and slots of a grid, rows of a given height keep it, the others hold the slots within them, and a
slot of several rows is as tall as its rows unless these have no room for its content and may not grow.
-/

namespace SlotGrid

section Contents

variable {ε α : Type} [Quantity α] {m : Measure ε α}

/-- The height of the content of a slot at the width of the slot. The empty slot has no content. -/
inductive GridSlot.HasContent (m : Measure ε α) (s : GridSlot ε α) : α → Prop
  | empty (hs : s.isEmpty = true) : s.HasContent m 0
  | full {element : ε} {width : α} (hs : s.isEmpty = false) (he : s.element = some element)
      (hw : s.width = some width) : s.HasContent m (m.contentHeight element width)

namespace GridSlot

theorem HasContent.eq_intrinsicHeight {s : GridSlot ε α} {h : α} (hs : s.HasContent m h) :
    h = s.intrinsicHeight m := by
  unfold intrinsicHeight
  cases hs with
  | empty hs => rw [if_pos hs]
  | full hs he hw =>
    rw [hs, he, hw]
    rfl

theorem hasContent_intrinsicHeight {s : GridSlot ε α}
    (h : s.isEmpty = false → s.element.isSome ∧ s.width.isSome) : s.HasContent m (s.intrinsicHeight m) := by
  unfold intrinsicHeight
  cases hs : s.isEmpty with
  | true => exact .empty hs
  | false =>
    obtain ⟨he, hw⟩ := h hs
    obtain ⟨e, he⟩ := Option.isSome_iff_exists.mp he
    obtain ⟨w, hw⟩ := Option.isSome_iff_exists.mp hw
    rw [he, hw]
    exact .full hs he hw

end GridSlot

end Contents

/-! ## Rows -/

/-- The `*` rows are equally tall once they are leveled. -/
theorem computed_eq_of_mem_levelRows {rows : List (GridRow Exact)} {r : GridRow Exact} (hr : r ∈ levelRows rows)
    (he : r.height = .equal) :
    r.computed = Quantity.largest ((rows.filter (·.height = .equal)).map GridRow.computed) := by
  obtain ⟨r, -, rfl⟩ := List.mem_map.mp hr
  split_ifs at he ⊢ with h
  · rfl
  · exact absurd he h

/-- Every row of raised rows has one that it was raised from. -/
theorem RowsRaised.exists_getElem? {rows rows' : List (GridRow Exact)} (h : RowsRaised rows rows') {i : ℕ}
    {r' : GridRow Exact} (hr : rows'[i]? = some r') : ∃ r, rows[i]? = some r ∧ r.Raised r' := by
  induction h generalizing i with
  | nil => cases hr
  | cons hraised _ ih =>
    cases i with
    | zero =>
      cases hr
      exact ⟨_, rfl, hraised⟩
    | succ i => exact ih hr

namespace Grid

variable {ε : Type} {m : Measure ε Exact} {g g' : Grid ε Exact} {container : ε}

/-- Whether the answers of a measure that the height pass asks for are sizes. -/
structure HeightsMeasured (m : Measure ε Exact) (container : ε) (g : Grid ε Exact) : Prop where
  lengths : ∀ r ∈ g.rows, ∀ l, r.height = .length l → (m.resolve l container).IsSize
  contents : ∀ s ∈ g.slots, ∀ h, s.HasContent m h → h.IsSize

/-- A height pass that changes a grid in its heights only. -/
structure RowsFitted (m : Measure ε Exact) (container : ε) (g g' : Grid ε Exact) : Prop where
  withoutHeights_eq : g'.withoutHeights = g.withoutHeights
  lengths : ∀ r ∈ g'.rows, ∀ l, r.height = .length l → r.computed = m.resolve l container
  stars : ∀ r ∈ g'.rows, ∀ r' ∈ g'.rows, r.height = .equal → r'.height = .equal → r.computed = r'.computed
  room : ∀ s ∈ g'.slots, s.rowspan = 1 → s.isEmpty = false → ∀ r, g'.rows[s.row]? = some r →
    r.height.mayGrow = true → ∀ h, s.HasContent m h → h ≤ r.computed
  single : ∀ s ∈ g'.slots, s.rowspan = 1 → ∃ r, g'.rows[s.row]? = some r ∧ s.height = r.computed
  tall : ∀ s ∈ g'.slots, 1 < s.rowspan → ∃ h, s.HasContent m h ∧
    s.height = max h ((s.spannedRows g'.rows).map GridRow.computed).sum ∧
    ((∃ r ∈ s.spannedRows g'.rows, r.height.mayGrow = true) →
      h ≤ ((s.spannedRows g'.rows).map GridRow.computed).sum)
  height : g'.height = (g'.rows.map GridRow.computed).sum

/-- The final rows are raised from the ones that hold the slots within them. -/
theorem exists_naturalRow (hraised : RowsRaised (g.naturalRows m container) (g.heightened m container).rows) {i : ℕ}
    {r' : GridRow Exact} (hr : (g.heightened m container).rows[i]? = some r') :
    ∃ r : GridRow Exact, r.height = r'.height ∧
      GridRow.Raised { r with computed := r.naturalHeight m container (g.contents m) i } r' := by
  obtain ⟨_, hnatural, hraise⟩ := hraised.exists_getElem? hr
  rw [naturalRows, List.getElem?_mapIdx] at hnatural
  obtain ⟨r, -, rfl⟩ := Option.map_eq_some_iff.mp hnatural
  exact ⟨r, congrArg Row.height hraise.row_eq.symm, hraise⟩

theorem computed_of_length (hraised : RowsRaised (g.naturalRows m container) (g.heightened m container).rows)
    {r' : GridRow Exact} (hr : r' ∈ (g.heightened m container).rows) {l : Length} (hl : r'.height = .length l) :
    r'.computed = m.resolve l container := by
  obtain ⟨i, hi⟩ := List.mem_iff_getElem?.mp hr
  obtain ⟨r, hheight, hraise⟩ := exists_naturalRow hraised hi
  rw [hl] at hheight
  have hfixed : r.height.mayGrow = false := by
    rw [hheight]
    rfl
  rw [hraise.fixed hfixed, GridRow.naturalHeight, hheight]

/-- A row that may grow has room for each content within it. -/
theorem le_computed_of_content (hraised : RowsRaised (g.naturalRows m container) (g.heightened m container).rows)
    {c : Content ε Exact} (hmem : c ∈ g.contents m) (hone : c.slot.rowspan = 1) (hfull : c.slot.isEmpty = false)
    {r' : GridRow Exact} (hr : (g.heightened m container).rows[c.slot.row]? = some r')
    (hgrow : r'.height.mayGrow = true) : c.height ≤ r'.computed := by
  obtain ⟨r, hheight, hraise⟩ := exists_naturalRow hraised hr
  refine le_trans ?_ hraise.le
  have hwithin : c ∈ (g.contents m).filter fun d =>
      d.slot.rowspan = 1 ∧ d.slot.row = c.slot.row ∧ !d.slot.isEmpty := by
    simp [hmem, hone, hfull]
  rw [← hheight] at hgrow
  unfold GridRow.naturalHeight
  cases hh : r.height with
  | length l =>
    rw [hh] at hgrow
    cases hgrow
  | auto => exact Exact.le_largest (List.mem_map_of_mem hwithin)
  | equal => exact Exact.le_largest (List.mem_map_of_mem hwithin)

/-- A slot of the heightened grid is one that was fitted, with the height at which it settles. -/
theorem exists_fitted {s' : GridSlot ε Exact} (hs : s' ∈ (g.heightened m container).slots) :
    ∃ c ∈ (g.fitted m container).2, c.height = s'.intrinsicHeight m ∧ s'.toSlot = c.slot.toSlot ∧
      s'.height = (c.slot.settle (g.heightened m container).rows).height := by
  obtain ⟨c, hmem, rfl⟩ := List.mem_map.mp hs
  have hall : ∀ c ∈ g.contents m, c.height = c.slot.intrinsicHeight m := List.forall_mem_map.mpr fun _ _ => rfl
  have hcontent := Content.forall_foldl_fit (fun _ _ => Iff.rfl) hall (levelRows (g.naturalRows m container)) c hmem
  obtain ⟨h, hsettle⟩ := settle_eq (g.heightened m container).rows c.slot
  refine ⟨c, hmem, hcontent.trans ?_, ?_, rfl⟩
  · exact (congrArg (GridSlot.intrinsicHeight m) hsettle).symm
  · change (c.slot.settle (g.heightened m container).rows).toSlot = c.slot.toSlot
    rw [hsettle]

theorem exists_row_of_single (hg : g.Sound) {s' : GridSlot ε Exact} (hs : s' ∈ (g.heightened m container).slots)
    (hone : s'.rowspan = 1) :
    ∃ r, (g.heightened m container).rows[s'.row]? = some r ∧ s'.height = r.computed := by
  have hwithin := (hg.heightened.within hs).1
  rw [hone] at hwithin
  obtain ⟨r, hr⟩ : ∃ r, (g.heightened m container).rows[s'.row]? = some r := ⟨_, List.getElem?_eq_getElem hwithin⟩
  obtain ⟨c, -, -, hslot, hheight⟩ := exists_fitted hs
  refine ⟨r, hr, ?_⟩
  rw [hslot] at hone hr
  exact hheight.trans (GridSlot.height_settle_of_single hone hr)

/-- A slot of several rows is as tall as its content or its rows, and its rows have room for it if some may grow. -/
theorem height_of_tall (hfit : Content.Fitting (g.naturalRows m container) (g.fitted m container))
    {s' : GridSlot ε Exact} (hs : s' ∈ (g.heightened m container).slots) (ht : 1 < s'.rowspan) :
    s'.height = max (s'.intrinsicHeight m) (s'.spannedHeight (g.heightened m container).rows) ∧
      ((∃ r ∈ s'.spannedRows (g.heightened m container).rows, r.height.mayGrow = true) →
        s'.intrinsicHeight m ≤ s'.spannedHeight (g.heightened m container).rows) := by
  obtain ⟨c, hmem, hcontent, hslot, hsettled⟩ := exists_fitted hs
  rw [hslot] at ht ⊢
  rw [← hcontent]
  have htall : c.isTall = true := decide_eq_true ht
  have hlast := raised_levelRows (g.fitted m container).1
  have hlift := hlast.spannedHeight_le c.slot.toSlot
  constructor
  · rw [hsettled, GridSlot.height_settle_of_tall ht]
    exact Content.max_eq_max_of_le (hfit.followed c hmem htall) hlift
  · rintro ⟨r, hr, hgrow⟩
    refine (hfit.filled c hmem htall fun hnil => ?_).trans hlift
    have hraised := (hfit.raised.trans hlast).spannedRows c.slot.toSlot
    exact List.filter_eq_nil_iff.mp (hraised.filter_mayGrow_eq_nil.mp hnil) r hr hgrow

/-- The height pass gives rows of a given height that height and all `*` rows one height, makes room for every slot of
one row in a row that may grow, and for every slot of several rows in those of them that may grow. Slots of one row are
as tall as it, slots of several rows as tall as these or as their contents, and the grid is as tall as all rows. -/
theorem rows_fitted {kind : Measure ε Exact → Prop} (hg : g.Reached kind) (hmat : g.Materialized)
    (hw : ∀ s ∈ g.slots, s.isEmpty = false → s.width.isSome) (hc : g.element = some container)
    (hm : g.HeightsMeasured m container) : ∃ g', g.sizeRows m = .ok g' ∧ RowsFitted m container g g' := by
  have hsound := hg.sound
  have hpass : g.sizeRows m = .ok (g.heightened m container) := sizeRows_eq_ok hsound hmat hw hc
  have hfull : ∀ s ∈ g.slots, s.HasContent m (s.intrinsicHeight m) := fun s hs =>
    GridSlot.hasContent_intrinsicHeight fun he => ⟨hmat.slots s hs he, hw s hs he⟩
  have hcontents : ∀ c ∈ g.contents m, c.height.IsSize :=
    List.forall_mem_map.mpr fun s hs => hm.contents s hs _ (hfull s hs)
  have hfit := fitting_fitted hm.lengths hcontents
  have hraised : RowsRaised (g.naturalRows m container) (g.heightened m container).rows :=
    hfit.raised.trans (raised_levelRows _)
  refine ⟨g.heightened m container, hpass, ?_⟩
  constructor
  case withoutHeights_eq => exact withoutHeights_of_sizeRows hpass
  case lengths => exact fun r hr l hl => computed_of_length hraised hr hl
  case stars =>
    intro r hr r' hr' he he'
    rw [computed_eq_of_mem_levelRows hr he, computed_eq_of_mem_levelRows hr' he']
  case room =>
    have hall : ∀ s ∈ (g.heightened m container).slots,
        ∃ c ∈ g.contents m, c.slot.toSlot = s.toSlot ∧ c.height = s.intrinsicHeight m :=
      forall_slots_heightened (fun _ _ => Iff.rfl) fun s hs =>
        ⟨⟨s, s.intrinsicHeight m⟩, List.mem_map_of_mem hs, rfl, rfl⟩
    intro s hs hone hempty r hr hgrow h hh
    obtain ⟨c, hmem, hslot, hheight⟩ := hall s hs
    rw [hh.eq_intrinsicHeight, ← hheight]
    rw [← hslot] at hone hempty hr
    exact le_computed_of_content hraised hmem hone hempty hr hgrow
  case single => exact fun s hs hone => exists_row_of_single hsound hs hone
  case tall =>
    have hset : ∀ s ∈ (g.heightened m container).slots, s.isEmpty = false → s.element.isSome ∧ s.width.isSome :=
      forall_slots_heightened (fun _ _ => Iff.rfl) fun s hs he => ⟨hmat.slots s hs he, hw s hs he⟩
    intro s hs ht
    rw [← Exact.total_eq_sum]
    exact ⟨_, GridSlot.hasContent_intrinsicHeight (hset s hs), height_of_tall hfit hs ht⟩
  case height => exact Exact.total_eq_sum _

theorem rows_fitted_wideBesideStar :
    ∃ g', wideBesideStar.sizeRows (.uniform 100 10 50 20 30) = .ok g' ∧
      RowsFitted (.uniform 100 10 50 20 30) () wideBesideStar g' := by
  have hreached := (reached_besideStar fun _ => True).sizedColumns trivial sizeColumns_besideStar
  have hset : ∀ s ∈ wideBesideStar.slots, s.isEmpty = false → s.width.isSome := by decide +kernel
  have hm : wideBesideStar.HeightsMeasured (.uniform 100 10 50 20 30) () := by
    constructor
    · intro _ _ _ _
      exact ⟨10, by decide, rfl⟩
    · intro _ _ _ hs
      cases hs with
      | empty => exact Exact.IsSize.zero
      | full => exact ⟨30, by decide, rfl⟩
  exact rows_fitted hreached (materialized_occupied () _).widened hset rfl hm

end Grid

end SlotGrid
