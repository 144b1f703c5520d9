import SlotGrid.Proofs.Sizing.Grid
import SlotGrid.Sizing.Rows

/-! # What the height pass computes

On a grid with elements and slot widths the height pass ends without an error, and neither rows nor slots
change in anything but their heights.
-/

namespace SlotGrid

variable {ε α : Type} [Quantity α] {m : Measure ε α}

namespace GridSlot

/-- The height of the content; nothing for a slot without a width or an element. -/
def intrinsicHeight (m : Measure ε α) (s : GridSlot ε α) : α :=
  if s.isEmpty then 0 else (s.width.bind fun w => s.element.map (m.contentHeight · w)).getD 0

theorem contentHeight_eq_ok {s : GridSlot ε α} (h : s.isEmpty = false → s.element.isSome ∧ s.width.isSome) :
    s.contentHeight m = .ok (s.intrinsicHeight m) := by
  unfold contentHeight intrinsicHeight elementOrError
  cases he : s.isEmpty with
  | true => rfl
  | false =>
    obtain ⟨hs, hw⟩ := h he
    obtain ⟨e, hs⟩ := Option.isSome_iff_exists.mp hs
    obtain ⟨w, hw⟩ := Option.isSome_iff_exists.mp hw
    rw [hs, hw]
    rfl

theorem eq_intrinsicHeight {s : GridSlot ε α} {x : α} (h : s.contentHeight m = .ok x) :
    x = s.intrinsicHeight m := by
  unfold contentHeight elementOrError at h
  unfold intrinsicHeight
  cases he : s.isEmpty <;> rw [he] at h
  · cases hw : s.width <;> rw [hw] at h
    · cases h
    · cases hs : s.element <;> rw [hs] at h <;> cases h
      rfl
  · cases h
    rfl

end GridSlot

omit [Quantity α] in
theorem lookup_map_name {f : GridSlot ε α → α} {ss : List (GridSlot ε α)} {s : GridSlot ε α}
    (hnd : (ss.map (·.name)).Nodup) (hs : s ∈ ss) :
    (ss.map fun s => (s.name, f s)).lookup s.name = some (f s) := by
  induction ss with
  | nil => cases hs
  | cons t ss ih =>
    obtain ⟨ht, hnd⟩ := List.nodup_cons.mp hnd
    rw [List.map_cons, List.lookup_cons]
    rcases List.mem_cons.mp hs with rfl | hs
    · rw [beq_self_eq_true]
    · have hne : (s.name == t.name) = false :=
        beq_eq_false_iff_ne.mpr fun he => ht (List.mem_map.mpr ⟨s, hs, he⟩)
      rw [hne]
      exact ih hnd hs

namespace Grid

variable {g g' : Grid ε α} {container : ε}

/-- The slots with the heights of their contents. -/
def contents (m : Measure ε α) (g : Grid ε α) : List (Content ε α) :=
  g.slots.map fun s => ⟨s, s.intrinsicHeight m⟩

/-- The rows with the heights that they have by themselves. -/
def naturalRows (m : Measure ε α) (container : ε) (g : Grid ε α) : List (GridRow α) :=
  g.rows.mapIdx fun i r => { r with computed := r.naturalHeight m container (g.contents m) i }

/-- The rows and contents after all slots are fitted. -/
def fitted (m : Measure ε α) (container : ε) (g : Grid ε α) : List (GridRow α) × List (Content ε α) :=
  (g.contents m).foldl Content.fit (levelRows (g.naturalRows m container), [])

/-- The grid after a height pass. -/
def heightened (m : Measure ε α) (container : ε) (g : Grid ε α) : Grid ε α :=
  let rows := levelRows (g.fitted m container).1
  { g with
    rows
    slots := (g.fitted m container).2.map fun c => c.slot.settle rows
    height := Quantity.total (rows.map GridRow.computed) }

theorem find_eq_ok (hg : g.Sound) {s : GridSlot ε α} (hs : s ∈ g.slots) :
    Content.find (g.slots.map fun s => (s.name, s.intrinsicHeight m)) s = .ok ⟨s, s.intrinsicHeight m⟩ := by
  unfold Content.find
  rw [lookup_map_name hg.nodup_names hs]
  rfl

/-- The height pass ends without an error on grids with elements and slot widths. -/
theorem sizeRows_eq_ok (hg : g.Sound) (hm : g.Materialized)
    (hw : ∀ s ∈ g.slots, s.isEmpty = false → s.width.isSome) (hc : g.element = some container) :
    g.sizeRows m = .ok (g.heightened m container) := by
  have hcontainer : g.elementOrError = .ok container := by
    rw [elementOrError, hc]
    rfl
  have hmeasure : (g.slots.mapM fun s => do return (s.name, ← s.contentHeight m)) =
      .ok (g.slots.map fun s => (s.name, s.intrinsicHeight m)) := by
    refine Checked.mapM_ok fun s hs => Checked.bind_eq_ok.mpr ⟨_, ?_, rfl⟩
    exact GridSlot.contentHeight_eq_ok fun he => ⟨hm.slots s hs he, hw s hs he⟩
  have hfind : g.slots.mapM (Content.find (g.slots.map fun s => (s.name, s.intrinsicHeight m))) =
      .ok (g.contents m) :=
    Checked.mapM_ok fun s hs => find_eq_ok hg hs
  have hwithin : g.slots.forM (fun s => s.requireRows g.rows.length) = .ok () :=
    Checked.forM_eq_ok.mpr fun s hs => if_pos (hg.within hs).1
  unfold sizeRows
  simp only [Checked.bind_eq_ok]
  exact ⟨container, hcontainer, _, hmeasure, _, hfind, (), hwithin, rfl⟩

/-- A height pass that ends without an error. -/
theorem eq_heightened (hg : g.Sound) (h : g.sizeRows m = .ok g') :
    ∃ container, g.element = some container ∧ g' = g.heightened m container := by
  unfold sizeRows at h
  simp only [Checked.bind_eq_ok] at h
  obtain ⟨container, hc, measured, hmeasured, contents, hcontents, _, -, h⟩ := h
  have hm : measured = g.slots.map fun s => (s.name, s.intrinsicHeight m) := by
    refine Checked.eq_map_of_mapM (fun s _ y hy => ?_) hmeasured
    obtain ⟨x, hx, hy⟩ := Checked.bind_eq_ok.mp hy
    cases hy
    rw [GridSlot.eq_intrinsicHeight hx]
  subst hm
  have hc' : contents = g.contents m := by
    refine Checked.eq_map_of_mapM (fun s hs y hy => ?_) hcontents
    rw [find_eq_ok hg hs] at hy
    cases hy
    rfl
  subst hc'
  cases h
  refine ⟨container, ?_, rfl⟩
  unfold elementOrError at hc
  cases he : g.element <;> rw [he] at hc <;> cases hc
  rfl

end Grid

/-! ## The heightened grid -/

theorem map_toRow_levelRows (rows : List (GridRow α)) :
    (levelRows rows).map GridRow.toRow = rows.map GridRow.toRow := by
  unfold levelRows
  rw [List.map_map]
  refine List.map_congr_left fun r _ => ?_
  rw [Function.comp_apply]
  split_ifs <;> rfl

namespace Slot

/-- The rows within a slot that may grow. -/
def growingRows (s : Slot) (rows : List (GridRow α)) : List (GridRow α) :=
  (s.spannedRows rows).filter (·.height.mayGrow)

/-- What a row of some height gets of the height that the rows of a slot lack. -/
def portion (s : Slot) (content : α) (rows : List (GridRow α)) (h : α) : α :=
  let excess := content - s.spannedHeight rows
  let sum := Quantity.total ((s.growingRows rows).map GridRow.computed)
  if 0 < sum then excess * h / sum else excess / ((s.growingRows rows).length : α)

theorem growRows_of_lt {s : Slot} {content : α} {rows : List (GridRow α)}
    (h : ¬ content ≤ s.spannedHeight rows) :
    s.growRows content rows = rows.mapIdx fun i r =>
      if s.SpansRow i ∧ r.height.mayGrow then
        { r with computed := r.computed + s.portion content rows r.computed } else r :=
  if_neg h

theorem map_toRow_growRows (s : Slot) (content : α) (rows : List (GridRow α)) :
    (s.growRows content rows).map GridRow.toRow = rows.map GridRow.toRow := by
  by_cases h : content ≤ s.spannedHeight rows
  · rw [growRows, if_pos h]
  · rw [growRows_of_lt h]
    refine List.ext_getElem (by simp) fun i _ _ => ?_
    simp only [List.getElem_map, List.getElem_mapIdx]
    split_ifs <;> rfl

end Slot

namespace Content

/-- The slot without its height. -/
def outline (c : Content ε α) : GridSlot ε α := { c.slot with height := 0 }

theorem map_toRow_fit (state : List (GridRow α) × List (Content ε α)) (c : Content ε α) :
    (fit state c).1.map GridRow.toRow = state.1.map GridRow.toRow := by
  unfold fit
  simp only []
  split_ifs
  · exact Slot.map_toRow_growRows ..
  · rfl

/-- Fitting changes no content but in the height of its slot. -/
theorem map_fit {β : Type} {f : Content ε α → β} (hf : ∀ c h, f { c with slot.height := h } = f c)
    (state : List (GridRow α) × List (Content ε α)) (c : Content ε α) :
    (fit state c).2.map f = state.2.map f ++ [f c] := by
  unfold fit
  simp only []
  split_ifs <;> rw [List.map_append, List.map_singleton]
  rw [hf]

theorem map_toRow_foldl_fit (cs : List (Content ε α)) (state : List (GridRow α) × List (Content ε α)) :
    (cs.foldl fit state).1.map GridRow.toRow = state.1.map GridRow.toRow := by
  induction cs generalizing state with
  | nil => rfl
  | cons c cs ih => rw [List.foldl_cons, ih, map_toRow_fit]

theorem map_foldl_fit {β : Type} {f : Content ε α → β} (hf : ∀ c h, f { c with slot.height := h } = f c)
    (cs : List (Content ε α)) (state : List (GridRow α) × List (Content ε α)) :
    (cs.foldl fit state).2.map f = state.2.map f ++ cs.map f := by
  induction cs generalizing state with
  | nil => exact (List.append_nil _).symm
  | cons c cs ih => rw [List.foldl_cons, ih, map_fit hf, List.append_assoc]; rfl

theorem map_outline_foldl_fit (cs : List (Content ε α)) (state : List (GridRow α) × List (Content ε α)) :
    (cs.foldl fit state).2.map outline = state.2.map outline ++ cs.map outline :=
  map_foldl_fit (fun _ _ => rfl) cs state

/-- What all contents have but for the heights of their slots they have after they are fitted. -/
theorem forall_foldl_fit {P : Content ε α → Prop} (hP : ∀ c h, P { c with slot.height := h } ↔ P c)
    {cs : List (Content ε α)} (h : ∀ c ∈ cs, P c) (rows : List (GridRow α)) :
    ∀ c ∈ (cs.foldl fit (rows, [])).2, P c := by
  have hmap := map_foldl_fit (fun c h => propext (hP c h)) cs (rows, [])
  rw [List.map_nil, List.nil_append] at hmap
  intro c hc
  have hmem : P c ∈ cs.map P := hmap ▸ List.mem_map_of_mem hc
  obtain ⟨c', hc', heq⟩ := List.mem_map.mp hmem
  exact heq ▸ h c' hc'

end Content

namespace Grid

variable {g g' : Grid ε α} {container : ε}

theorem map_toRow_naturalRows (m : Measure ε α) (container : ε) (g : Grid ε α) :
    (g.naturalRows m container).map GridRow.toRow = g.rows.map GridRow.toRow := by
  unfold naturalRows
  exact List.ext_getElem (by simp) fun i _ _ => by simp

theorem map_toRow_heightened (m : Measure ε α) (container : ε) (g : Grid ε α) :
    (g.heightened m container).rows.map GridRow.toRow = g.rows.map GridRow.toRow :=
  calc (levelRows (g.fitted m container).1).map GridRow.toRow
      = (g.fitted m container).1.map GridRow.toRow := map_toRow_levelRows _
    _ = (levelRows (g.naturalRows m container)).map GridRow.toRow := Content.map_toRow_foldl_fit ..
    _ = (g.naturalRows m container).map GridRow.toRow := map_toRow_levelRows _
    _ = g.rows.map GridRow.toRow := map_toRow_naturalRows m container g

theorem settle_eq (rows : List (GridRow α)) (s : GridSlot ε α) : ∃ h, s.settle rows = { s with height := h } := by
  unfold GridSlot.settle
  split_ifs
  · exact ⟨_, rfl⟩
  · exact ⟨s.height, rfl⟩
  · exact ⟨_, rfl⟩

/-- The height pass changes no slot but in its height. -/
theorem map_slots_heightened (m : Measure ε α) (container : ε) (g : Grid ε α) {β : Type}
    (f : GridSlot ε α → β) (hf : ∀ s h, f { s with height := h } = f s) :
    (g.heightened m container).slots.map f = g.slots.map f := by
  have hsettle : ∀ rows (s : GridSlot ε α), f (s.settle rows) = f s := by
    intro rows s
    obtain ⟨h, hs⟩ := settle_eq rows s
    rw [hs, hf]
  have houtline : ∀ c : Content ε α, f c.slot = f c.outline := fun c => (hf c.slot 0).symm
  have hfitted := Content.map_outline_foldl_fit (g.contents m) (levelRows (g.naturalRows m container), [])
  have hmap := congrArg (List.map f) hfitted
  simp only [contents, Content.outline, List.map_map, List.map_nil, List.nil_append, Function.comp_def, hf] at hmap
  have hslots : (g.heightened m container).slots = (g.fitted m container).2.map fun c =>
      c.slot.settle (levelRows (g.fitted m container).1) := rfl
  rw [hslots, List.map_map]
  simp only [Function.comp_def, hsettle]
  exact hmap

theorem template_heightened (m : Measure ε α) (container : ε) (g : Grid ε α) :
    (g.heightened m container).template = g.template := by
  have hrows := map_toRow_heightened m container g
  have hslots := map_slots_heightened m container g GridSlot.toSlot fun _ _ => rfl
  unfold template
  rw [hrows, hslots]
  rfl

/-- What all slots have but for their heights they have after a height pass. -/
theorem forall_slots_heightened {P : GridSlot ε α → Prop} (hP : ∀ s h, P { s with height := h } ↔ P s)
    (h : ∀ s ∈ g.slots, P s) : ∀ s ∈ (g.heightened m container).slots, P s := by
  have hmap := map_slots_heightened m container g P fun s h => propext (hP s h)
  intro s hs
  have hmem : P s ∈ g.slots.map P := hmap ▸ List.mem_map_of_mem hs
  obtain ⟨s', hs', heq⟩ := List.mem_map.mp hmem
  exact heq ▸ h s' hs'

theorem Materialized.heightened (hm : g.Materialized) : (g.heightened m container).Materialized :=
  ⟨hm.element, forall_slots_heightened (fun _ _ => Iff.rfl) hm.slots⟩

theorem Sound.heightened (hg : g.Sound) : (g.heightened m container).Sound :=
  hg.of_template (template_heightened m container g) rfl

theorem Sound.of_sizeRows (hg : g.Sound) (h : g.sizeRows m = .ok g') : g'.Sound := by
  obtain ⟨container, -, rfl⟩ := eq_heightened hg h
  exact hg.heightened

end Grid

end SlotGrid
