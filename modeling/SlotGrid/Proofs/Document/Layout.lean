import SlotGrid.Document.Layout
import SlotGrid.Document.Placement
import SlotGrid.Proofs.Sizing.Pass

/-! # Laying out without errors

A template gets elements for all of its slots or none at all. So the layout of the templates of a document ends
without an error, and the style texts of the document stay as they are.
-/

namespace SlotGrid

namespace Document

variable {d : Document} {g : Grid ElementId Float}

/-! ## Elements for templates -/

theorem map_detached_materializeSlots {α : Type} (d : Document) (template : ElementId)
    (ss : List (GridSlot ElementId α)) :
    (d.materializeSlots template ss).2.map GridSlot.detached = ss.map GridSlot.detached := by
  induction ss generalizing d with
  | nil => rfl
  | cons s ss ih =>
    unfold materializeSlots
    rw [List.map_cons, List.map_cons, ih]
    rfl

theorem element_of_mem_materializeSlots {α : Type} {template : ElementId} {ss : List (GridSlot ElementId α)}
    {s : GridSlot ElementId α} (hs : s ∈ (d.materializeSlots template ss).2) : s.element.isSome := by
  induction ss generalizing d with
  | nil => cases hs
  | cons t ss ih =>
    unfold materializeSlots at hs
    rcases List.mem_cons.mp hs with rfl | hs
    · rfl
    · exact ih hs

/-- A template gets either all elements or none. -/
theorem ready_materialize (d : Document) (hg : g.Sound) (he : g.element = none) : (d.materialize g).2.Ready := by
  unfold materialize
  cases d.queryOne? g.selector with
  | none =>
    refine ⟨hg, fun h => ?_⟩
    unfold Grid.isMaterialized at h
    rw [he] at h
    cases h
  | some container =>
    refine ⟨hg.attached _ (map_detached_materializeSlots ..), fun _ => ⟨rfl, fun s hs _ => ?_⟩⟩
    exact element_of_mem_materializeSlots hs

theorem template_materialize (d : Document) (g : Grid ElementId Float) :
    (d.materialize g).2.template = g.template := by
  unfold materialize
  split
  · rfl
  · exact Grid.template_attached _ (map_detached_materializeSlots ..)

theorem map_template_materializeAll (d : Document) (gs : List (Grid ElementId Float)) :
    (d.materializeAll gs).2.map Grid.template = gs.map Grid.template := by
  induction gs generalizing d with
  | nil => rfl
  | cons g gs ih =>
    unfold materializeAll
    rw [List.map_cons, List.map_cons, ih, template_materialize]

theorem ready_materializeAll (d : Document) {gs : List (Grid ElementId Float)}
    (hgs : ∀ g ∈ gs, g.Sound ∧ g.element = none) : ∀ g ∈ (d.materializeAll gs).2, g.Ready := by
  induction gs generalizing d with
  | nil => exact fun _ hg => absurd hg List.not_mem_nil
  | cons g gs ih =>
    rw [List.forall_mem_cons] at hgs
    unfold materializeAll
    rw [List.forall_mem_cons]
    exact ⟨ready_materialize d hgs.1.1 hgs.1.2, ih _ hgs.2⟩

/-! ## Style texts -/

/-- What is kept when elements are inserted, with slots or without, is kept when grids get their elements. -/
theorem materializeAll_induction {α : Type} {P : Document → Prop}
    (hinsert : ∀ {d : Document} (x : Element) (p : ElementId), P d → P (d.insertUnder x p))
    (hslot : ∀ {d : Document} (x : Element) (template : ElementId) (name : Char), P d →
      P ((d.insertUnder x template).addSlot ⟨template, name, d.nextId⟩))
    (hd : P d) (gs : List (Grid ElementId α)) : P (d.materializeAll gs).1 := by
  have hwithTemplate : ∀ {d : Document} container id, P d → P (d.withTemplate container id).1 := by
    intro d container id hd
    unfold withTemplate
    split
    · exact hd
    · exact hinsert _ _ hd
  have hwithSlot : ∀ {d : Document} template name id, P d → P (d.withSlot template name id).1 := by
    intro d template name id hd
    unfold withSlot
    split
    · exact hd
    · exact hslot _ _ _ hd
  have hslots : ∀ {d : Document} template (ss : List (GridSlot ElementId α)), P d →
      P (d.materializeSlots template ss).1 := by
    intro d template ss hd
    induction ss generalizing d with
    | nil => exact hd
    | cons s ss ih => exact ih (hwithSlot _ _ _ hd)
  induction gs generalizing d with
  | nil => exact hd
  | cons g gs ih =>
    have hg : P (d.materialize g).1 := by
      unfold materialize
      split
      · exact hd
      · exact hslots _ _ (hwithTemplate _ _ hd)
    exact ih hg

theorem styles_materializeAll {α : Type} (d : Document) (gs : List (Grid ElementId α)) :
    (d.materializeAll gs).1.styles = d.styles :=
  materializeAll_induction (P := fun d' => d'.styles = d.styles) (fun _ _ h => h) (fun _ _ _ h => h) rfl gs

theorem styles_moveToSlot (d : Document) (name : Char) (e : ElementId) :
    (d.moveToSlot name e).styles = d.styles := by
  unfold moveToSlot
  cases d.slotAround? e name <;> rfl

theorem styles_place (d : Document) (p : Style.Position) : (d.place p).styles = d.styles :=
  List.foldlRecOn (motive := fun d' : Document => d'.styles = d.styles) _ _ rfl fun d' hd' e _ =>
    (styles_moveToSlot d' p.slot e).trans hd'

theorem styles_placeAll (d : Document) (ps : List Style.Position) : (d.placeAll ps).styles = d.styles :=
  List.foldlRecOn (motive := fun d' : Document => d'.styles = d.styles) _ _ rfl fun d' hd' p _ =>
    (styles_place d' p).trans hd'

theorem styles_keepSlotWidths (d : Document) (g : Grid ElementId Float) :
    (d.keepSlotWidths g).styles = d.styles := by
  refine List.foldlRecOn (motive := fun d' : Document => d'.styles = d.styles) _ _ rfl fun d' hd' s _ => ?_
  split
  · exact hd'
  · exact hd'

/-! ## Layout -/

section Outcomes

variable {config : Config} {d' : Document} {gs gs' : List (Grid ElementId Float)}

theorem sizeColumns_cons_eq_ok : d.sizeColumns config (g :: gs) = .ok (d', gs') ↔
    ∃ g' gs₁, g.sizeColumnsIfMaterialized d.measure config = .ok g' ∧
      (if g'.isMaterialized then d.keepSlotWidths g' else d).sizeColumns config gs = .ok (d', gs₁) ∧
      gs' = g' :: gs₁ := by
  constructor
  · intro h
    obtain ⟨g', hg, h⟩ := Checked.bind_eq_ok.mp h
    obtain ⟨⟨d₁, gs₁⟩, hgs, h⟩ := Checked.bind_eq_ok.mp h
    cases h
    exact ⟨g', gs₁, hg, hgs, rfl⟩
  · rintro ⟨g', gs₁, hg, hgs, rfl⟩
    exact Checked.bind_eq_ok.mpr ⟨g', hg, Checked.bind_eq_ok.mpr ⟨(d', gs₁), hgs, rfl⟩⟩

theorem layOut_eq_ok : d.layOut config gs = .ok (d', gs') ↔
    ∃ d₁ gs₁, d.sizeColumns config gs = .ok (d₁, gs₁) ∧
      gs₁.mapM (·.sizeRowsIfMaterialized d₁.measure) = .ok gs' ∧ d₁.applyGrids gs' = .ok d' := by
  constructor
  · intro h
    obtain ⟨⟨d₁, gs₁⟩, hcolumns, h⟩ := Checked.bind_eq_ok.mp h
    obtain ⟨gs₂, hrows, h⟩ := Checked.bind_eq_ok.mp h
    obtain ⟨d₂, happly, h⟩ := Checked.bind_eq_ok.mp h
    cases h
    exact ⟨d₁, gs₁, hcolumns, hrows, happly⟩
  · rintro ⟨d₁, gs₁, hcolumns, hrows, happly⟩
    refine Checked.bind_eq_ok.mpr ⟨(d₁, gs₁), hcolumns, Checked.bind_eq_ok.mpr ⟨gs', hrows, ?_⟩⟩
    exact Checked.bind_eq_ok.mpr ⟨d', happly, rfl⟩

/-- What a width pass does not change in a grid, the width passes over all grids do not change. -/
theorem map_eq_of_sizeColumns {β : Type} {f : Grid ElementId Float → β}
    (hf : ∀ {m g g'}, Grid.sizeColumnsIfMaterialized m config g = .ok g' → f g' = f g)
    (h : d.sizeColumns config gs = .ok (d', gs')) : gs'.map f = gs.map f := by
  induction gs generalizing d gs' with
  | nil =>
    cases h
    rfl
  | cons g gs ih =>
    obtain ⟨g', gs₁, hg, hgs, rfl⟩ := sizeColumns_cons_eq_ok.mp h
    rw [List.map_cons, List.map_cons, ih hgs, hf hg]

theorem map_element_layOut (h : d.layOut config gs = .ok (d', gs')) : gs'.map Grid.element = gs.map Grid.element := by
  obtain ⟨d₁, gs₁, hcolumns, hrows, -⟩ := layOut_eq_ok.mp h
  rw [← map_eq_of_sizeColumns Grid.element_sizeColumnsIfMaterialized hcolumns]
  exact Checked.map_eq_of_mapM (fun _ _ _ hg => Grid.element_sizeRowsIfMaterialized hg) hrows

end Outcomes

theorem exists_sizeColumns (config : Config) (d : Document) {gs : List (Grid ElementId Float)}
    (hgs : ∀ g ∈ gs, g.Ready) :
    ∃ d' gs', d.sizeColumns config gs = .ok (d', gs') ∧ List.Forall₂ Grid.SizedFrom gs gs' ∧
      d'.styles = d.styles := by
  induction gs generalizing d with
  | nil => exact ⟨d, [], rfl, .nil, rfl⟩
  | cons g gs ih =>
    rw [List.forall_mem_cons] at hgs
    obtain ⟨g', hg', hs⟩ := Grid.exists_sizeColumnsIfMaterialized d.measure config hgs.1
    obtain ⟨d', gs', hgs', hss, hstyles⟩ := ih (if g'.isMaterialized then d.keepSlotWidths g' else d) hgs.2
    refine ⟨d', g' :: gs', sizeColumns_cons_eq_ok.mpr ⟨g', gs', hg', hgs', rfl⟩, .cons hs hss, hstyles.trans ?_⟩
    split_ifs
    · exact styles_keepSlotWidths d g'
    · rfl

theorem exists_applyGrid (d : Document) (hg : g.Sound) :
    ∃ d', d.applyGrid g = .ok d' ∧ d'.styles = d.styles := by
  unfold applyGrid
  split
  · exact ⟨d, rfl, rfl⟩
  · refine Checked.exists_foldlM (fun d' hd' s hs => ?_) rfl
    rw [hg.requireOrigin_eq_ok hs]
    split
    · exact ⟨_, rfl, hd'⟩
    · exact ⟨_, rfl, hd'⟩

theorem exists_layOut (config : Config) (d : Document) {gs : List (Grid ElementId Float)}
    (hgs : ∀ g ∈ gs, g.Ready) :
    ∃ d' gs', d.layOut config gs = .ok (d', gs') ∧ (∀ g ∈ gs', g.Sized) ∧
      gs'.map Grid.template = gs.map Grid.template ∧ d'.styles = d.styles := by
  obtain ⟨d₁, gs₁, h₁, hs₁, hd₁⟩ := d.exists_sizeColumns config hgs
  obtain ⟨gs₂, h₂, hs₂⟩ := Checked.exists_mapM fun g hg =>
    Grid.exists_sizeRowsIfMaterialized d₁.measure (Grid.sized_of_forall₂ hs₁ g hg)
  have hsized := Grid.sized_of_forall₂ hs₂
  have hstep : ∀ d' : Document, d'.styles = d.styles → ∀ g ∈ gs₂,
      ∃ d'', d'.applyGrid g = .ok d'' ∧ d''.styles = d.styles := by
    intro d' hd' g hg
    obtain ⟨d'', hd'', hstyles⟩ := exists_applyGrid d' (hsized g hg).sound
    exact ⟨d'', hd'', hstyles.trans hd'⟩
  obtain ⟨d₂, h₃, hd₂⟩ := Checked.exists_foldlM hstep hd₁
  refine ⟨d₂, gs₂, layOut_eq_ok.mpr ⟨d₁, gs₁, h₁, h₂, h₃⟩, hsized, ?_, hd₂⟩
  rw [Grid.map_template_eq hs₂, Grid.map_template_eq hs₁]

end Document

end SlotGrid
