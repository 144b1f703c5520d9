import SlotGrid.Proofs.Document.SlotWidths
import SlotGrid.Proofs.Session.Containers
import SlotGrid.Proofs.Sizing.Repeated

/-! # Templates in slots

The widths of templates are computed one after another, and every template finds the slot widths of those in front of
it. The document also has slot widths of earlier runs. A template in a slot of one in front of it is still as wide as
this run has made the slot, since no other slot has the same element and nothing in between has a width.
-/

namespace SlotGrid

theorem exists_getElem?_of_map_eq {β γ : Type} {f : β → γ} {xs ys : List β} (h : xs.map f = ys.map f) {i : ℕ} {y : β}
    (hy : ys[i]? = some y) : ∃ x, xs[i]? = some x ∧ f x = f y := by
  have hat := congrArg (·[i]?) h
  simp only [List.getElem?_map, hy, Option.map_some] at hat
  exact Option.map_eq_some_iff.mp hat

namespace Grid

variable {ε α : Type} [Quantity α] {g g' : Grid ε α}

theorem withoutHeights_of_sizeRowsIfMaterialized {m : Measure ε α} (h : g.sizeRowsIfMaterialized m = .ok g') :
    g'.withoutHeights = g.withoutHeights := by
  unfold sizeRowsIfMaterialized at h
  split_ifs at h
  · exact withoutHeights_of_sizeRows h
  · cases h
    rfl

theorem slotElements_withoutHeights (g : Grid ε α) : g.withoutHeights.slotElements = g.slotElements :=
  (List.filterMap_map ..).trans rfl

/-- Grids that differ in their heights only have slots with the same elements and widths. -/
theorem exists_slot_of_withoutHeights (h : g'.withoutHeights = g.withoutHeights) {s : GridSlot ε α} (hs : s ∈ g.slots) :
    ∃ s' ∈ g'.slots, s'.element = s.element ∧ s'.width = s.width := by
  have hslots : g'.slots.map GridSlot.withoutHeight = g.slots.map GridSlot.withoutHeight := congrArg slots h
  have hmem : s.withoutHeight ∈ g'.slots.map GridSlot.withoutHeight := hslots ▸ List.mem_map_of_mem hs
  obtain ⟨s', hs', heq⟩ := List.mem_map.mp hmem
  have helement := congrArg GridSlot.element heq
  have hwidth := congrArg GridSlot.width heq
  exact ⟨s', hs', helement, hwidth⟩

end Grid

namespace Session

variable {s : Session} {d : Document} {outcome : Outcome} {i : ℕ} {g : Grid ElementId Float} {e : ElementId}

/-! ## Prepared documents -/

theorem bare_registered (s : Session) (d : Document) :
    ∀ g ∈ (s.registered d).grids, g.element = none ∧ ∀ slot ∈ g.slots, slot.element = none := by
  intro g hg
  have hgrids := grids_parse s.clear d.joinedStyles
  change (s.registered d).grids = [] ++ _ at hgrids
  rw [hgrids, List.nil_append] at hg
  obtain ⟨i, hi, rfl⟩ := List.mem_mapIdx.mp hg
  refine ⟨rfl, fun slot hslot => ?_⟩
  simp only [Config.grid, Grid.named, Grid.ofTemplate, List.map_map] at hslot
  obtain ⟨_, -, rfl⟩ := List.mem_map.mp hslot
  rfl

theorem houses_prepared (s : Session) (d : Document) : ∀ g ∈ (s.prepared d).2, (s.prepared d).1.Houses g := fun g hg =>
  (Document.houses_materializeAll (nodup_ids_registered s d) (bare_registered s d) g hg).placeAll _

theorem tracked_prepared (hd : d.Tracked) (s : Session) : (s.prepared d).1.Tracked :=
  (hd.materializeAll (s.registered d).grids).placeAll _

/-- No element is that of two slots. -/
theorem nodup_slotElements_prepared (hd : d.Tracked) (s : Session) :
    ((s.prepared d).2.flatMap Grid.slotElements).Nodup := by
  refine Document.nodup_slotElements (tracked_prepared hd s).once ?_ (houses_prepared s d) fun g hg => ?_
  · exact (Document.map_id_materializeAll ..).symm ▸ nodup_ids_registered s d
  · exact (Document.ready_materializeAll d (fun g hg => sound_of_mem_parse hg) g hg).sound.nodup_names

/-! ## Width passes -/

/-- The width pass of a run over one of its templates: `now` is the document when it is the turn of the template, with
the slot widths of those in front of it, and `sized` is what the template comes to. -/
def SizesColumns (s : Session) (d : Document) (i : ℕ) (now : Document) (sized : Grid ElementId Float) : Prop :=
  ∃ front g, (s.prepared d).1.sizeColumns s.config ((s.prepared d).2.take i) = .ok (now, front) ∧
    (s.prepared d).2[i]? = some g ∧ g.sizeColumns now.measure s.config = .ok sized

/-- The width passes of a run leave its templates as they are at the end, but for heights. -/
theorem exists_widthPasses (hrun : s.run d = .ok outcome) : ∃ d' grids regions,
    (s.prepared d).1.sizeColumns s.config (s.prepared d).2 = .ok (d', grids) ∧
      outcome.document = { d' with regions } ∧
      grids.map Grid.withoutHeights = outcome.session.grids.map Grid.withoutHeights := by
  obtain ⟨d'', grids', hlayout, rfl⟩ := run_eq_ok.mp hrun
  obtain ⟨d', grids, hcolumns, hrows, happly⟩ := Document.layOut_eq_ok.mp hlayout
  obtain ⟨regions, hregions⟩ := Document.exists_of_applyGrids happly
  have hgrids : grids'.map Grid.withoutHeights = grids.map Grid.withoutHeights :=
    Checked.map_eq_of_mapM (fun _ _ _ hg => Grid.withoutHeights_of_sizeRowsIfMaterialized hg) hrows
  exact ⟨d', grids, regions, hcolumns, hregions, hgrids.symm⟩

/-- The slots have the elements that were created for them. -/
theorem map_slotElements_run (hrun : s.run d = .ok outcome) :
    outcome.session.grids.map Grid.slotElements = (s.prepared d).2.map Grid.slotElements := by
  obtain ⟨d', grids, regions, hcolumns, -, hgrids⟩ := exists_widthPasses hrun
  have helements := congrArg (List.map Grid.slotElements) hgrids
  simp only [List.map_map, Function.comp_def, Grid.slotElements_withoutHeights] at helements
  exact helements.symm.trans (Document.map_eq_of_sizeColumns Grid.slotElements_of_sizeColumns hcolumns)

theorem tracked_run (hd : d.Tracked) (hrun : s.run d = .ok outcome) : outcome.document.Tracked := by
  obtain ⟨d', grids, regions, hcolumns, hdocument, -⟩ := exists_widthPasses hrun
  have hsized := (tracked_prepared hd s).sizeColumns hcolumns (houses_prepared s d)
  rw [hdocument]
  exact hsized.of_eq le_rfl rfl rfl

/-- A template in a slot of one in front of it has the width of the slot around it when its columns are sized. -/
theorem exists_sizesColumns (hd : d.Tracked) (hrun : s.run d = .ok outcome) (hg : outcome.session.grids[i]? = some g)
    (he : g.element = some e) {x : ElementId} (hnearest : (s.prepared d).1.nearestSized? e = some x)
    (hown : (s.prepared d).1.ownWidth? x = none) {j : ℕ} {outer : Grid ElementId Float}
    {slot : GridSlot ElementId Float} (hj : j < i) (houter : outcome.session.grids[j]? = some outer)
    (hslot : slot ∈ outer.slots) (hx : slot.element = some x) :
    ∃ now sized w, s.SizesColumns d i now sized ∧ sized.withoutHeights = g.withoutHeights ∧
      slot.width = some w ∧ now.measure.available e = w.toFloat32.toFloat := by
  obtain ⟨d', grids, regions, hcolumns, -, hgrids⟩ := exists_widthPasses hrun
  obtain ⟨sized, hsized, hsame⟩ := exists_getElem?_of_map_eq hgrids hg
  obtain ⟨passed, hpassed, hsame'⟩ := exists_getElem?_of_map_eq hgrids houter
  obtain ⟨now, g₀, hfront, hg₀, hsizes⟩ := Document.exists_sizeColumns_take hcolumns hsized
  have he₀ : g₀.element = some e := by
    have helement := congrArg Grid.element hsame
    exact (Grid.element_sizeColumnsIfMaterialized hsizes).symm.trans (helement.trans he)
  have hmat : g₀.isMaterialized = true := Option.isSome_iff_exists.mpr ⟨e, he₀⟩
  -- the template in front is among those that have been sized, with the same slot
  have hmem : passed ∈ grids.take i := List.mem_of_getElem? ((List.getElem?_take_of_lt hj).trans hpassed)
  obtain ⟨slot', hslot', helement, hwidth⟩ := Grid.exists_slot_of_withoutHeights hsame' hslot
  have hsub : ((s.prepared d).2.take i).Sublist (s.prepared d).2 := List.take_sublist i _
  obtain ⟨w, hw, haround⟩ := (tracked_prepared hd s).exists_widthAround_eq hfront
    (fun g hg => houses_prepared s d g (hsub.mem hg))
    ((nodup_slotElements_prepared hd s).sublist (hsub.flatMap _)) hnearest hown hmem hslot' (helement.trans hx)
  refine ⟨now, sized, w, ⟨_, g₀, hfront, hg₀, (if_pos hmat).symm.trans hsizes⟩, hsame, hwidth.symm.trans hw, ?_⟩
  exact congrArg Float32.toFloat haround

end Session

end SlotGrid
