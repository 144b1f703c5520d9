import SlotGrid.Proofs.Session.Placement

/-! # Containers of templates

A template hangs below the first element that its selector selects when its turn comes. The boxes of other templates
are elements like all others then, so the container is content for sure only if the selector asks for what no box has.
-/

namespace SlotGrid

namespace Document

variable {α : Type} {d : Document} {e : ElementId}

theorem WellBuilt.parent?_withTemplate (h : d.WellBuilt) (container : ElementId) (id : String) :
    (d.withTemplate container id).1.parent? (d.withTemplate container id).2 = some container := by
  unfold withTemplate
  split
  · rename_i e he
    exact h.mem_children_iff.mp (List.mem_of_find?_eq_some he)
  · exact (h.isChild_insertUnder _).mpr (by rw [if_pos rfl])

theorem WellBuilt.parent?_materialize (h : d.WellBuilt) {g : Grid ElementId α} (hg : g.element = none)
    (he : (d.materialize g).2.element = some e) : ∃ container, d.queryOne? g.selector = some container ∧
      (d.materialize g).1.parent? e = some container ∧ (d.materialize g).1.role? e = some .template := by
  unfold materialize at he ⊢
  cases hc : d.queryOne? g.selector with
  | none =>
    rw [hc] at he
    exact absurd (hg.symm.trans he) (Option.some_ne_none e).symm
  | some container =>
    rw [hc] at he
    cases he
    obtain ⟨htemplate, hrole⟩ := h.grown_withTemplate (has_of_queryOne? hc) g.id
    have hslots := htemplate.wellBuilt.grown_materializeSlots hrole g.slots
    refine ⟨container, rfl, ?_, (hslots.role (has_of_role? hrole)).trans hrole⟩
    exact (hslots.parent (has_of_role? hrole)).trans (h.parent?_withTemplate container g.id)

/-- What a grid among others gets is what it gets when the ones in front of it have their elements. -/
theorem WellBuilt.materializeAll_getElem? (h : d.WellBuilt) {gs : List (Grid ElementId α)} {i : ℕ}
    {g : Grid ElementId α} (hg : gs[i]? = some g) :
    (d.materializeAll gs).2[i]? = some ((d.materializeAll (gs.take i)).1.materialize g).2 ∧
      ((d.materializeAll (gs.take i)).1.materialize g).1.Grown (d.materializeAll gs).1 := by
  induction gs generalizing d i with
  | nil => cases hg
  | cons x xs ih =>
    have hx := (h.grown_materialize x).wellBuilt
    cases i with
    | zero =>
      cases hg
      exact ⟨rfl, hx.grown_materializeAll xs⟩
    | succ i => exact ih hx hg

end Document

namespace Session

variable {s : Session} {d : Document} {outcome : Outcome} {i : ℕ} {g : Grid ElementId Float} {e : ElementId}

/-- The templates that a run leaves are those that it has registered. -/
theorem map_template_run (hrun : s.run d = .ok outcome) :
    outcome.session.grids.map Grid.template = (s.registered d).grids.map Grid.template := by
  obtain ⟨outcome', hrun', hfinished, -⟩ := exists_run s d
  obtain rfl := Except.ok.inj (hrun.symm.trans hrun')
  exact hfinished.templates.trans (map_template_foldl_register s.clear _).symm

/-- They have the elements that were created for them. -/
theorem map_element_run (hrun : s.run d = .ok outcome) :
    outcome.session.grids.map Grid.element = (s.prepared d).2.map Grid.element := by
  obtain ⟨d', grids, hlayout, rfl⟩ := run_eq_ok.mp hrun
  exact Document.map_element_layOut hlayout

/-- What is no content stays where it was created. -/
theorem unmoved_of_run (hrun : s.run d = .ok outcome) {role : Role} (hcontent : role ≠ .content)
    (he : (d.materializeAll (s.registered d).grids).1.role? e = some role) :
    outcome.document.parent? e = (d.materializeAll (s.registered d).grids).1.parent? e ∧
      outcome.document.role? e = some role := by
  obtain ⟨slotWidths, regions, hdocument⟩ := exists_document_eq hrun
  rw [hdocument, prepared_document]
  constructor
  · refine Document.parent?_moveAll_of_not_mem fun hmem => hcontent ?_
    obtain ⟨m, hm, rfl⟩ := List.mem_map.mp hmem
    have hmoved := Document.isContent_iff.mp (Document.isContent_of_mem_moves hm)
    exact Option.some.inj (he.symm.trans hmoved)
  · exact (congrArg (Option.map Element.role) (Document.get?_moveAll ..)).trans he

/-- The document when it is the turn of the template with a number: those in front of it have their elements. -/
def turn (s : Session) (d : Document) (i : ℕ) : Document := (d.materializeAll ((s.registered d).grids.take i)).1

/-- The element of a template hangs below the element that was selected first when it was the turn of the template. -/
theorem exists_container (hd : d.WellBuilt) (hrun : s.run d = .ok outcome)
    (hg : outcome.session.grids[i]? = some g) (he : g.element = some e) :
    ∃ container, (s.turn d i).queryOne? g.selector = some container ∧
      outcome.document.parent? e = some container ∧ outcome.document.role? e = some .template := by
  -- The template as it was registered, and what it has got when it was its turn.
  have htemplate := congrArg (·[i]?) (map_template_run hrun)
  have helement := congrArg (·[i]?) (map_element_run hrun)
  simp only [List.getElem?_map, hg, Option.map_some] at htemplate helement
  obtain ⟨g₀, hg₀, hsame⟩ := Option.map_eq_some_iff.mp htemplate.symm
  have hselector : g₀.selector = g.selector := congrArg Template.selector hsame
  have hnone : g₀.element = none := (sound_of_mem_parse (List.mem_of_getElem? hg₀)).2
  obtain ⟨hat, hlater⟩ := hd.materializeAll_getElem? hg₀
  rw [show (s.prepared d).2[i]? = _ from hat, Option.map_some, Option.some.injEq] at helement
  have hturn : (s.turn d i).WellBuilt := (hd.grown_materializeAll _).wellBuilt
  obtain ⟨container, hcontainer, hparent, hrole⟩ := hturn.parent?_materialize hnone (helement.symm.trans he)
  have hhas := Document.has_of_role? hrole
  obtain ⟨hparent', hrole'⟩ := unmoved_of_run hrun (by simp) ((hlater.role hhas).trans hrole)
  exact ⟨container, hselector ▸ hcontainer, hparent'.trans ((hlater.parent hhas).trans hparent), hrole'⟩

theorem creates_turn (s : Session) (d : Document) (i : ℕ) : d.Creates s.config.Owns (s.turn d i) :=
  Document.creates_materializeAll fun g hg => owns_registered s d g (List.mem_of_mem_take hg)

end Session

end SlotGrid
