import SlotGrid.Proofs.Document.Creation
import SlotGrid.Proofs.Session.Links
import SlotGrid.Proofs.Session.Registry
import SlotGrid.Proofs.Session.Rerun
import SlotGrid.Proofs.Style.Positions

/-! # What runs change in a document

A run adds boxes for templates and slots, and moves content into slots that the positions of the style texts name.
Everything else stays where it is, however often the document is laid out. So content gets into an empty slot only
by a position that names this slot, which takes an escape. Documents are well built as long as content is inserted
and moved, styles are added and sessions are run, and this is all that is asked of them here.
-/

namespace SlotGrid

/-- Ids of templates and slots begin with the text for templates. -/
def Config.Owns (c : Config) (id : String) : Prop := c.templatePrefix.toList <+: id.toList

theorem Config.owns_of_mem_ids {c : Config} {i : ℕ} {t : Template} {id : String} (h : id ∈ (c.grid i t).ids) :
    c.Owns id := by
  have htemplate : c.templatePrefix.toList <+: (c.templateId i).toList := by
    rw [Config.templateId, String.toList_append]
    exact List.prefix_append _ _
  rw [ids_grid, List.mem_cons, List.mem_map] at h
  rcases h with rfl | ⟨name, -, rfl⟩
  · exact htemplate
  · unfold Owns
    simp only [slotId, String.toList_append, List.append_assoc]
    exact htemplate.trans (List.prefix_append _ _)

namespace Document

variable {P : String → Prop} {ps : List Style.Position} {d d' d'' : Document}

/-- There may be more boxes for templates and slots, and content may have gone to slots that the positions name. -/
structure Reworked (P : String → Prop) (ps : List Style.Position) (d d' : Document) : Prop where
  wellBuilt : d'.WellBuilt
  styles : d'.styles = d.styles
  creates : d.Creates P d'
  parent : ∀ {e p}, d.isContent e = true → d'.parent? e = some p →
    d.parent? e = some p ∨ ∃ x ∈ ps, d'.role? p = some (.slot x.slot)

namespace Reworked

theorem refl (P : String → Prop) (ps : List Style.Position) (h : d.WellBuilt) : d.Reworked P ps d :=
  ⟨h, rfl, .refl P d, fun _ => .inl⟩

theorem trans (h : d.Reworked P ps d') (h' : d'.Reworked P ps d'') : d.Reworked P ps d'' := by
  refine ⟨h'.wellBuilt, h'.styles.trans h.styles, h.creates.trans h'.creates, fun {e p} he hp => ?_⟩
  rcases h'.parent ((h.creates.isContent_eq e).trans he) hp with hp | hslot
  · refine (h.parent he hp).imp_right ?_
    rintro ⟨x, hx, hrole⟩
    exact ⟨x, hx, (h'.creates.role?_eq (has_of_role? hrole)).trans hrole⟩
  · exact .inr hslot

theorem joinedStyles_eq (h : d.Reworked P ps d') : d'.joinedStyles = d.joinedStyles := by
  unfold joinedStyles
  rw [h.styles]

end Reworked

end Document

namespace Session

variable {s : Session} {d : Document}

theorem owns_registered (s : Session) (d : Document) :
    ∀ g ∈ (s.registered d).grids, s.config.Owns g.id ∧ ∀ slot ∈ g.slots, s.config.Owns slot.id := by
  intro g hg
  have hgrids := grids_parse s.clear d.joinedStyles
  change (s.registered d).grids = [] ++ _ at hgrids
  rw [hgrids, List.nil_append] at hg
  obtain ⟨i, hi, rfl⟩ := List.mem_mapIdx.mp hg
  constructor
  · exact Config.owns_of_mem_ids List.mem_cons_self
  · exact fun slot hslot => Config.owns_of_mem_ids (List.mem_cons_of_mem _ (List.mem_map_of_mem hslot))

theorem positions_registered (s : Session) (d : Document) :
    (s.registered d).positions = (Style.parse 0 d.joinedStyles).positions :=
  positions_parse s.clear d.joinedStyles

theorem reworked_run (hd : d.WellBuilt) {outcome : Outcome} (hrun : s.run d = .ok outcome) :
    d.Reworked s.config.Owns (Style.parse 0 d.joinedStyles).positions outcome.document := by
  obtain ⟨slotWidths, regions, hdocument⟩ := exists_document_eq hrun
  rw [hdocument, ← positions_registered s d]
  have hcreated := hd.grown_materializeAll (s.registered d).grids
  have hplaced := hcreated.wellBuilt.rearranged_placeAll (s.registered d).positions
  constructor
  · exact ⟨⟨hplaced.wellBuilt.known, hplaced.wellBuilt.once, hplaced.wellBuilt.acyclic⟩, hplaced.wellBuilt.slots⟩
  · exact (Document.styles_placeAll ..).trans (Document.styles_materializeAll ..)
  · obtain ⟨xs, hxs, hboxes⟩ := Document.creates_materializeAll (d := d) (owns_registered s d)
    exact ⟨xs, hplaced.elements.trans hxs, hboxes⟩
  · intro e p he hp
    rcases hcreated.wellBuilt.parent?_placeAll hp with hp | ⟨x, hx, hrole⟩
    · exact .inl ((hcreated.parent (Document.has_of_role? (Document.isContent_iff.mp he))).symm.trans hp)
    · exact .inr ⟨x, hx, (hplaced.role?_eq p).trans hrole⟩

theorem exists_run_reworked (s : Session) (hd : d.WellBuilt) (n : ℕ) :
    ∃ s' d', s.runTimes d n = .ok (s', d') ∧ s'.config = s.config ∧
      d.Reworked s.config.Owns (Style.parse 0 d.joinedStyles).positions d' := by
  refine exists_runTimes (fun {s' d' outcome} h hrun => ?_) ⟨rfl, .refl _ _ hd⟩ n
  obtain ⟨hconfig, hreworked⟩ := h
  have hstep := reworked_run hreworked.wellBuilt hrun
  rw [hconfig, hreworked.joinedStyles_eq] at hstep
  refine ⟨?_, hreworked.trans hstep⟩
  obtain ⟨_, _, -, rfl⟩ := run_eq_ok.mp hrun
  exact (config_registered s' d').trans hconfig

end Session

end SlotGrid
