import SlotGrid.Proofs.Document.Relayout
import SlotGrid.Proofs.Document.Reuse
import SlotGrid.Proofs.Session.Run

/-! # Running again

A run leaves elements, moved content and slot widths in the document, and the next run meets them. It changes
nothing as long as it gets the same answers: for the selectors of templates, for the content to be placed and for
the widths around templates.
-/

namespace SlotGrid

namespace Session

/-- What a run has registered when it begins to change the document. -/
def registered (s : Session) (d : Document) : Session := (s.clear.parse d.joinedStyles).2

theorem config_registered (s : Session) (d : Document) : (s.registered d).config = s.config :=
  config_foldl_register s.clear _

/-- Templates have different ids. -/
theorem nodup_ids_registered (s : Session) (d : Document) : ((s.registered d).grids.map Grid.id).Nodup := by
  change (((Style.parse 0 d.joinedStyles).templates.foldl register s.clear).grids.map Grid.id).Nodup
  rw [map_id_foldl_register]
  exact (List.nodup_range' 1).map s.config.templateId_injective

/-- The document with all content placed, and the templates with their elements, as the run lays them out. -/
def prepared (s : Session) (d : Document) : Document × List (Grid ElementId Float) :=
  let created := d.materializeAll (s.registered d).grids
  (created.1.placeAll (s.registered d).positions, created.2)

theorem run_eq_ok {s : Session} {d : Document} {outcome : Outcome} :
    s.run d = .ok outcome ↔ ∃ d' grids, (s.prepared d).1.layOut s.config (s.prepared d).2 = .ok (d', grids) ∧
      outcome = ⟨(s.clear.parse d.joinedStyles).1, { s.registered d with grids }, d'⟩ := by
  constructor
  · intro h
    obtain ⟨⟨d', grids⟩, hlayout, h⟩ := Checked.bind_eq_ok.mp h
    cases h
    change (s.prepared d).1.layOut (s.registered d).config (s.prepared d).2 = _ at hlayout
    rw [config_registered] at hlayout
    exact ⟨d', grids, hlayout, rfl⟩
  · rintro ⟨d', grids, hlayout, rfl⟩
    rw [← s.config_registered d] at hlayout
    exact Checked.bind_eq_ok.mpr ⟨(d', grids), hlayout, rfl⟩

theorem prepared_document (s : Session) (d : Document) :
    (s.prepared d).1 = (d.materializeAll (s.registered d).grids).1.moveAll
      ((d.materializeAll (s.registered d).grids).1.moves (s.registered d).positions) :=
  Document.placeAll_eq_moveAll _ _

section Again

variable {s : Session} {d : Document} {outcome : Outcome}

/-- The style texts stay in the document, so the next run registers the same. -/
theorem parse_again (hrun : s.run d = .ok outcome) :
    outcome.session.clear.parse outcome.document.joinedStyles = s.clear.parse d.joinedStyles := by
  obtain ⟨d', grids, hlayout, rfl⟩ := run_eq_ok.mp hrun
  have hconfig : ({ s.registered d with grids } : Session).clear = s.clear := by
    unfold clear
    rw [show ({ s.registered d with grids } : Session).config = s.config from s.config_registered d]
  have hstyles : d'.styles = d.styles := (Document.sameContent_layOut hlayout).styles.trans
    ((Document.styles_placeAll ..).trans (Document.styles_materializeAll ..))
  have hjoined : d'.joinedStyles = d.joinedStyles := by
    unfold Document.joinedStyles
    rw [hstyles]
  rw [hconfig, hjoined]

theorem registered_again (hrun : s.run d = .ok outcome) :
    outcome.session.registered outcome.document = s.registered d := congrArg Prod.snd (parse_again hrun)

/-- What a run leaves gives the same answers as the run has got. -/
structure Settled (s : Session) (d : Document) (outcome : Outcome) : Prop where
  /-- The selector of every template selects what it selected when the template got its element. -/
  containers : d.containers (s.registered d).grids =
    (s.registered d).grids.map (outcome.document.queryOne? ·.selector)
  /-- The content that a run would place is in place. -/
  moves : outcome.document.InPlace (outcome.document.moves (s.registered d).positions)
  /-- The width around every template is what it was when the columns of the template were sized. -/
  widths : (s.prepared d).1.widthsAround s.config (s.prepared d).2 =
    (s.prepared d).2.map (·.element.map outcome.document.widthAround)

/-- Content is in place if it would be moved as it was. -/
theorem inPlace_of_moves_eq (hrun : s.run d = .ok outcome)
    (hmoves : outcome.document.moves (s.registered d).positions =
      (d.materializeAll (s.registered d).grids).1.moves (s.registered d).positions) :
    outcome.document.InPlace (outcome.document.moves (s.registered d).positions) := by
  obtain ⟨d', grids, hlayout, rfl⟩ := run_eq_ok.mp hrun
  have hcontent := Document.sameContent_layOut hlayout
  rw [prepared_document] at hcontent
  rw [hmoves]
  exact (Document.inPlace_moveAll _ _).of_sameContent hcontent

/-- Templates that lie in no slot of each other have the same width around them all the time. -/
theorem widths_of_outside (hrun : s.run d = .ok outcome)
    (houtside : ∀ g ∈ (s.prepared d).2, ∀ e, g.element = some e → (s.prepared d).1.OutsideSlots (s.prepared d).2 e) :
    (s.prepared d).1.widthsAround s.config (s.prepared d).2 =
      (s.prepared d).2.map (·.element.map outcome.document.widthAround) := by
  obtain ⟨d', grids, hlayout, rfl⟩ := run_eq_ok.mp hrun
  exact Document.widthsAround_layOut_of_outside hlayout houtside

/-- All that a run leaves has been created and placed before the layout, but for slot widths and regions. -/
theorem exists_document_eq (hrun : s.run d = .ok outcome) :
    ∃ slotWidths regions, outcome.document = { (s.prepared d).1 with slotWidths, regions } := by
  obtain ⟨d', grids, hlayout, rfl⟩ := run_eq_ok.mp hrun
  exact Document.exists_of_layOut hlayout

end Again

/-- Two runs in a row, and what is created and placed in each of them. -/
theorem exists_run_twice (s : Session) (d : Document) :
    ∃ outcome again, s.run d = .ok outcome ∧ outcome.session.run outcome.document = .ok again ∧
      (∃ slotWidths regions, outcome.document = { (s.prepared d).1 with slotWidths, regions }) ∧
      ∃ slotWidths regions, again.document =
        { (outcome.document.materializeAll (s.registered d).grids).1.placeAll (s.registered d).positions with
          slotWidths, regions } := by
  obtain ⟨outcome, hrun, -, -⟩ := exists_run s d
  obtain ⟨again, hagain, -, -⟩ := exists_run outcome.session outcome.document
  refine ⟨outcome, again, hrun, hagain, exists_document_eq hrun, ?_⟩
  obtain ⟨slotWidths, regions, hdocument⟩ := exists_document_eq hagain
  unfold prepared at hdocument
  rw [registered_again hrun] at hdocument
  exact ⟨slotWidths, regions, hdocument⟩

/-- Content that is selected by where it is in the first run moves after the other content of the slot. In the second
run it is no longer selected, and the other content moves after it. -/
theorem exists_run_again_reorders :
    ∃ outcome again,
      (new .standard).run (((((Document.empty .standard).insert (.ofTag "body")).insertUnder (.ofTag "b") ⟨0⟩).insertUnder
        (.ofTag "i") ⟨0⟩).addStyle
        "body\x7bdisplay:\"a\"\x7db\x7bposition:a\x7dbody>i\x7bposition:a\x7d") = .ok outcome ∧
      outcome.session.run outcome.document = .ok again ∧
      outcome.document.children ⟨4⟩ = [⟨1⟩, ⟨2⟩] ∧ again.document.children ⟨4⟩ = [⟨2⟩, ⟨1⟩] := by
  obtain ⟨outcome, again, hrun, hagain, ⟨slotWidths, regions, hdocument⟩, slotWidths', regions', hdocument'⟩ :=
    exists_run_twice (new .standard) (((((Document.empty .standard).insert (.ofTag "body")).insertUnder
      (.ofTag "b") ⟨0⟩).insertUnder (.ofTag "i") ⟨0⟩).addStyle
      "body\x7bdisplay:\"a\"\x7db\x7bposition:a\x7dbody>i\x7bposition:a\x7d")
  refine ⟨outcome, again, hrun, hagain, ?_, ?_⟩
  · rw [hdocument]
    change (prepared _ _).1.children ⟨4⟩ = [⟨1⟩, ⟨2⟩]
    decide +kernel
  · rw [hdocument', hdocument]
    cbv

end Session

end SlotGrid
