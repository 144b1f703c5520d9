import SlotGrid.Proofs.Document.Layout
import SlotGrid.Proofs.Style.Templates
import SlotGrid.Session.Run

/-! # Runs without errors

A run of a session ends without an error, whatever the document and its style texts are.
-/

namespace SlotGrid

theorem Config.templateId_injective (c : Config) : Function.Injective c.templateId := by
  intro i j h
  have hrepr := (String.append_right_inj c.templatePrefix).mp h
  exact Nat.succ_injective (Nat.repr_injective hrepr)

namespace Session

theorem mem_grids_foldl_register {s : Session} {ts : List Template} {g : Grid ElementId Float}
    (hg : g ∈ (ts.foldl register s).grids) :
    g ∈ s.grids ∨ ∃ t ∈ ts, ∃ id slotInfix, g = (Grid.ofTemplate t).named id slotInfix := by
  induction ts generalizing s with
  | nil => exact .inl hg
  | cons t ts ih =>
    rcases ih hg with hmem | ⟨t', ht', hnamed⟩
    · rcases List.mem_append.mp hmem with hmem | hmem
      · exact .inl hmem
      · exact .inr ⟨t, List.mem_cons_self, _, _, List.mem_singleton.mp hmem⟩
    · exact .inr ⟨t', List.mem_cons_of_mem t ht', hnamed⟩

theorem map_template_foldl_register (s : Session) (ts : List Template) :
    (ts.foldl register s).grids.map Grid.template = s.grids.map Grid.template ++ ts := by
  induction ts generalizing s with
  | nil => exact (List.append_nil _).symm
  | cons t ts ih =>
    rw [List.foldl_cons, ih, register, List.map_append, List.map_singleton, Grid.template_named,
      Grid.template_ofTemplate, List.append_assoc, List.singleton_append]

theorem config_foldl_register (s : Session) (ts : List Template) : (ts.foldl register s).config = s.config :=
  List.foldlRecOn (motive := fun s' : Session => s'.config = s.config) ts _ rfl fun _ h _ _ => h

theorem map_id_foldl_register (s : Session) (ts : List Template) :
    (ts.foldl register s).grids.map Grid.id =
      s.grids.map Grid.id ++ (List.range' s.grids.length ts.length).map s.config.templateId := by
  induction ts generalizing s with
  | nil => simp
  | cons t ts ih =>
    rw [List.foldl_cons, ih]
    simp [register, Grid.named, List.range'_succ]

/-- The templates that a text adds to an empty session are sound and have no elements yet. -/
theorem sound_of_mem_parse {s : Session} {text : String} {g : Grid ElementId Float}
    (hg : g ∈ (s.clear.parse text).2.grids) : g.Sound ∧ g.element = none := by
  rcases mem_grids_foldl_register hg with hmem | ⟨t, ht, id, slotInfix, rfl⟩
  · cases hmem
  · obtain ⟨_, _, _, _, hbuilt⟩ := Style.built_of_mem_parse ht
    exact ⟨(Grid.sound_ofTemplate (Template.partitioned_of_ofRows hbuilt)).named id slotInfix, rfl⟩

/-- A session after a run on a document: it has the templates of the style texts, and sized all that have
elements. -/
structure Finished (s : Session) (d : Document) : Prop where
  templates : s.grids.map Grid.template = (Style.parse 0 d.joinedStyles).templates
  sized : ∀ g ∈ s.grids, g.Sized

theorem exists_run (s : Session) (d : Document) :
    ∃ outcome, s.run d = .ok outcome ∧ outcome.session.Finished d ∧ outcome.document.styles = d.styles := by
  let parsed := s.clear.parse d.joinedStyles
  have hready : ∀ g ∈ (d.materializeAll parsed.2.grids).2, g.Ready :=
    d.ready_materializeAll fun g hg => sound_of_mem_parse hg
  obtain ⟨d', gs', hr, hsized, htemplates, hstyles⟩ := Document.exists_layOut parsed.2.config
    ((d.materializeAll parsed.2.grids).1.placeAll parsed.2.positions) hready
  refine ⟨⟨parsed.1, { parsed.2 with grids := gs' }, d'⟩, Checked.bind_eq_ok.mpr ⟨(d', gs'), hr, rfl⟩,
    ⟨?_, hsized⟩, ?_⟩
  · exact htemplates.trans ((d.map_template_materializeAll _).trans (map_template_foldl_register _ _))
  · exact hstyles.trans ((Document.styles_placeAll ..).trans (Document.styles_materializeAll ..))

/-- What is left after a number of runs on the same document. -/
def runTimes (s : Session) (d : Document) : ℕ → Except SizingError (Session × Document)
  | 0 => .ok (s, d)
  | n + 1 => do
    let (s, d) ← s.runTimes d n
    let outcome ← s.run d
    return (outcome.session, outcome.document)

/-- What every run keeps is kept by any number of runs. -/
theorem exists_runTimes {P : Session → Document → Prop}
    (hrun : ∀ {s d outcome}, P s d → s.run d = .ok outcome → P outcome.session outcome.document)
    {s : Session} {d : Document} (h : P s d) (n : ℕ) : ∃ s' d', s.runTimes d n = .ok (s', d') ∧ P s' d' := by
  induction n with
  | zero => exact ⟨s, d, rfl, h⟩
  | succ n ih =>
    obtain ⟨s', d', hr, h'⟩ := ih
    obtain ⟨outcome, ho, -, -⟩ := exists_run s' d'
    refine ⟨outcome.session, outcome.document, ?_, hrun h' ho⟩
    exact Checked.bind_eq_ok.mpr ⟨(s', d'), hr, Checked.bind_eq_ok.mpr ⟨outcome, ho, rfl⟩⟩

end Session

end SlotGrid
