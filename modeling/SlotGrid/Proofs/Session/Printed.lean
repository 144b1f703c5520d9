import SlotGrid.Proofs.Session.Run
import SlotGrid.Proofs.Style.Reread

/-! # Printed templates in a session

A rule whose only declaration displays the text of a template is read without a diagnostic, and registers the template
that the text was printed from.
-/

namespace SlotGrid

open Style

namespace Template

variable {selector css : String} {rows : List Row} {widths : List Width} {t : Template}

/-- Rows that are filled up and widths for all columns lead to the same template once more. -/
theorem ofRows_again (h : ofRows selector css rows widths = .ok t) : ofRows selector css t.rows t.widths = .ok t := by
  have ht := partitioned_of_ofRows h
  obtain ⟨hrowCount, hcolumnCount⟩ := pos_of_ofRows h
  obtain ⟨-, slots, rfl, hslots⟩ := ofRows_eq_ok.mp h
  generalize hfilled : filled selector css rows widths slots = t at *
  have hcolumns : columnsOf t.rows = t.widths.length := by
    apply le_antisymm
    · exact columnsOf_le.mpr fun r hr => (ht.length_eq r hr).le
    · obtain ⟨r, hr⟩ := List.exists_mem_of_length_pos hrowCount
      exact (ht.length_eq r hr).symm.trans_le (length_le_columnsOf hr)
  have hpad : t.rows.map (·.pad (columnsOf t.rows)) = t.rows := by
    refine (List.map_congr_left fun r hr => ?_).trans (List.map_id _)
    have hlength : columnsOf t.rows - r.cells.length = 0 := by
      rw [hcolumns, ht.length_eq r hr]
      exact Nat.sub_self _
    rw [Row.pad, hlength, List.replicate_zero, List.append_nil]
    rfl
  have hrows : (rows.map (·.pad (columnsOf rows))).map Row.cells = t.rows.map Row.cells := by
    rw [← hfilled]
    rfl
  refine ofRows_eq_ok.mpr ⟨hcolumns ▸ hcolumnCount.ne', slots, ?_, by rwa [hpad, ← hrows]⟩
  unfold filled
  rw [hpad, hcolumns, List.take_left, ← hfilled]
  rfl

/-- The cells of a template hold names of slots, and blanks are no cells of a quoted row. -/
theorem cells_of_ofRows (h : ofRows selector css rows widths = .ok t)
    (hrows : ∀ r ∈ rows, ∃ text, r = .ofText text r.height) {r : Row} (hr : r ∈ t.rows) {c : Char} (hc : c ∈ r.cells) :
    c ∈ t.slots.names ∧ Text.isBlank c = false := by
  have ht := partitioned_of_ofRows h
  constructor
  · rw [ht.slots.names_eq, Keyed.mem_distinct]
    exact List.mem_flatten_of_mem (List.mem_map_of_mem hr) hc
  · obtain ⟨-, slots, rfl, -⟩ := ofRows_eq_ok.mp h
    obtain ⟨r', hr', rfl⟩ := List.mem_map.mp hr
    rcases List.mem_append.mp hc with hc | hc
    · obtain ⟨text, htext⟩ := hrows r' hr'
      rw [htext] at hc
      simpa using (List.mem_filter.mp hc).2
    · rw [List.eq_of_mem_replicate hc]
      decide +kernel

end Template

namespace Session

variable {selector css : String} {rows : List Row} {widths : List Width} {t : Template}

/-- The text of a template is read as the template: no diagnostic is left, and one template is registered, which has
the same rows, widths and slots. The names must need no escapes in quotes, and the numbers of the lengths must be read
from their texts as they are. -/
theorem parse_text_of_template (config : Config) (h : Template.ofRows selector css rows widths = .ok t)
    (hrows : ∀ r ∈ rows, ∃ text, r = .ofText text r.height) (hnames : ∀ s ∈ t.slots.toList, IsPlainName s.name)
    (hlengths : ∀ l ∈ t.lengths, l.value.isFinite ∧ ¬ l.value < 0) (hback : ∀ l ∈ t.lengths, ReadsBack l.value) :
    let parsed := (new config).parse ("body \x7b display: " ++ t.text ++ " \x7d")
    parsed.1.diagnostics = [] ∧ ∃ g, parsed.2.grids = [g] ∧ g.template.rows = t.rows ∧ g.template.widths = t.widths ∧
      g.template.slots = t.slots := by
  intro parsed
  have hpos := Template.pos_of_ofRows h
  have hcells : ∀ r ∈ t.rows, ∀ c ∈ r.cells, IsPlainName c ∧ Text.isBlank c = false := by
    intro r hr c hc
    obtain ⟨hname, hblank⟩ := Template.cells_of_ofRows h hrows hr hc
    obtain ⟨s, hs, rfl⟩ := List.mem_map.mp hname
    exact ⟨hnames s hs, hblank⟩
  have hlegible : ∀ l ∈ t.lengths, l.Legible := fun l hl => ⟨(hlengths l hl).1, (hlengths l hl).2, hback l hl⟩
  obtain ⟨ks, hks, hprints⟩ := Template.exists_prints (List.length_pos_iff.mp hpos.1) (List.length_pos_iff.mp hpos.2)
    hcells hlegible
  have htext : ("body \x7b display: " ++ t.text ++ " \x7d").toList =
      "body \x7b".toList ++ (" display: ".toList ++ (t.text.toList ++ [' ', '\x7d'])) := by simp
  obtain ⟨hdiagnostics, selector', css', htemplates⟩ := parse_of_definition hprints hks (Template.ofRows_again h) htext 0
  refine ⟨hdiagnostics, ?_⟩
  have hgrids : parsed.2.grids.map Grid.template = [{ t with selector := selector', css := css' }] :=
    (map_template_foldl_register (new config) _).trans htemplates
  obtain ⟨g, hg, htemplate⟩ := List.map_eq_singleton_iff.mp hgrids
  refine ⟨g, hg, ?_, ?_, ?_⟩
  all_goals rw [htemplate]

/-- Rows of different lengths, a blank in a row, a name that is an apostrophe, and lengths behind a row and in both
places of a column. -/
theorem parse_text_of_quotes :
    ∃ t, Template.ofRows "p" "" [.ofText "a a'" (.length ⟨12.5, .em⟩), .ofText "b" .equal]
        [.minMax ⟨1, .px⟩ ⟨50, .percent⟩, .fitContent] = .ok t ∧
      let parsed := (new .standard).parse ("body \x7b display: " ++ t.text ++ " \x7d")
      parsed.1.diagnostics = [] ∧ ∃ g, parsed.2.grids = [g] ∧ g.template.rows = t.rows ∧ g.template.widths = t.widths ∧
        g.template.slots = t.slots := by
  have hcells : "a a'".toList.filter (!Text.isBlank ·) = ['a', 'a', '\''] ∧
      "b".toList.filter (!Text.isBlank ·) = ['b'] := by decide +kernel
  obtain ⟨t, ht, hlengths, hnames⟩ : ∃ t, Template.ofRows "p" "" [.ofText "a a'" (.length ⟨12.5, .em⟩),
      .ofText "b" .equal] [.minMax ⟨1, .px⟩ ⟨50, .percent⟩, .fitContent] = .ok t ∧
      t.lengths = [⟨12.5, .em⟩, ⟨1, .px⟩, ⟨50, .percent⟩] ∧ t.slots.names = ['a', '\'', 'b', '.'] := by
    unfold Row.ofText
    rw [hcells.1, hcells.2]
    exact ⟨_, rfl, rfl, rfl⟩
  have hback : ∀ x ∈ [12.5, 1, 50], x.isFinite ∧ ¬ x < 0 ∧
      (Numeral.read? (Decimal.Layout.plain.double x).toList).map Numeral.value = some x := by decide +kernel
  have hvalue : ∀ l ∈ t.lengths, l.value ∈ [12.5, 1, 50] := by
    intro l hl
    have hmem := List.mem_map_of_mem (f := Length.value) hl
    rwa [hlengths] at hmem
  refine ⟨t, ht, parse_text_of_template .standard ht ?_ ?_ ?_ ?_⟩
  · rw [List.forall_mem_cons, List.forall_mem_singleton]
    exact ⟨⟨"a a'", rfl⟩, "b", rfl⟩
  · have hplain : ∀ c ∈ t.slots.names, IsPlainName c := by
      rw [hnames]
      simp [IsPlainName, isUrlChar]
    exact fun s hs => hplain s.name (List.mem_map_of_mem hs)
  · exact fun l hl => ⟨(hback _ (hvalue l hl)).1, (hback _ (hvalue l hl)).2.1⟩
  · intro l hl n hn
    have hread := (hback _ (hvalue l hl)).2.2
    rw [hn] at hread
    exact Option.some.inj hread

end Session

end SlotGrid
