import SlotGrid.Proofs.Document.Selection
import SlotGrid.Proofs.Session.Run
import SlotGrid.Proofs.Style.SelectorText

/-! # Selectors of a session in a document

The selector of a rule is read twice: as items of the style text, and again as the text that is kept of it. Where the
second reading can tell the names, both mean the same.
-/

namespace SlotGrid.Session

open Style Grammar

/-- The selector of a rule that is kept is the text of a group that derives the items in front of its block. If these
are items of types, ids, classes, descendants and children only, at most one id is asked of an element, and the names
are written in letters, digits, dashes and underscores, then the query selects in every document what the group does,
which compares names as identifiers. With any other item it selects nothing, nor with a name in which a character
stands that is none of those and no sign or blank. -/
theorem query_of_kept (s : Session) (text : String) :
    let steps := (Progress.start (.ofText text)).starts s.grids.length
    (s.parse text).1.rules = steps.filterMap (·.kept? s.grids.length) ∧
    ∀ p ∈ steps, ∀ r, p.kept? s.grids.length = some r →
      (∃ g, Group.Derives g p.prelude ∧ r.selector = g.text) ∧
      ∀ g, Group.Derives g p.prelude → r.selector = g.text → ∀ d : Document,
        (PlainItems p.prelude → (∀ c ∈ g.compounds, c.ids.length ≤ 1) →
          (∀ c ∈ g.compounds, ∀ name ∈ c.names, IsName name) → d.query r.selector = d.tree.filter (g.selects d)) ∧
        (¬ PlainItems p.prelude → d.query r.selector = []) ∧
        ((∃ c ∈ g.compounds, ∃ name ∈ c.names, ∃ ch ∈ name.toList, Document.Compound.isLegible ch = false) →
          d.query r.selector = []) := by
  intro steps
  refine ⟨rules_parse s.grids.length text, fun p hp r hr => ⟨exists_group_of_kept hp hr, ?_⟩⟩
  intro g hg hselector d
  rw [hselector]
  refine ⟨fun hplain hids hnames => ?_, fun hplain => ?_, ?_⟩
  · exact Group.query_text (hg.plain_iff.mpr hplain) hids hnames d
  · exact Group.query_text_of_not_plain (hg.plain_iff.not.mpr hplain) d
  · rintro ⟨c, hc, name, hname, ch, hch, hillegible⟩
    exact Group.query_text_of_name hc hname hch hillegible d

/-- The class is written with an escape. -/
theorem query_of_kept_child :
    let outer : Compound := ⟨some (.named ⟨"ol", "ol", fun _ => rfl⟩), [], .inl (Option.some_ne_none _)⟩
    let parts : List Part := [.qualifier (.id "b"), .qualifier (.classed ⟨"a", "a", fun _ => rfl⟩)]
    let g : Group := .one (.join (.compound outer) .child ⟨none, parts, .inr (List.cons_ne_nil _ _)⟩)
    ∀ d : Document, d.query "ol > #b.a" = d.tree.filter (g.selects d) := by
  intro outer parts g d
  let p := Progress.start (.ofText "ol> #b.\\61\x7b\x7d")
  have hprelude : p.prelude = [.token ⟨.ident "ol", ['o', 'l'], 0⟩, .token ⟨.punct .greater, ['>'], 2⟩,
      .token ⟨.space, [' '], 3⟩, .token ⟨.hash "b", ['#', 'b'], 4⟩, .token ⟨.punct .period, ['.'], 6⟩,
      .token ⟨.ident "a", ['\\', '6', '1'], 7⟩] := by decide +kernel
  have hrule : p.kept? 0 = some ⟨"ol > #b.a", .empty⟩ := by decide +kernel
  have hg : g.Derives p.prelude := by
    rw [hprelude]
    change g.Derives (([_] ++ ([] ++ _ :: [_]) ++ [_, _, _]) ++ [])
    refine .one (.join (.compound ?_) ?_ ?_) (List.forall_mem_nil _)
    · exact .typed (.named rfl) .nil
    · exact .sign (List.forall_mem_nil _) rfl rfl (List.forall_mem_singleton.mpr rfl)
    · refine .untyped (List.cons_ne_nil _ _) (.concat (.concat .nil (.qualifier (.id rfl))) ?_)
      exact .qualifier (.classed rfl rfl)
  have hname : ∀ name ∈ ["ol", "b", "a"], IsName name := by
    simp only [List.forall_mem_cons]
    exact ⟨⟨by decide, List.all_eq_true.mp rfl⟩, ⟨by decide, List.all_eq_true.mp rfl⟩,
      ⟨by decide, List.all_eq_true.mp rfl⟩, List.forall_mem_nil _⟩
  have hnames : ∀ c ∈ g.compounds, ∀ name ∈ c.names, name ∈ ["ol", "b", "a"] := by decide
  obtain ⟨-, hquery⟩ := (query_of_kept (new .standard) "ol> #b.\\61\x7b\x7d").2 p (Progress.self_mem_starts 0 p) _ hrule
  refine (hquery g hg (by decide) d).1 ?_ (by decide) fun c hc name h => hname name (hnames c hc name h)
  rw [hprelude]
  decide

/-- The class of the rule is the multiplication sign, which is an identifier but no name to the query. -/
theorem not_query_of_kept :
    ¬ ∀ (s : Session) (text : String), ∀ p ∈ (Progress.start (.ofText text)).starts s.grids.length,
      ∀ r, p.kept? s.grids.length = some r → ∀ g, Group.Derives g p.prelude → r.selector = g.text → ∀ d : Document,
        PlainItems p.prelude → (∀ c ∈ g.compounds, c.ids.length ≤ 1) →
          d.query r.selector = d.tree.filter (g.selects d) := by
  intro h
  let p := Progress.start (.ofText ".×\x7b\x7d")
  let w : Word := ⟨"×", "×", fun _ => rfl⟩
  let g : Group := .one (.compound ⟨none, [.qualifier (.classed w)], .inr (List.cons_ne_nil _ _)⟩)
  let d : Document := (Document.empty .standard).insert ⟨"p", none, ["×"], "", none, .content⟩
  have hprelude : p.prelude = [.token ⟨.punct .period, ['.'], 0⟩, .token ⟨.ident "×", ['×'], 1⟩] := by decide +kernel
  have hrule : p.kept? 0 = some ⟨".×", .empty⟩ := by decide +kernel
  have hg : g.Derives p.prelude := by
    rw [hprelude]
    exact .one (.compound (.untyped (List.cons_ne_nil _ _) (.concat .nil (.qualifier (.classed rfl rfl)))))
      (List.forall_mem_nil _)
  have hquery := h (new .standard) ".×\x7b\x7d" p (Progress.self_mem_starts 0 p) _ hrule g hg (by decide) d
    (by rw [hprelude]; decide) (by decide)
  have hselects : d.tree.filter (g.selects d) = [⟨0⟩] := by decide +kernel
  have hillegible : Document.Compound.isLegible '×' = false := by
    have halphanumeric : Text.alphanumericRanges.holds '×' = false :=
      Text.CodeRanges.holds_eq_false_iff.mpr (by decide +kernel)
    have hblank : Text.blankRanges.holds '×' = false := Text.CodeRanges.holds_eq_false_iff.mpr (by decide +kernel)
    unfold Document.Compound.isLegible Document.Compound.isNameChar Text.isAlphanumeric Text.isBlank
    rw [halphanumeric, hblank]
    decide
  rw [Document.query_eq_nil (c := '×') (by decide) hillegible, hselects] at hquery
  cases hquery

end SlotGrid.Session
