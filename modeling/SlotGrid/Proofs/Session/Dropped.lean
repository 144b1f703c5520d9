import SlotGrid.Proofs.Session.Joined
import SlotGrid.Proofs.Style.Rejected

/-! # Declarations that are dropped

A definition of a template that is rejected costs a session nothing but the declaration: it gets the rules, the
templates with their ids and the placed elements that it gets from the text without the declaration.
-/

namespace SlotGrid.Session

open Style

/-- A definition that is rejected leaves one more diagnostic, with the selector of its rule, among those of the text
without the declaration. The rules, and all that is registered, are the same. -/
theorem parse_of_rejected (s : Session) {text selector : String} {front back : List Item}
    {d : DeclarationSource "display"} (h : Rejected s.grids.length text front d back selector) :
    let whole := s.parse text
    let rest := s.parse (.ofList ((front ++ back).flatMap Item.lexeme))
    whole.1.rules = rest.1.rules ∧ whole.2 = rest.2 ∧
      ∃ before behind, rest.1.dropped = before ++ behind ∧ whole.1.dropped = before ++ selector :: behind := by
  intro whole rest
  obtain ⟨f, g, hrest, hwhole⟩ := found_parse_of_rejected h
  have hnil : ∀ {α : Type} (as bs : List α), as ++ [] ++ bs = as ++ bs := by
    intro α as bs
    rw [List.append_nil]
  have hrules := (congrArg Found.rules hwhole).trans ((hnil _ _).trans (congrArg Found.rules hrest).symm)
  have htemplates := (congrArg Found.templates hwhole).trans ((hnil _ _).trans (congrArg Found.templates hrest).symm)
  have hpositions := (congrArg Found.positions hwhole).trans ((hnil _ _).trans (congrArg Found.positions hrest).symm)
  refine ⟨hrules, ?_, f.dropped, g.dropped, congrArg Found.dropped hrest, ?_⟩
  · dsimp only [Parsed.found] at htemplates hpositions
    simp only [whole, rest, parse_eq, htemplates, hpositions]
  · exact (congrArg Found.dropped hwhole).trans (List.append_assoc f.dropped [selector] g.dropped)

/-- The value of the second declaration goes on with a name that is no width. -/
theorem parse_of_rejected_name :
    ∃ front d back, Rejected 0 "a\x7bb:c;display:\"x\" y;d:e\x7d" front d back "a" ∧
      String.ofList ((front ++ back).flatMap Item.lexeme) = "a\x7bb:c;;d:e\x7d" ∧
      ((new .standard).parse "a\x7bb:c;display:\"x\" y;d:e\x7d").1.rules =
        [⟨"a", ⟨[⟨"b", "c", none⟩, ⟨"d", "e", none⟩]⟩⟩] := by
  let front : List Item := [.token ⟨.ident "a", ['a'], 0⟩, .token ⟨.punct .leftBrace, ['{'], 1⟩,
    .token ⟨.ident "b", ['b'], 2⟩, .token ⟨.punct .colon, [':'], 3⟩, .token ⟨.ident "c", ['c'], 4⟩,
    .token ⟨.punct .semicolon, [';'], 5⟩]
  let name : Token := ⟨.ident "display", ['d', 'i', 's', 'p', 'l', 'a', 'y'], 6⟩
  let value : List Token := [⟨.string "x", ['"', 'x', '"'], 14⟩, ⟨.space, [' '], 17⟩, ⟨.ident "y", ['y'], 18⟩]
  let d : DeclarationSource "display" :=
    ⟨name, [], ⟨.punct .colon, [':'], 13⟩, [], value, [], by decide +kernel, rfl, by simp,
      by simp [value, TokenKind.endsDeclaration], by rintro t (ht | ht) <;> cases ht <;> rfl⟩
  let back : List Item := [.token ⟨.punct .semicolon, [';'], 19⟩, .token ⟨.ident "d", ['d'], 20⟩,
    .token ⟨.punct .colon, [':'], 21⟩, .token ⟨.ident "e", ['e'], 22⟩, .token ⟨.punct .rightBrace, ['}'], 23⟩]
  have hitems : (Cursor.start "a\x7bb:c;display:\"x\" y;d:e\x7d").items = front ++ (d.tokens.map .token ++ back) := by
    decide +kernel
  let p : Progress := .start (.ofText "a\x7bb:c;display:\"x\" y;d:e\x7d")
  let behind : Stream := Stream.ofTokens d.tokens ++ back
  have hnoise : Reader.skipNoise p.fresh = .ok () ⟨front ++ behind, "", 0, .empty, .empty, [], []⟩ := by decide +kernel
  have hheader : Reader.header ⟨front ++ behind, "", 0, .empty, .empty, [], []⟩ =
      .ok () ⟨front.drop 2 ++ behind, "a", 0, .empty, .empty, [], []⟩ := by decide +kernel
  have hfirst : Reader.blockItem 0 ⟨front.drop 2 ++ behind, "a", 1, .empty, .empty, [], []⟩ =
      .ok true ⟨front.drop 5 ++ behind, "a", 1, ⟨[⟨"b", "c", none⟩]⟩, .empty, [], []⟩ := by decide +kernel
  have hsemicolon : Reader.blockItem 0 ⟨front.drop 5 ++ behind, "a", 1, ⟨[⟨"b", "c", none⟩]⟩, .empty, [], []⟩ =
      .ok true ⟨behind, "a", 1, ⟨[⟨"b", "c", none⟩]⟩, .empty, [], []⟩ := by decide +kernel
  have hdefinition : Reader.templateDefinition (.start (Stream.ofTokens value)) =
      .error (.unexpected "column width" ⟨.ident "y", ['y'], 18⟩)
        (.start [.token ⟨.ident "y", ['y'], 18⟩]) := by decide +kernel
  have hrejected : Rejected 0 "a\x7bb:c;display:\"x\" y;d:e\x7d" front d back "a" := by
    refine ⟨hitems, .inl rfl, ⟨_, _, "x", rfl, rfl⟩, ?_, ?_⟩
    · exact ⟨_, [], ⟨p, Progress.self_mem_starts 0 p, .next (.next (.opened hnoise hheader) hfirst) hsemicolon⟩, rfl,
        List.forall_mem_nil _, rfl⟩
    · intro rows widths t hderives
      have hat : Reader.At (kindsOf value) (.start (Stream.ofTokens value)) :=
        ⟨⟨Stream.whole_ofTokens value, valueKinds_uncommented d.undivided⟩, by intro h; cases h⟩
      obtain ⟨q, hq⟩ := (Reader.templateDefinition_eq_ok_iff hat).mpr hderives
      rw [hdefinition] at hq
      cases hq
  have htext : String.ofList ((front ++ back).flatMap Item.lexeme) = "a\x7bb:c;;d:e\x7d" := by
    decide +kernel
  refine ⟨front, d, back, hrejected, htext, ?_⟩
  have hrules := (parse_of_rejected (new .standard) hrejected).1
  rw [htext] at hrules
  apply hrules.trans
  decide +kernel

end SlotGrid.Session
