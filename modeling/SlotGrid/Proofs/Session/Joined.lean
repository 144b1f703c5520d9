import SlotGrid.Proofs.Session.Run
import SlotGrid.Proofs.Style.Joined

/-! # Texts parsed one after another

The style texts of a document are joined with line feeds and parsed as one text. Where the first one ends between rules
that is the same as parsing them one after another with the same session.
-/

namespace SlotGrid.Session

open Style

theorem foldl_register_positions (s : Session) (ts : List Template) (positions : List Style.Position) :
    ts.foldl register { s with positions := positions } = { ts.foldl register s with positions := positions } := by
  induction ts generalizing s with
  | nil => rfl
  | cons t ts ih => exact ih (s.register t)

theorem parse_eq (s : Session) (text : String) :
    s.parse text = ((Style.parse s.grids.length text).sheet,
      { (Style.parse s.grids.length text).templates.foldl register s with
        positions := s.positions ++ (Style.parse s.grids.length text).positions }) := by
  have hpositions : ∀ ts : List Template, (ts.foldl register s).positions = s.positions := fun ts =>
    (congrArg Session.positions (foldl_register_positions s ts s.positions) :)
  unfold parse
  simp only [hpositions]

theorem length_grids_parse (s : Session) (text : String) :
    (s.parse text).2.grids.length = s.grids.length + (Style.parse s.grids.length text).templates.length := by
  have htemplates := congrArg List.length
    (map_template_foldl_register s (Style.parse s.grids.length text).templates)
  rwa [List.length_map, List.length_append, List.length_map] at htemplates

/-- A text that ends between rules, a line feed and another text have the rules of the one and then those of the
other, and drop what they drop. The templates and the placed elements of both are registered in their order and with
the ids that they get when the texts are parsed one after another. -/
theorem parse_join (s : Session) {text : String} (rest : String) (h : EndsAtTop s.grids.length text) :
    let first := s.parse text
    let second := first.2.parse rest
    let joined := s.parse (text ++ "\n" ++ rest)
    joined.1.rules = first.1.rules ++ second.1.rules ∧ joined.1.dropped = first.1.dropped ++ second.1.dropped ∧
      joined.2 = second.2 := by
  intro first second joined
  let before := Style.parse s.grids.length text
  let after := Style.parse (s.grids.length + before.templates.length) rest
  let both := Style.parse s.grids.length (text ++ "\n" ++ rest)
  have hfound : both.found = before.found ++ after.found := found_parse_join h rest
  have hafter : Style.parse first.2.grids.length rest = after :=
    congrArg (Style.parse · rest) (length_grids_parse s text)
  have hfirst : first.2 = { before.templates.foldl register s with positions := s.positions ++ before.positions } :=
    congrArg Prod.snd (parse_eq s text)
  have hsecond : second = (after.sheet, { after.templates.foldl register (before.templates.foldl register s) with
      positions := (s.positions ++ before.positions) ++ after.positions }) := by
    have hparse : second = _ := parse_eq first.2 rest
    rwa [hafter, hfirst, foldl_register_positions] at hparse
  rw [hsecond]
  refine ⟨congrArg Found.rules hfound, congrArg Found.dropped hfound, ?_⟩
  have htemplates : both.templates = before.templates ++ after.templates := congrArg Found.templates hfound
  have hpositions : both.positions = before.positions ++ after.positions := congrArg Found.positions hfound
  calc joined.2
    _ = { both.templates.foldl register s with positions := s.positions ++ both.positions } :=
      congrArg Prod.snd (parse_eq s _)
    _ = { after.templates.foldl register (before.templates.foldl register s) with
          positions := (s.positions ++ before.positions) ++ after.positions } := by
      rw [htemplates, hpositions, List.foldl_append, List.append_assoc]

/-- The comment behind the rule ends before the line feed, and the at-rule before the rule. -/
theorem parse_join_of_comment :
    EndsAtTop 0 "@m;a\x7bposition:b\x7d/*c*/" ∧
      ((new .standard).parse ("@m;a\x7bposition:b\x7d/*c*/" ++ "\n" ++ "d\x7be:f\x7d")).1.rules =
        [⟨"a", ⟨[⟨"position", "b", none⟩]⟩⟩] ++ [⟨"d", ⟨[⟨"e", "f", none⟩]⟩⟩] := by
  let p := Progress.start (.ofText "@m;a\x7bposition:b\x7d/*c*/")
  let block : Stream := [.token ⟨.ident "a", ['a'], 3⟩, .token ⟨.punct .leftBrace, ['{'], 4⟩,
    .token ⟨.ident "position", ['p', 'o', 's', 'i', 't', 'i', 'o', 'n'], 5⟩, .token ⟨.punct .colon, [':'], 13⟩,
    .token ⟨.ident "b", ['b'], 14⟩, .token ⟨.punct .rightBrace, ['}'], 15⟩]
  let q : Progress := ⟨block, "", 0, .empty, .empty, [], []⟩
  have hp : Reader.rule? 0 p.fresh = .ok none q := by decide +kernel
  have hq : Reader.rule? 0 q.fresh = .ok (some ⟨"a", ⟨[⟨"position", "b", none⟩]⟩⟩)
      ⟨[], "a", 1, ⟨[⟨"position", "b", none⟩]⟩, .empty, [], [⟨"a", 'b'⟩]⟩ := by decide +kernel
  have hitems : (Cursor.start "@m;a\x7bposition:b\x7d/*c*/").items =
    [.token ⟨.atKeyword "m", ['@', 'm'], 0⟩, .token ⟨.punct .semicolon, [';'], 2⟩] ++ block ++
      [.token ⟨.comment, ['/', '*', 'c', '*', '/'], 16⟩] := by decide +kernel
  have hstream : p.stream = .token ⟨.space, [], 0⟩ :: .token ⟨.atKeyword "m", ['@', 'm'], 0⟩ ::
      .token ⟨.punct .semicolon, [';'], 2⟩ :: block := by
    change Item.token _ :: (Cursor.start _).items.filter _ = _
    rw [hitems]
    rfl
  have hstarts : p.starts 0 = [p, q, q.step 0] := by
    have hstep : p.step 0 = q := Progress.step_of_none hp
    rw [Progress.starts_of_lt (by rw [hstep, hstream]; decide), hstep,
      Progress.starts_of_lt (by rw [Progress.step_of_rule hq]; decide), Progress.starts_of_not_lt]
    rw [Progress.step_of_rule hq]
    exact Nat.not_lt_zero _
  have hends : EndsAtTop 0 "@m;a\x7bposition:b\x7d/*c*/" := by
    refine ⟨?_, ?_, ?_⟩
    · change ∀ p' ∈ p.starts 0, p'.Ends 0
      simp only [hstarts, List.forall_mem_cons]
      refine ⟨?_, ?_, ?_, List.forall_mem_nil _⟩
      · unfold Progress.Ends
        rw [hp, hstream]
        exact .inr rfl
      · unfold Progress.Ends
        rw [hq]
        exact ⟨block.dropLast, .token ⟨.punct .rightBrace, ['}'], 15⟩, rfl, rfl⟩
      · rw [Progress.step_of_rule hq]
        unfold Progress.Ends
        rw [Reader.rule?_of_ends rfl]
        exact .inl rfl
    · simp [hitems, block, Item.isComment]
      exact ⟨['c'], rfl⟩
    · intro is lexeme n h
      rw [hitems] at h
      cases List.singleton_inj.mp (List.append_inj' h rfl).2
  refine ⟨hends, (parse_join (new .standard) "d\x7be:f\x7d" hends).1.trans (congrArg₂ (· ++ ·) ?_ ?_)⟩
  · decide +kernel
  · decide +kernel

end SlotGrid.Session
