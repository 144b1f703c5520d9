import SlotGrid.Proofs.Style.Blocks
import SlotGrid.Proofs.Style.FirstRule

/-! # Behind a rule that fails

What is left of a rule that fails is skipped, and reading goes on behind the brace that closes its block. From
there on the rules are those of the rest of the text alone.
-/

namespace SlotGrid.Style

/-! ## Spaces at the front of a text -/

/-- A run finds what it finds elsewhere in an alike stream, with templates that are numbered on. -/
theorem Progress.found_finish_of_alike {registered : ℕ} {s : Stream} {q : Progress} (hs : Alike s q.stream) :
    (q.finish registered).found = q.found ++ ((start s).finish (registered + q.templates.length)).found := by
  let J : Junction := ⟨[], [], .inl ⟨rfl, rfl⟩, ⟨q.sheet, q.templates, q.positions⟩⟩
  have hfollows : Follows J (start s) q.fresh := by
    refine ⟨⟨s, q.stream, hs, (List.append_nil s).symm, (List.append_nil q.stream).symm⟩, rfl, rfl, rfl, ?_, ?_, ?_, ?_⟩
    all_goals exact (List.append_nil _).symm
  have hfinish : Follows J ((start s).finish (registered + q.templates.length)) (q.fresh.finish registered) :=
    follows_finish hfollows rfl rfl
  have hfresh : (q.finish registered).parsed = (q.fresh.finish registered).parsed := parsed_finish_congr rfl
  exact (congrArg Parsed.found hfresh).trans hfinish.found

/-- The rules are those of an alike stream if there were none before. -/
theorem Progress.rules_finish_of_alike {registered : ℕ} {s : Stream} {q : Progress} (hs : Alike s q.stream)
    (hrules : q.sheet.rules = []) :
    ((start s).finish (registered + q.templates.length)).sheet.rules = (q.finish registered).sheet.rules := by
  have hfound := congrArg Found.rules (@found_finish_of_alike registered _ _ hs)
  exact (hfound.trans (congrArg (· ++ _) hrules)).symm

/-- What is found in a text is found in it without the spaces at its front. -/
theorem found_parse_dropWhile_space (registered : ℕ) (text : String) :
    (parse registered (.ofList (text.toList.dropWhile isSpace))).found = (parse registered text).found := by
  have hparse : ∀ text : String, parse registered text = parse registered (.ofList text.toList) := by
    intro text
    rw [String.ofList_toList]
  rw [hparse text]
  generalize text.toList = cs
  cases cs with
  | nil => rfl
  | cons c t =>
    by_cases hc : isSpace c
    · let found (s : Stream) : Found := ((Progress.start s).finish registered).parsed.found
      let blank : Item := .token ⟨.space, [], 0⟩
      let spaces : Item := .token ⟨.space, c :: t.takeWhile isSpace, 0⟩
      let after (n : ℕ) : Stream := (Cursor.items ⟨n, t.dropWhile isSpace⟩).filter (!·.isComment)
      have hitems : Cursor.items ⟨0, c :: t⟩ =
          spaces :: Cursor.items ⟨0 + (c :: t.takeWhile isSpace).length, t.dropWhile isSpace⟩ := by
        rw [Cursor.items_cons, scan_space hc]
        rfl
      have halike : Alike (blank :: after (0 + (c :: t.takeWhile isSpace).length)) (blank :: after 0) :=
        .cons rfl (alike_items _ _ _).uncommented
      calc (parse registered (.ofList ((c :: t).dropWhile isSpace))).found
        _ = found (blank :: after 0) := by
          rw [List.dropWhile_cons_of_pos hc]
          unfold parse Stream.ofText Cursor.start
          rw [String.toList_ofList]
          rfl
        _ = found (blank :: after (0 + (c :: t.takeWhile isSpace).length)) :=
          Progress.found_finish_of_alike (q := .start _) halike
        _ = found (spaces :: after (0 + (c :: t.takeWhile isSpace).length)) :=
          congrArg Parsed.found (Progress.parsed_finish_space_congr rfl rfl _ (.start []))
        _ = found (blank :: spaces :: after (0 + (c :: t.takeWhile isSpace).length)) :=
          congrArg Parsed.found (Progress.parsed_finish_of_space rfl rfl (.start [])).symm
        _ = (parse registered (.ofList (c :: t))).found := by
          unfold parse Stream.ofText Cursor.start
          rw [String.toList_ofList, hitems]
          rfl
    · rw [List.dropWhile_cons_of_neg hc]

theorem rules_parse_dropWhile_space (registered : ℕ) (text : String) :
    (parse registered (.ofList (text.toList.dropWhile isSpace))).sheet.rules =
      (parse registered text).sheet.rules :=
  congrArg Found.rules (found_parse_dropWhile_space registered text)

theorem rules_parse_spaces {spaces : String} (h : ∀ c ∈ spaces.toList, isSpace c) (registered : ℕ) (text : String) :
    (parse registered (spaces ++ text)).sheet.rules = (parse registered text).sheet.rules := by
  rw [← rules_parse_dropWhile_space registered (spaces ++ text), ← rules_parse_dropWhile_space registered text,
    String.toList_append, List.dropWhile_append_of_pos h]

/-! ## Rules that fail -/

theorem OpensInTemplate.of_concat {is : List Item} {closing : Item} (h : OpensInTemplate (is ++ [closing]))
    (hclosing : closing.kind = .punct .rightBrace) : OpensInTemplate is := by
  obtain ⟨start, between, opening, hstart, hbetween, hopening, before, behind, hs⟩ := h
  refine ⟨start, between, opening, hstart, hbetween, hopening, ?_⟩
  rcases List.eq_nil_or_concat behind with rfl | ⟨behind, i, rfl⟩
  · rw [List.append_nil, ← List.append_assoc] at hs
    obtain rfl := List.singleton_inj.mp (List.append_inj' hs rfl).2
    exact absurd (hopening.symm.trans hclosing) nofun
  · rw [List.concat_eq_append, ← List.append_assoc] at hs
    exact ⟨before, behind, (List.append_inj' hs rfl).1⟩

theorem OpensInTemplate.exists_string {is : List Item} (h : OpensInTemplate is) :
    ∃ i ∈ is, ∃ text, i.kind = .string text := by
  obtain ⟨_, between, opening, ⟨_, _, _, _, row, rfl, -, -, -, -, hrow⟩, -, -, hs⟩ := h
  exact ⟨row, hs.subset (by simp), hrow⟩

/-- A text that consists of a prelude without braces and of a block. -/
structure IsRule (text : String) (prelude body : List Item) : Prop where
  items : ∃ opening n, opening.kind = .punct .leftBrace ∧
    (Cursor.start text).items = prelude ++ opening :: body ++ [.token ⟨.punct .rightBrace, ['}'], n⟩]
  prelude : Braceless prelude
  body : Balanced body

/-- Where a rule fails at the front of a text, the rules are those behind what is skipped. -/
theorem rules_parse_of_fails {registered : ℕ} {text : String} {e : SyntaxError} {p : Progress}
    (hfails : Reader.rule? registered (.start (.ofText text)) = .error e p) :
    (parse registered text).sheet.rules =
      ((Progress.start (p.stream.skipRule p.depth)).finish (registered + p.templates.length)).sheet.rules := by
  have hrules : p.sheet.rules = [] := (Reader.within_rule?.of_error (R := Progress.Onward) hfails).rules
  have hstep : (Progress.start (.ofText text)).step registered = (p.report e).recover := Progress.step_of_error hfails
  calc (parse registered text).sheet.rules
    _ = (((p.report e).recover).finish registered).sheet.rules := by
      rw [← hstep]
      exact congrArg Sheet.rules (Progress.sheet_finish_step _).symm
    _ = ((Progress.start (p.stream.skipRule p.depth)).finish (registered + p.templates.length)).sheet.rules :=
      (Progress.rules_finish_of_alike (q := (p.report e).recover) (.refl _) hrules).symm

/-- A rule that fails leaves nothing behind, unless an address that is not closed stands at the front of its block
or a template was dropped that a brace follows in its declaration. -/
theorem skipRule_of_fails {registered : ℕ} {text : String} {prelude body : List Item} {e : SyntaxError}
    {p : Progress} (htext : IsRule text prelude body)
    (hfails : Reader.rule? registered (.start (.ofText text)) = .error e p)
    (hopens : Stream.opensAddress (body.filter (!·.isComment)) = true → Braceless body)
    (htemplates : ¬ OpensInTemplate (body.filter (!·.isComment))) (t : Stream) :
    Stream.skipRule p.depth (p.stream ++ t) = t := by
  obtain ⟨⟨opening, n, hopening, hitems⟩, hprelude, hbody⟩ := htext
  let closing : Item := .token ⟨.punct .rightBrace, ['}'], n⟩
  have hclosing : closing.kind = .punct .rightBrace := rfl
  have hstream : Stream.ofText text = (.token ⟨.space, [], 0⟩ :: prelude.filter (!·.isComment)) ++
      opening :: (body.filter (!·.isComment) ++ [closing]) := by
    unfold Stream.ofText
    rw [hitems]
    simp [Item.isComment_of_punct hopening, Item.isComment_of_punct hclosing, closing]
  have hbraceless : ∀ {is : List Item}, Braceless is → Braceless (is.filter (!·.isComment)) :=
    fun h i hi => h i (List.mem_of_mem_filter hi)
  have hbefore : (Progress.start (.ofText text)).Before opening (body.filter (!·.isComment) ++ [closing]) := by
    refine ⟨rfl, _, ?_, hstream⟩
    exact List.forall_mem_cons.mpr ⟨by simp [Item.kind], hbraceless hprelude⟩
  refine Reader.rule?_eq_error hbefore hopening ⟨_, closing, hbody.uncommented, hclosing, rfl⟩
    (fun h => htemplates (h.of_concat hclosing)) (fun h t => ?_) hfails t
  have hbody : Stream.opensAddress (body.filter (!·.isComment)) = true := by
    cases hfilter : body.filter (!·.isComment) with
    | nil =>
      rw [hfilter] at h
      cases h
    | cons i is =>
      rw [hfilter] at h
      cases i <;> exact h
  rw [List.append_assoc, (hbraceless (hopens hbody)).skipRule_append, List.singleton_append,
    Stream.skipRule_of_closing hclosing, if_pos (Nat.zero_le 1)]

/-- Reading goes on exactly behind a rule that fails, with the templates numbered on from those that the rule
defined. What is required is that no address that is not closed stands at the front of the block or behind it, and
that no brace opens in the block where a template is defined. -/
theorem rules_parse_append_of_fails {registered : ℕ} {text spaces rest : String} {prelude body : List Item}
    {e : SyntaxError} {p : Progress} (htext : IsRule text prelude body)
    (hfails : Reader.rule? registered (.start (.ofText text)) = .error e p)
    (hopens : Stream.opensAddress (body.filter (!·.isComment)) = true → Braceless body)
    (htemplates : ¬ OpensInTemplate (body.filter (!·.isComment)))
    (hspaces : ∀ c ∈ spaces.toList, isSpace c)
    (hrest : Stream.opensAddress (Stream.ofText (spaces ++ rest)).tail = false) :
    (parse registered (text ++ (spaces ++ rest))).sheet.rules =
      (parse (registered + p.templates.length) rest).sheet.rules := by
  have hskip := skipRule_of_fails htext hfails hopens htemplates
  obtain ⟨⟨opening, n, -, hitems⟩, -, -⟩ := htext
  obtain ⟨k, hfollows⟩ := follows_start hitems (spaces ++ rest)
  rcases Reader.agreeOrClose_rule? hfollows (atBrace_junctionOfText n k _) (show registered = registered + _ from rfl) with
    (hagree | ⟨p', q', hat, hp, -⟩) | ⟨-, depth, p', -, hp⟩
  · rw [hfails] at hagree
    generalize hlonger : Reader.rule? registered (.start (.ofText (text ++ (spaces ++ rest)))) = y at hagree
    rcases hagree with _ | @⟨_, e', _, q, h⟩
    have hleft : Alike (Stream.ofText (spaces ++ rest)).tail (q.stream.skipRule q.depth) := by
      obtain ⟨is, js, hs, hp, hq⟩ := h.stream
      have hboth : Alike (p.stream ++ (Stream.ofText (spaces ++ rest)).tail) q.stream := by
        rw [hp, hq, List.append_assoc]
        exact hs.append (.cons rfl (alike_items 0 k (spaces ++ rest).toList).uncommented)
      have hrecover := hboth.skipRule p.depth
      rw [hskip, ← h.depth] at hrecover
      exact hrecover
    have htemplates : q.templates = p.templates := h.templates
    calc (parse registered (text ++ (spaces ++ rest))).sheet.rules
      _ = ((Progress.start (q.stream.skipRule q.depth)).finish (registered + q.templates.length)).sheet.rules :=
        rules_parse_of_fails hlonger
      _ = ((Progress.start (Stream.ofText (spaces ++ rest)).tail).finish
            (registered + p.templates.length)).sheet.rules := by
        rw [htemplates]
        exact (Progress.rules_finish_of_alike (q := .start _) hleft rfl).symm
      _ = (parse (registered + p.templates.length) (spaces ++ rest)).sheet.rules :=
        congrArg Sheet.rules (Progress.sheet_finish_of_space rfl hrest (.start [])).symm
      _ = (parse (registered + p.templates.length) rest).sheet.rules := rules_parse_spaces hspaces _ rest
  · -- A rule that is closed at the junction has not failed.
    rw [hfails, Reader.bind_of_ok (Reader.closeRule_of_tail (p := p') (by rw [hat.left]; rfl))] at hp
    cases hp
  · rw [hfails] at hp
    cases hp

/-- Braces in the block that fails are skipped together with it. -/
theorem rules_parse_append_of_nested :
    (parse 0 ("a\x7bb\x7bc:d\x7d\x7d" ++ (" " ++ "e\x7bf:g\x7d"))).sheet.rules = (parse 0 "e\x7bf:g\x7d").sheet.rules ∧
      (parse 0 "e\x7bf:g\x7d").sheet.rules = [⟨"e", ⟨[⟨"f", "g", none⟩]⟩⟩] := by
  have hitems : (Cursor.start "a\x7bb\x7bc:d\x7d\x7d").items =
      [.token ⟨.ident "a", ['a'], 0⟩] ++ .token ⟨.punct .leftBrace, ['{'], 1⟩ ::
        [.token ⟨.ident "b", ['b'], 2⟩, .token ⟨.punct .leftBrace, ['{'], 3⟩, .token ⟨.ident "c", ['c'], 4⟩,
          .token ⟨.punct .colon, [':'], 5⟩, .token ⟨.ident "d", ['d'], 6⟩,
          .token ⟨.punct .rightBrace, ['}'], 7⟩] ++ [.token ⟨.punct .rightBrace, ['}'], 8⟩] := by decide +kernel
  have hbody : Balanced [.token ⟨.ident "b", ['b'], 2⟩, .token ⟨.punct .leftBrace, ['{'], 3⟩,
      .token ⟨.ident "c", ['c'], 4⟩, .token ⟨.punct .colon, [':'], 5⟩, .token ⟨.ident "d", ['d'], 6⟩,
      .token ⟨.punct .rightBrace, ['}'], 7⟩] := by
    have hinner : Braceless [.token ⟨.ident "c", ['c'], 4⟩, .token ⟨.punct .colon, [':'], 5⟩,
        .token ⟨.ident "d", ['d'], 6⟩] := by simp [Braceless, Item.kind]
    exact .item (by decide) (by decide) (.block rfl rfl hinner.balanced .nil)
  have hfails : Reader.rule? 0 (.start (.ofText "a\x7bb\x7bc:d\x7d\x7d")) =
      .error (.unexpected "':'" ⟨.punct .leftBrace, ['{'], 3⟩)
        ⟨[.token ⟨.punct .leftBrace, ['{'], 3⟩, .token ⟨.ident "c", ['c'], 4⟩, .token ⟨.punct .colon, [':'], 5⟩,
          .token ⟨.ident "d", ['d'], 6⟩, .token ⟨.punct .rightBrace, ['}'], 7⟩,
          .token ⟨.punct .rightBrace, ['}'], 8⟩], "a", 1, .empty, .empty, [], []⟩ := by decide +kernel
  refine ⟨?_, by decide +kernel⟩
  refine rules_parse_append_of_fails ⟨⟨_, _, rfl, hitems⟩, ?_, hbody⟩ hfails (fun h => ?_) (fun h => ?_) ?_
    (by decide +kernel)
  · simp [Braceless, Item.kind]
  · simp [Item.isComment, Stream.opensAddress] at h
  · obtain ⟨i, hi, text, htext⟩ := h.exists_string
    simp [Item.isComment] at hi
    rcases hi with rfl | rfl | rfl | rfl | rfl | rfl
    all_goals cases htext
  · intro c hc
    obtain rfl := List.mem_singleton.mp (show c ∈ [' '] from hc)
    rfl

/-- An address that is not closed makes a rule fail in front of its block as well as in the block, and what is in the
block becomes a rule. -/
theorem not_rules_parse_append_of_fails :
    ¬ ∀ (text spaces rest : String) (prelude body : List Item) (e : SyntaxError) (p : Progress),
      IsRule text prelude body → Reader.rule? 0 (.start (.ofText text)) = .error e p →
        (∀ c ∈ spaces.toList, isSpace c) →
          (parse 0 (text ++ (spaces ++ rest))).sheet.rules = (parse p.templates.length rest).sheet.rules := by
  intro h
  have hitems : (Cursor.start "a\x7burl(b c\x7b\x7dd\x7b\x7d\x7d").items =
      [.token ⟨.ident "a", ['a'], 0⟩] ++ .token ⟨.punct .leftBrace, ['{'], 1⟩ ::
        [.openAddress ['u', 'r', 'l', '(', 'b', ' '] 2, .token ⟨.ident "c", ['c'], 8⟩,
          .token ⟨.punct .leftBrace, ['{'], 9⟩, .token ⟨.punct .rightBrace, ['}'], 10⟩,
          .token ⟨.ident "d", ['d'], 11⟩, .token ⟨.punct .leftBrace, ['{'], 12⟩,
          .token ⟨.punct .rightBrace, ['}'], 13⟩] ++ [.token ⟨.punct .rightBrace, ['}'], 14⟩] := by decide +kernel
  have hbody : Balanced [.openAddress ['u', 'r', 'l', '(', 'b', ' '] 2, .token ⟨.ident "c", ['c'], 8⟩,
      .token ⟨.punct .leftBrace, ['{'], 9⟩, .token ⟨.punct .rightBrace, ['}'], 10⟩,
      .token ⟨.ident "d", ['d'], 11⟩, .token ⟨.punct .leftBrace, ['{'], 12⟩,
      .token ⟨.punct .rightBrace, ['}'], 13⟩] :=
    .item (by decide) (by decide) <| .item (by decide) (by decide) <| @Balanced.block _ _ [] _ rfl rfl .nil <|
      .item (by decide) (by decide) <| @Balanced.block _ _ [] _ rfl rfl .nil .nil
  have hfails : Reader.rule? 0 (.start (.ofText "a\x7burl(b c\x7b\x7dd\x7b\x7d\x7d")) =
      .error (.lexical (.openAddress 2))
        ⟨[.openAddress ['u', 'r', 'l', '(', 'b', ' '] 2, .token ⟨.ident "c", ['c'], 8⟩,
          .token ⟨.punct .leftBrace, ['{'], 9⟩, .token ⟨.punct .rightBrace, ['}'], 10⟩,
          .token ⟨.ident "d", ['d'], 11⟩, .token ⟨.punct .leftBrace, ['{'], 12⟩,
          .token ⟨.punct .rightBrace, ['}'], 13⟩, .token ⟨.punct .rightBrace, ['}'], 14⟩],
          "a", 0, .empty, .empty, [], []⟩ := by decide +kernel
  have hinner : Reader.rule? 0 (.start [.token ⟨.ident "d", ['d'], 11⟩, .token ⟨.punct .leftBrace, ['{'], 12⟩,
      .token ⟨.punct .rightBrace, ['}'], 13⟩, .token ⟨.punct .rightBrace, ['}'], 14⟩]) =
      .ok (some ⟨"d", .empty⟩)
        ⟨[.token ⟨.punct .rightBrace, ['}'], 14⟩], "d", 1, .empty, .empty, [], []⟩ := by decide +kernel
  have hnone : (parse 0 "").sheet.rules = [] := by decide +kernel
  have hrules := h _ "" "" _ _ _ _ ⟨⟨_, _, rfl, hitems⟩, by simp [Braceless, Item.kind], hbody⟩ hfails
    fun c hc => absurd hc List.not_mem_nil
  rw [String.append_empty, String.append_empty] at hrules
  have hadds := (Progress.adds_finish_of_step 0
    (.start [.token ⟨.ident "d", ['d'], 11⟩, .token ⟨.punct .leftBrace, ['{'], 12⟩,
      .token ⟨.punct .rightBrace, ['}'], 13⟩, .token ⟨.punct .rightBrace, ['}'], 14⟩])).rules
  rw [Progress.step_of_rule (p := .start _) hinner] at hadds
  obtain ⟨rules, hadds⟩ := hadds
  have hnil := (rules_parse_of_fails hfails).symm.trans (hrules.trans hnone)
  exact List.cons_ne_nil _ _ (hadds.trans hnil)

end SlotGrid.Style
