import SlotGrid.Proofs.Style.Printed
import SlotGrid.Proofs.Style.Stored

/-! # Rules with a definition

A rule whose block is a definition of a template is read without a diagnostic, and the template is the only one that is
registered.
-/

namespace SlotGrid

namespace Template

variable {selector css : String} {rows : List Row} {widths : List Width} {t : Template}

/-- A template is built in the same way under another name. -/
theorem ofRows_congr (h : ofRows selector css rows widths = .ok t) (selector' css' : String) :
    ofRows selector' css' rows widths = .ok { t with selector := selector', css := css' } := by
  obtain ⟨hcolumns, slots, rfl, hslots⟩ := ofRows_eq_ok.mp h
  exact ofRows_eq_ok.mpr ⟨hcolumns, slots, rfl, hslots⟩

end Template

namespace Style

/-! ## Around a token -/

theorem exists_of_kindsOf {us : List Token} {k : TokenKind} {ks ks' : List TokenKind}
    (h : kindsOf us = ks ++ k :: ks') :
    ∃ front u back, us = front ++ u :: back ∧ kindsOf front = ks ∧ u.kind = k ∧ kindsOf back = ks' := by
  unfold kindsOf at h
  rw [List.filter_map] at h
  obtain ⟨x, y, hxy, rfl, hy⟩ := List.map_eq_append_iff.mp h
  obtain ⟨u, y, rfl, rfl, rfl⟩ := List.map_eq_cons_iff.mp hy
  obtain ⟨front, rest, rfl, rfl, hrest⟩ := List.filter_eq_append_iff.mp hxy
  obtain ⟨blank, back, rfl, hblank, -, rfl⟩ := List.filter_eq_cons_iff.mp hrest
  have hnone : kindsOf blank = [] := kindsOf_eq_nil (by simpa using hblank)
  refine ⟨front ++ blank, u, back, by simp, ?_, rfl, ?_⟩
  · rw [kindsOf_append, hnone, List.append_nil, kindsOf, List.filter_map]
  · rw [kindsOf, List.filter_map]

namespace Stream

/-- The tokens that readers see. -/
def ofTokens (ts : List Token) : Stream := (ts.map Item.token).filter (!·.isComment)

theorem ofTokens_append (ts us : List Token) : ofTokens (ts ++ us) = ofTokens ts ++ ofTokens us := by
  simp [ofTokens]

theorem ofTokens_cons {t : Token} (h : t.kind ≠ .comment) (ts : List Token) :
    ofTokens (t :: ts) = .token t :: ofTokens ts := by
  simp [ofTokens, Item.isComment, h]

theorem whole_ofTokens (ts : List Token) : Whole (ofTokens ts) := by
  intro i hi
  obtain ⟨t, -, rfl⟩ := List.mem_map.mp (List.mem_filter.mp hi).1
  exact ⟨t, rfl⟩

theorem Whole.cons {s : Stream} (h : Whole s) (t : Token) : Whole (.token t :: s) :=
  List.forall_mem_cons.mpr ⟨⟨t, rfl⟩, h⟩

theorem forall_mem_ofTokens {ts : List Token} {P : TokenKind → Prop} (h : ∀ t ∈ ts, P t.kind) :
    ∀ i ∈ ofTokens ts, P i.kind := by
  intro i hi
  obtain ⟨t, ht, rfl⟩ := List.mem_map.mp (List.mem_filter.mp hi).1
  exact h t ht

theorem spaces_ofTokens {ts : List Token} (h : kindsOf ts = []) : Spaces (ofTokens ts) := by
  intro i hi
  obtain ⟨hmem, hcomment⟩ := List.mem_filter.mp hi
  obtain ⟨t, ht, rfl⟩ := List.mem_map.mp hmem
  have hblank : ∀ t ∈ ts, t.kind.counts = false := by simpa [kindsOf] using h
  refine (TokenKind.counts_eq_false.mp (hblank t ht)).resolve_right fun hk => ?_
  simp [Item.isComment, hk] at hcomment

end Stream

namespace Reader

open Progress Grammar

variable {registered : ℕ} {p q : Progress} {k : TokenKind} {ks : List TokenKind} {rows : List Row}
  {widths : List Width} {t : Template}

/-! ## The declaration -/

theorem yields_expectName {expected name : String} (h : At (.ident name :: ks) p) :
    Yields (expectName expected) p name (Before ks) := by
  obtain ⟨i, s, hs, hi, -⟩ := Stream.eq_cons_of_valueKinds h.kinds h.kind
  have hname : p.stream.head?.bind Item.name? = some name := by
    rw [hs]
    cases i with
    | token u => simp_all [Item.name?, Token.name?, Item.kind]
    | openAddress => cases hi
  obtain ⟨q, hq, hat⟩ := yields_advance h
  refine ⟨q, ?_, hat⟩
  unfold expectName
  rw [bind_name?, hname]
  exact bind_of_ok hq

theorem yields_property {name : String} (h : At (.ident name :: .punct .colon :: ks) p) :
    Yields property p name.toLower (At ks) :=
  (yields_expectName h).bind fun h => (yields_skipSpace h).bind fun h => (yields_expect h).bind fun h =>
    (yields_skipSpace h).bind .pure

/-- A definition with a row begins with a quoted text. -/
theorem exists_string_of_derives (h : DerivesDefinition rows widths ks) (hrows : rows ≠ []) :
    ∃ text ks', ks = .string text :: ks' := by
  obtain ⟨rs, ws, hrs, -, rfl⟩ := h
  cases hrs with
  | nil => exact absurd rfl hrows
  | cons hrow => cases hrow <;> exact ⟨_, _, rfl⟩

theorem templateDeclaration_of_definition (hread : templateDefinition p = .ok (rows, widths) q)
    (ht : Template.ofRows q.selector (valueText p.stream.declarationItems) rows widths = .ok t) :
    templateDeclaration registered p = .ok () (p.define registered q t) := by
  unfold templateDeclaration
  rw [hread]
  simp only [ht]
  rfl

theorem declaration_of_definition {p' : Progress} {text : String} (hproperty : property p = .ok "display" p')
    (hk : p'.stream.kind = .string text) (hread : templateDefinition p' = .ok (rows, widths) q)
    (ht : Template.ofRows q.selector (valueText p'.stream.declarationItems) rows widths = .ok t) :
    declaration registered p = .ok () (p'.define registered q t) := by
  unfold declaration
  rw [bind_of_ok hproperty, bind_kind, hk]
  exact templateDeclaration_of_definition hread ht

/-! ## The block -/

/-- A brace behind the declarations closes the block. -/
theorem blockItem_of_closing {brace : Item} {s : Stream} (hbrace : brace.kind = .punct .rightBrace)
    (hs : Stream.Whole (brace :: s)) (hp : p.stream = brace :: s) :
    blockItem registered p = .ok false { p with stream := s } := by
  have hkind : p.stream.kind = .punct .rightBrace := by
    rw [hp]
    exact hbrace
  have hskip : discard skipSpace p = .ok () p := bind_of_ok (skipSpace_of_not_space (by rw [hkind]; nofun))
  have hadvance : advance p = .ok () { p with stream := s } := by
    refine advance_eq_ok.mpr ⟨by rw [hp]; rfl, ?_⟩
    rw [hp]
    exact Stream.Whole.opensAddress fun i hi => hs i (List.mem_cons_of_mem brace hi)
  unfold blockItem
  rw [bind_of_ok hskip, bind_kind, hkind]
  exact bind_of_ok hadvance

/-- A block with one definition registers its template and is closed. -/
theorem block_of_definition {selector css : String} {brace : Item} {s : Stream}
    (hp : Before (.ident "display" :: .punct .colon :: ks) p) (hks : DerivesDefinition rows widths ks)
    (ht : Template.ofRows selector css rows widths = .ok t) (hbrace : brace.kind = .punct .rightBrace)
    (hend : p.stream.skipDeclaration = brace :: s) :
    ∃ q selector' css', loop (blockItem registered) p = .ok () q ∧ q.stream = s ∧ q.sheet = p.sheet ∧
      q.templates = p.templates ++ [{ t with selector := selector', css := css' }] := by
  have hrows : rows ≠ [] := by
    rintro rfl
    exact (Template.ofRows_eq_ok.mp ht).1 rfl
  have hdisplay : "display".toLower = "display" := by cbv
  obtain ⟨text, ks', hstring⟩ := exists_string_of_derives hks hrows
  obtain ⟨p₁, hskip, hat₁⟩ := yields_skipSpace hp
  obtain ⟨p₂, hproperty, hat₂⟩ := yields_property hat₁
  obtain ⟨q, hread, hat⟩ := yields_templateDefinition hat₂ hks
  rw [hdisplay] at hproperty
  have ht' := Template.ofRows_congr ht q.selector (valueText p₂.stream.declarationItems)
  generalize htemplate : ({ t with selector := q.selector, css := valueText p₂.stream.declarationItems } : Template) = t'
    at ht'
  have hitem : blockItem registered p = .ok true (p₂.define registered q t') := by
    have hdeclaration : declaration registered p₁ = .ok () (p₂.define registered q t') :=
      declaration_of_definition hproperty (hstring ▸ hat₂).kind_eq hread ht'
    unfold blockItem
    rw [bind_of_ok hskip, bind_kind, hat₁.kind_eq]
    exact bind_of_ok hdeclaration
  have hwrote : p.Wrote q := trans_of Wrote ((plain_discard plain_skipSpace).of_ok hskip)
    (trans_of Wrote (plain_property.of_ok hproperty) (plain_templateDefinition.of_ok hread))
  have hstream : q.stream = brace :: s := by
    obtain ⟨is, his, hsplit⟩ := hwrote.passed
    rw [← hend, ← hsplit, his.skipDeclaration_append]
    exact (Stream.skipDeclaration_of_ends (Stream.ends_of_valueKinds hat.kinds hat.kind)).symm
  have hlt : q.stream.length < p.stream.length := by
    have hkinds : p.stream.valueKinds = (.ident "display" :: .punct .colon :: ks) ++ q.stream.valueKinds := by
      rw [hp.kinds, hat.kinds, List.append_nil]
    exact length_lt_of_kinds hwrote.suffix hkinds nofun
  have hclosed : blockItem registered (p₂.define registered q t') =
      .ok false { p₂.define registered q t' with stream := s } :=
    blockItem_of_closing hbrace (hstream ▸ hat.whole) hstream
  refine ⟨{ p₂.define registered q t' with stream := s }, q.selector, valueText p₂.stream.declarationItems, ?_, rfl, ?_, ?_⟩
  · rw [loop_eq, hitem]
    simp only
    rw [if_pos (by exact hlt), loop_eq, hclosed]
  · change q.sheet = p.sheet
    rw [hwrote.eq]
  · change q.templates ++ [t'] = _
    rw [← htemplate, hwrote.eq]

/-! ## The rule -/

/-- A rule for the elements of a type is what its block is. -/
theorem rule?_of_block {name brace space : Item} {w : Word} {s : Stream} (hname : name.word? = some w)
    (hspace : space.kind = .space) (hbrace : brace.kind = .punct .leftBrace)
    (hp : p.stream = [name, space] ++ [brace] ++ s) (hwhole : p.stream.Whole)
    (hblock : loop (blockItem registered) { p.past s w.written with depth := 1 } = .ok () q) :
    rule? registered p = .ok (some ⟨q.selector, q.declarations⟩) q := by
  let g : Group := .one (.compound ⟨some (.named w), [], .inl nofun⟩)
  have hg : g.Derives [name, space] :=
    .one (.compound (.typed (.named hname) .nil)) (List.forall_mem_singleton.mpr hspace)
  have htext : g.text = w.written := String.append_empty
  have hkind : p.stream.kind = name.kind := by
    rw [hp]
    rfl
  have hspelled : ∀ i ∈ [name, space], i.Spelled := by
    rw [List.forall_mem_cons, List.forall_mem_singleton]
    constructor
    · intro m hm
      rcases Item.kind_of_word? hname with ⟨_, hk⟩ | ⟨_, hk⟩ <;> cases hk.symm.trans hm
    · intro m hm
      cases hspace.symm.trans hm
  have hheader : header p = .ok () (p.past s w.written) := by
    rw [← htext]
    exact takes_header hg hspelled hbrace s (hp ▸ hwhole) p hp
  have hrule : rule registered p = .ok ⟨q.selector, q.declarations⟩ q := by
    rw [rule_eq_header, bind_of_ok hheader]
    exact bind_of_ok hblock
  have hnoise : skipNoise p = .ok () p := by
    refine skipNoise_of_not_noise ?_
    rw [hkind]
    rcases Item.kind_of_word? hname with ⟨_, hk⟩ | ⟨_, hk⟩ <;>
    · rw [hk]
      rfl
  unfold rule?
  rw [bind_of_ok hnoise, bind_kind, hkind]
  rcases Item.kind_of_word? hname with ⟨_, hk⟩ | ⟨_, hk⟩ <;>
  · rw [hk]
    exact bind_of_ok hrule

end Reader

namespace Progress

variable {registered : ℕ}

theorem parsed_finish_of_spaces {p : Progress} (hwhole : p.stream.Whole) (hs : Spaces p.stream) :
    (p.finish registered).parsed = p.parsed := by
  obtain ⟨s, selector, depth, declarations, sheet, templates, positions⟩ := p
  induction s with
  | nil => exact parsed_finish_of_ends rfl
  | cons i s ih =>
    obtain ⟨hi, hs⟩ := List.forall_mem_cons.mp hs
    have hwhole' : Stream.Whole s := fun j hj => hwhole j (List.mem_cons_of_mem i hj)
    exact (parsed_finish_of_space hi hwhole'.opensAddress
      ⟨s, selector, depth, declarations, sheet, templates, positions⟩).trans (ih hwhole' hs)

end Progress

/-! ## The text -/

variable {rows : List Row} {widths : List Width} {t : Template} {ks : List TokenKind} {cs : List Char}

theorem readsAs_declaration (h : Prints cs ks) :
    ReadsAs (" display: ".toList ++ (cs ++ [' ', '\x7d']))
      (.ident "display" :: .punct .colon :: ks ++ [.punct .rightBrace]) := by
  have hclosing : ReadsAs ['\x7d'] [.punct .rightBrace] := ReadsAs.nil.token (scan_brace []) rfl
  have hcolon : Prints [':'] [.punct .colon] := .of_scan (by cbv) rfl (by decide)
  have hdisplay : scan 'd' (['i', 's', 'p', 'l', 'a', 'y'] ++ ([':'] ++ [' '])) =
      ⟨some (.ident "display"), ['d', 'i', 's', 'p', 'l', 'a', 'y'], [':'] ++ [' ']⟩ := by cbv
  have hvalue := hcolon _ _ (h _ _ hclosing)
  have hreads := (hvalue.token (scan_of_space hdisplay rfl (by decide) _) rfl).space
  simpa using hreads

/-- The stream of a text with one rule. -/
theorem exists_stream {text : String} (htext : text.toList = "body \x7b".toList ++ cs)
    (h : ReadsAs cs ks) : ∃ us : List Token, kindsOf us = ks ∧
      Stream.ofText text = .token ⟨.space, [], 0⟩ :: .token ⟨.ident "body", "body".toList, 0⟩ ::
        .token ⟨.space, [' '], 4⟩ :: .token ⟨.punct .leftBrace, ['\x7b'], 5⟩ :: Stream.ofTokens us := by
  obtain ⟨us, hus, hkinds⟩ := (readsAs_iff 6).mp h
  have hbody : scan 'b' (['o', 'd', 'y'] ++ ([] ++ ' ' :: '\x7b' :: cs)) =
      ⟨some (.ident "body"), ['b', 'o', 'd', 'y'], [] ++ ' ' :: '\x7b' :: cs⟩ :=
    scan_of_space (by cbv) rfl (by decide) _
  have hspace : scan ' ' ('\x7b' :: cs) = ⟨some .space, [' '], '\x7b' :: cs⟩ := scan_space rfl _
  have hbrace : scan '\x7b' cs = ⟨some (.punct .leftBrace), ['\x7b'], cs⟩ := scan_eq_of_scan? rfl
  have hstart : Cursor.start text = ⟨0, 'b' :: (['o', 'd', 'y'] ++ ([] ++ ' ' :: '\x7b' :: cs))⟩ := by
    rw [Cursor.start, htext]
    rfl
  have hitems : (Cursor.start text).items = [⟨.ident "body", "body".toList, 0⟩, ⟨.space, [' '], 4⟩,
      ⟨.punct .leftBrace, ['\x7b'], 5⟩].map Item.token ++ us.map .token := by
    rw [hstart, Cursor.items_cons, hbody, List.nil_append, Cursor.items_cons, hspace, Cursor.items_cons, hbrace]
    simp only [Item.ofScan, ← hus]
    rfl
  refine ⟨us, hkinds, ?_⟩
  unfold Stream.ofText
  rw [hitems, List.filter_append]
  rfl

/-- The tokens of a definition in a block are read up to the brace. -/
theorem Reader.before_block {p : Progress} {front back : List Token} {brace : Token}
    (hfront : kindsOf front = .ident "display" :: .punct .colon :: ks) (hks : DerivesDefinition rows widths ks)
    (hbrace : brace.kind = .punct .rightBrace)
    (hp : p.stream = Stream.ofTokens front ++ .token brace :: Stream.ofTokens back) :
    Reader.Before (.ident "display" :: .punct .colon :: ks) p ∧
      p.stream.skipDeclaration = .token brace :: Stream.ofTokens back := by
  have hends : ∀ t ∈ front, t.kind.endsDeclaration = false := by
    apply endsDeclaration_of_counts
    rw [hfront]
    simpa [TokenKind.endsDeclaration] using Reader.endsDeclaration_of_derivesDefinition hks
  have hfront' := Stream.forall_mem_ofTokens (P := (·.endsDeclaration = false)) hends
  have hclosing : (Stream.kind (.token brace :: Stream.ofTokens back)).endsDeclaration = true := by
    change brace.kind.endsDeclaration = true
    rw [hbrace]
    rfl
  constructor
  · constructor
    · rw [hp]
      exact List.forall_mem_append.mpr ⟨Stream.whole_ofTokens front, (Stream.whole_ofTokens back).cons brace⟩
    · rw [hp, Stream.valueKinds_append hfront' hclosing, Stream.ofTokens, valueKinds_uncommented hends, hfront]
  · unfold Stream.skipDeclaration
    rw [hp, List.dropWhile_append_of_pos (by simpa using hfront')]
    exact Stream.skipDeclaration_of_ends hclosing

/-- A rule with nothing but spaces around it is all that is parsed. -/
theorem parse_of_rule {registered : ℕ} {text : String} {space : Item} {s : Stream} {r : Rule} {q : Progress}
    (htext : Stream.ofText text = space :: s) (hspace : space.kind = .space) (hs : s.Whole)
    (hrule : Reader.rule? registered (.start s) = .ok (some r) q) (hrest : q.stream.Whole) (hspaces : Spaces q.stream) :
    parse registered text = Progress.parsed { q with sheet.rules := q.sheet.rules ++ [r] } := by
  have hstep := Progress.step_of_rule (p := .start s) hrule
  calc parse registered text
    _ = (Progress.finish registered { Progress.start s with stream := space :: s }).parsed := by
      unfold parse
      rw [htext]
      rfl
    _ = ((Progress.start s).finish registered).parsed :=
      Progress.parsed_finish_of_space hspace hs.opensAddress (.start s)
    _ = (((Progress.start s).step registered).finish registered).parsed := (Progress.parsed_finish_step _).symm
    _ = ((Progress.start s).step registered).parsed := by
      rw [hstep]
      exact Progress.parsed_finish_of_spaces hrest hspaces
    _ = _ := by rw [hstep]

/-- A text with one rule around a definition registers the template of the definition. -/
theorem parse_of_definition {selector css : String} {text : String} (hcs : Prints cs ks)
    (hks : DerivesDefinition rows widths ks) (ht : Template.ofRows selector css rows widths = .ok t)
    (htext : text.toList = "body \x7b".toList ++ (" display: ".toList ++ (cs ++ [' ', '\x7d']))) (registered : ℕ) :
    (parse registered text).sheet.diagnostics = [] ∧ ∃ selector' css',
      (parse registered text).templates = [{ t with selector := selector', css := css' }] := by
  obtain ⟨us, hkinds, hstream⟩ := exists_stream htext (readsAs_declaration hcs)
  obtain ⟨front, brace, back, rfl, hfront, hbrace, hback⟩ := exists_of_kindsOf hkinds
  rw [Stream.ofTokens_append, Stream.ofTokens_cons (by rw [hbrace]; nofun)] at hstream
  generalize hblock : Stream.ofTokens front ++ Item.token brace :: Stream.ofTokens back = block at hstream
  let p : Progress := .start (.token ⟨.ident "body", "body".toList, 0⟩ :: .token ⟨.space, [' '], 4⟩ ::
    .token ⟨.punct .leftBrace, ['\x7b'], 5⟩ :: block)
  obtain ⟨hbefore, hend⟩ :=
    Reader.before_block (p := { p.past block "body" with depth := 1 }) hfront hks hbrace hblock.symm
  have hp : p.stream.Whole := ((hbefore.whole.cons _).cons _).cons _
  have hbrace' : (Item.token brace).kind = .punct .rightBrace := hbrace
  obtain ⟨q, selector', css', hread, hrest, hsheet, htemplates⟩ :=
    Reader.block_of_definition hbefore hks ht hbrace' hend
  have hrule : Reader.rule? registered p = .ok (some ⟨q.selector, q.declarations⟩) q :=
    Reader.rule?_of_block (w := ⟨"body", "body", fun _ => rfl⟩) rfl rfl rfl rfl hp hread
  rw [parse_of_rule hstream rfl hp hrule (hrest ▸ Stream.whole_ofTokens back) (hrest ▸ Stream.spaces_ofTokens hback)]
  exact ⟨congrArg Sheet.diagnostics hsheet, selector', css', htemplates⟩

end Style

end SlotGrid
