import SlotGrid.Proofs.Style.Abreast
import SlotGrid.Proofs.Style.Excision
import SlotGrid.Proofs.Style.Reread

/-! # Definitions that are rejected

A definition of a template that cannot be read, or that no template can be built from, is dropped with its declaration,
and a diagnostic is left for the rule. Everything else is found in the text as it is found in the text without the
declaration: up to the divider in front of the declaration both texts are the same, and from the end of the declaration
on they are alike.
-/

namespace SlotGrid.Style

namespace Reader

variable {α : Type} {registered : ℕ} {p q : Progress} {x y : List Item} {i : Item} {s : Stream} {t : String} {a : α}

/-- What a plain reader takes in front of a divider at the end of a text it takes in front of it in every text. -/
theorem Takes.in_front {r : Reader α} (h : Takes r x t a (y ++ [i])) (hr : Plain (fun _ => True) r)
    (hwhole : Stream.Whole (x ++ (y ++ [i]))) (hi : i.kind.divides = true) (hp : p.stream = x ++ (y ++ i :: s)) :
    r p = .ok a (p.past (y ++ i :: s) t) := by
  let J : Junction := ⟨[i], i :: s, .inr ⟨i, [], i, s, rfl, rfl, rfl, hi⟩, ⟨.empty, [], []⟩⟩
  let p₁ : Progress := { p with stream := x ++ (y ++ [i]) }
  have hfollows : Follows J p₁ p := by
    refine ⟨⟨x ++ y, x ++ y, .refl _, ?_, ?_⟩, rfl, rfl, rfl, rfl, rfl, rfl, rfl⟩
    · exact (List.append_assoc x y [i]).symm
    · exact hp.trans (List.append_assoc x y (i :: s)).symm
  obtain ⟨q, hq, hfollows'⟩ := (hr.agrees hfollows).exists_of_ok (h hwhole p₁ rfl)
  have hwrote := hr.of_ok (R := Progress.Wrote) hq
  have hstream : q.stream = y ++ i :: s := by
    obtain ⟨is, js, hs, his, hjs⟩ := hfollows'.stream
    have hlength := hs.length_eq
    obtain rfl : y = is := List.append_cancel_right his
    have hsuffix := hwrote.suffix
    rw [hp] at hsuffix
    refine (List.suffix_of_suffix_length_le hsuffix (List.suffix_append x _) ?_).eq_of_length ?_
    all_goals
      rw [hjs]
      simp [J, hlength]
  rw [hq, hwrote.eq, hstream, hfollows'.selector]
  rfl

/-- The property of a declaration is taken with the colon and the spaces behind it. -/
theorem takes_property {name colon : Item} {before behind : List Item} {w : Word} (hname : name.word? = some w)
    (hbefore : Spaces before) (hcolon : colon.kind = .punct .colon) (hbehind : Spaces behind) (hs : s.kind ≠ .space) :
    Takes property (name :: (before ++ colon :: behind)) "" w.written.toLower s := by
  have hkind : Stream.kind (colon :: behind ++ s) ≠ .space := by
    change colon.kind ≠ .space
    rw [hcolon]
    nofun
  exact .expectName_bind hname <| .skipSpace_bind hbefore hkind <| .expect_bind hcolon <|
    (takes_discard_skipSpace hbehind hs).map fun _ => w.written.toLower

/-- A definition that the grammar does not derive, or that no template can be built from, is reported and passed. -/
theorem templateDeclaration_of_rejected (hspace : p.stream.kind ≠ .space)
    (h : ∀ rows widths t, DerivesDefinition rows widths p.stream.valueKinds →
      Template.ofRows p.selector (valueText p.stream.declarationItems) rows widths ≠ .ok t) :
    ∃ e, templateDeclaration registered p = .ok () { p.report e with stream := p.stream.skipDeclaration } := by
  have hskip : ∀ {q : Progress}, p.Wrote q → q.stream.skipDeclaration = p.stream.skipDeclaration := by
    intro q hq
    obtain ⟨is, his, hs⟩ := hq.passed
    rw [← hs, his.skipDeclaration_append]
  unfold templateDeclaration
  cases hdefinition : templateDefinition p with
  | error e q =>
    have hmoved : q = { p with stream := q.stream } := moved_templateDefinition.of_error hdefinition
    refine ⟨e, ?_⟩
    change EStateM.Result.ok () { q.report e with stream := q.stream.skipDeclaration } = _
    rw [hskip (plain_templateDefinition.of_error hdefinition), hmoved]
    rfl
  | ok d q =>
    obtain ⟨rows, widths⟩ := d
    obtain ⟨hends, hderives⟩ := derives_of_templateDefinition hspace hdefinition
    have hmoved : q = { p with stream := q.stream } := moved_templateDefinition.of_ok hdefinition
    have hselector : q.selector = p.selector := by rw [hmoved]
    simp only [hselector]
    cases ht : Template.ofRows p.selector (valueText p.stream.declarationItems) rows widths with
    | error e =>
      refine ⟨.template e, ?_⟩
      rw [← hskip (plain_templateDefinition.of_ok hdefinition), Stream.skipDeclaration_of_ends hends]
      simp only
      rw [hmoved]
      rfl
    | ok t => exact absurd ht (h rows widths t hderives)

end Reader

/-! ## Declarations in a stream -/

namespace DeclarationSource

variable {property : String}

/-- What readers see of the name and the colon. -/
def start (d : DeclarationSource property) : List Item :=
  .token d.name :: (Stream.ofTokens d.beforeColon ++ .token d.colon :: Stream.ofTokens d.behindColon)

/-- What readers see of the value and of the spaces behind it. -/
def rest (d : DeclarationSource property) : List Item := Stream.ofTokens (d.value ++ d.behindValue)

theorem kind_name (d : DeclarationSource property) :
    (∃ name, d.name.kind = .ident name) ∨ ∃ w, d.name.kind = .keyword w := by
  obtain ⟨name, hname, -⟩ := Option.map_eq_some_iff.mp d.named
  unfold Token.name? at hname
  split at hname
  · exact .inl ⟨_, ‹_›⟩
  · exact .inr ⟨_, ‹_›⟩
  · cases hname

theorem goesOn_name (d : DeclarationSource property) : d.name.kind.endsDeclaration = false ∧ d.name.kind ≠ .space := by
  rcases d.kind_name with ⟨_, hk⟩ | ⟨_, hk⟩
  all_goals
    rw [hk]
    exact ⟨rfl, nofun⟩

theorem ofTokens_tokens (d : DeclarationSource property) : Stream.ofTokens d.tokens = d.start ++ d.rest := by
  have hname : d.name.kind ≠ .comment := by
    rcases d.kind_name with ⟨_, hk⟩ | ⟨_, hk⟩ <;> simp [hk]
  have hcolon : d.colon.kind ≠ .comment := by
    rw [d.colon_kind]
    nofun
  unfold tokens start rest
  rw [Stream.ofTokens_cons hname, Stream.ofTokens_append, Stream.ofTokens_cons hcolon, Stream.ofTokens_append]
  simp

theorem kind_tokens (d : DeclarationSource property) (s : Stream) :
    Stream.kind (Stream.ofTokens d.tokens ++ s) = d.name.kind := by
  rw [ofTokens_tokens]
  rfl

theorem goesOn_tokens (d : DeclarationSource property) {spaces : List Item} (hspaces : Spaces spaces) (s : Stream) :
    (Stream.kind (spaces ++ (Stream.ofTokens d.tokens ++ s))).endsDeclaration = false := by
  cases spaces with
  | nil =>
    rw [List.nil_append, kind_tokens]
    exact d.goesOn_name.1
  | cons j spaces =>
    change j.kind.endsDeclaration = false
    rw [hspaces j List.mem_cons_self]
    rfl

theorem goesOn (d : DeclarationSource property) : ∀ t ∈ d.value ++ d.behindValue, t.kind.endsDeclaration = false := by
  rw [List.forall_mem_append]
  refine ⟨d.undivided, fun t ht => ?_⟩
  rcases TokenKind.counts_eq_false.mp (d.blank t (by simp [ht])) with hk | hk
  all_goals
    rw [hk]
    rfl

theorem goesOn_rest (d : DeclarationSource property) : ∀ i ∈ d.rest, i.kind.endsDeclaration = false :=
  Stream.forall_mem_ofTokens (P := (·.endsDeclaration = false)) d.goesOn

variable {s : Stream} (hs : s.kind.endsDeclaration = true)

include hs

theorem declarationItems_rest (d : DeclarationSource property) : Stream.declarationItems (d.rest ++ s) = d.rest := by
  rw [Stream.declarationItems_append d.rest hs]
  exact List.takeWhile_eq_self_iff.mpr (by simpa using d.goesOn_rest)

theorem skipDeclaration_rest (d : DeclarationSource property) : Stream.skipDeclaration (d.rest ++ s) = s := by
  unfold Stream.skipDeclaration
  rw [List.dropWhile_append_of_pos (by simpa using d.goesOn_rest)]
  exact Stream.skipDeclaration_of_ends hs

theorem valueKinds_rest (d : DeclarationSource property) : Stream.valueKinds (d.rest ++ s) = kindsOf d.value := by
  have hblank : kindsOf d.behindValue = [] := kindsOf_eq_nil fun t ht => d.blank t (by simp [ht])
  rw [Stream.valueKinds_append d.goesOn_rest hs, rest, Stream.ofTokens, valueKinds_uncommented d.goesOn, kindsOf_append,
    hblank, List.append_nil]

omit hs in
theorem valueText_rest (d : DeclarationSource property) : valueText d.rest = d.text := by
  have hblank : ∀ t ∈ d.behindValue, t.kind.counts = false := fun t ht => d.blank t (by simp [ht])
  unfold valueText rest Stream.ofTokens text
  rw [flatMap_valueText_uncommented, spelling_append]
  exact congrArg String.ofList (@Text.trim_append [] _ _ nofun (isBlank_of_mem_spelling hblank))

end DeclarationSource

namespace Reader

variable {registered : ℕ} {p : Progress} {closing : Token} {s : Stream}

theorem past_nil (p : Progress) (s : Stream) : p.past s "" = { p with stream := s } := by simp [Progress.past]

/-- The name and the colon of a declaration are read up to its value. -/
theorem property_of_source {name : String} (d : DeclarationSource name)
    (hclosing : closing.kind.endsDeclaration = true) (hspace : Stream.kind (d.rest ++ [.token closing]) ≠ .space)
    (hp : p.stream = d.start ++ (d.rest ++ .token closing :: s)) :
    property p = .ok name { p with stream := d.rest ++ .token closing :: s } := by
  obtain ⟨raw, hraw, hlower⟩ := Option.map_eq_some_iff.mp d.named
  obtain ⟨w, hw, rfl⟩ := Option.map_eq_some_iff.mp ((Item.name?_eq_word? (.token d.name)).symm.trans hraw)
  have hblank : ∀ ts : List Token, (∀ t ∈ ts, t ∈ d.beforeColon ++ (d.behindColon ++ d.behindValue)) →
      Spaces (Stream.ofTokens ts) := fun ts h => Stream.spaces_ofTokens (kindsOf_eq_nil fun t ht => d.blank t (h t ht))
  have htakes : Takes property d.start "" w.written.toLower (d.rest ++ [.token closing]) :=
    takes_property hw (hblank d.beforeColon fun t ht => by simp [ht]) d.colon_kind
      (hblank d.behindColon fun t ht => by simp [ht]) hspace
  have hwhole : Stream.Whole (d.start ++ (d.rest ++ [.token closing])) := by
    rw [← List.append_assoc, ← d.ofTokens_tokens]
    exact List.forall_mem_append.mpr ⟨Stream.whole_ofTokens _, List.forall_mem_singleton.mpr ⟨closing, rfl⟩⟩
  rw [htakes.in_front plain_property hwhole (TokenKind.divides_of_ends hclosing) hp, hlower, past_nil]

/-- A declaration of a template that is rejected is reported and passed. -/
theorem declaration_of_rejected {d : DeclarationSource "display"} (hclosing : closing.kind.endsDeclaration = true)
    (hp : p.stream = Stream.ofTokens d.tokens ++ .token closing :: s)
    (hrow : ∃ u ts text, d.value = u :: ts ∧ u.kind = .string text)
    (h : ∀ rows widths t, DerivesDefinition rows widths (kindsOf d.value) →
      Template.ofRows p.selector d.text rows widths ≠ .ok t) :
    ∃ e, declaration registered p = .ok () { p.report e with stream := .token closing :: s } := by
  obtain ⟨u, ts, text, hvalue, hu⟩ := hrow
  have hk : ∀ s, Stream.kind (d.rest ++ s) = .string text := by
    intro s
    unfold DeclarationSource.rest
    rw [hvalue, List.cons_append, Stream.ofTokens_cons (by rw [hu]; nofun)]
    exact hu
  let p₁ : Progress := { p with stream := d.rest ++ .token closing :: s }
  have hproperty : property p = .ok "display" p₁ := by
    apply property_of_source d hclosing (by rw [hk]; nofun)
    rw [hp, d.ofTokens_tokens, List.append_assoc]
  have hends : (Stream.kind (.token closing :: s)).endsDeclaration = true := hclosing
  have hrejected : ∃ e, templateDeclaration registered p₁ =
      .ok () { p₁.report e with stream := p₁.stream.skipDeclaration } := by
    apply templateDeclaration_of_rejected (by rw [hk]; nofun)
    rw [d.valueKinds_rest hends, d.declarationItems_rest hends, d.valueText_rest]
    exact h
  obtain ⟨e, htemplate⟩ := hrejected
  refine ⟨e, ?_⟩
  unfold declaration
  rw [bind_of_ok hproperty, bind_kind, hk]
  rw [d.skipDeclaration_rest hends] at htemplate
  exact htemplate

/-- Spaces are skipped up to the end of a declaration, whatever stands behind it. -/
theorem skipSpace_of_spaces {spaces y : List Item} (hspaces : Spaces spaces)
    (hwhole : Stream.Whole (spaces ++ (y ++ [.token closing]))) (hspace : Stream.kind (y ++ [.token closing]) ≠ .space)
    (hclosing : closing.kind.endsDeclaration = true) (hp : p.stream = spaces ++ (y ++ .token closing :: s)) :
    discard skipSpace p = .ok () { p with stream := y ++ .token closing :: s } := by
  rw [(takes_discard_skipSpace hspaces hspace).in_front (plain_discard plain_skipSpace) hwhole
    (TokenKind.divides_of_ends hclosing) hp, past_nil]

theorem blockItem_of_rejected {d : DeclarationSource "display"} (hclosing : closing.kind.endsDeclaration = true)
    {spaces : List Item} (hspaces : Spaces spaces) (hwhole : Stream.Whole spaces)
    (hp : p.stream = spaces ++ (Stream.ofTokens d.tokens ++ .token closing :: s))
    (hrow : ∃ u ts text, d.value = u :: ts ∧ u.kind = .string text)
    (h : ∀ rows widths t, DerivesDefinition rows widths (kindsOf d.value) →
      Template.ofRows p.selector d.text rows widths ≠ .ok t) :
    ∃ e, blockItem registered p = .ok true { p.report e with stream := .token closing :: s } := by
  let p₁ : Progress := { p with stream := Stream.ofTokens d.tokens ++ .token closing :: s }
  have hskip : discard skipSpace p = .ok () p₁ := by
    refine skipSpace_of_spaces hspaces ?_ ?_ hclosing hp
    · exact List.forall_mem_append.mpr ⟨hwhole, List.forall_mem_append.mpr
        ⟨Stream.whole_ofTokens _, List.forall_mem_singleton.mpr ⟨closing, rfl⟩⟩⟩
    · rw [d.kind_tokens]
      exact d.goesOn_name.2
  obtain ⟨e, hdeclaration⟩ : ∃ e, declaration registered p₁ = .ok () { p₁.report e with stream := .token closing :: s } :=
    declaration_of_rejected hclosing rfl hrow h
  refine ⟨e, ?_⟩
  unfold blockItem
  rw [bind_of_ok hskip, bind_kind, d.kind_tokens]
  rcases d.kind_name with ⟨_, hk⟩ | ⟨_, hk⟩
  all_goals
    rw [hk]
    exact bind_of_ok hdeclaration

end Reader

theorem Alike.exists_token {t : Token} {is js : List Item} (h : Alike (.token t :: is) js) :
    ∃ (t' : Token) (js' : List Item), js = .token t' :: js' ∧ t'.kind = t.kind := by
  rcases h with _ | @⟨_, j, _, js, hij, -⟩
  cases j with
  | token t' => exact ⟨t', js, rfl, (Item.kind_eq_of_unplaced hij).symm⟩
  | openAddress => cases hij

/-! ## Texts without the declaration -/

/-- From the start of some rule of a text its block has been read up to here. -/
def ReadUpTo (registered : ℕ) (text : String) (b : Progress) : Prop :=
  ∃ p ∈ (Progress.start (.ofText text)).starts registered, Reader.Reaches registered p.fresh b

/-- A definition of a template stands in a text between two parts and is rejected: the block of a rule is read up to
it, but the grammar does not derive its value, or no template can be built from what is derived. -/
structure Rejected (registered : ℕ) (text : String) (front : List Item) (d : DeclarationSource "display")
    (back : List Item) (selector : String) : Prop where
  items : (Cursor.start text).items = front ++ (d.tokens.map .token ++ back)
  ends : Stream.kind back = .punct .semicolon ∨ Stream.kind back = .punct .rightBrace
  row : ∃ u ts row, d.value = u :: ts ∧ u.kind = .string row
  read : ∃ b spaces, ReadUpTo registered text b ∧ b.selector = selector ∧
    (∀ i ∈ spaces, ∃ t : Token, i = .token t ∧ t.kind = .space) ∧
    b.stream = spaces ++ (Stream.ofTokens d.tokens ++ back.filter (!·.isComment))
  rejected : ∀ rows widths t, DerivesDefinition rows widths (kindsOf d.value) →
    Template.ofRows selector d.text rows widths ≠ .ok t

theorem spaces_of_tokens {is : List Item} (h : ∀ i ∈ is, ∃ t : Token, i = .token t ∧ t.kind = .space) : Spaces is := by
  intro i hi
  obtain ⟨t, rfl, ht⟩ := h i hi
  exact ht

/-- What stands behind a divider in the stream stands behind it in the text, but for comments. -/
theorem exists_divided_front {text : String} {front rest is spaces : List Item} {i : Item} {p : Progress}
    (hitems : (Cursor.start text).items = front ++ rest) (hp : p.stream <:+ Stream.ofText text)
    (hi : i.kind ≠ .space) (hs : p.stream = is ++ i :: (spaces ++ rest.filter (!·.isComment)))
    (hspaces : ∀ i ∈ spaces, ∃ t : Token, i = .token t ∧ t.kind = .space) :
    ∃ before blank, front = before ++ i :: blank ∧ ∀ i ∈ blank, ∃ t : Token, i = .token t ∧ t.kind.counts = false := by
  obtain ⟨js, hjs⟩ := hp
  have hfront : js ++ is ++ i :: spaces = .token ⟨.space, [], 0⟩ :: front.filter (!·.isComment) := by
    apply List.append_cancel_right
    calc (js ++ is ++ i :: spaces) ++ rest.filter (!·.isComment)
      _ = Stream.ofText text := by
        rw [← hjs, hs]
        simp
      _ = _ := Stream.ofText_of_items hitems
  cases hcases : js ++ is with
  | nil =>
    rw [hcases] at hfront
    obtain ⟨rfl, -⟩ := List.cons.inj hfront
    exact absurd rfl hi
  | cons j ks =>
    rw [hcases] at hfront
    obtain ⟨before, blank, rfl, -, hblank⟩ := exists_cons_of_uncommented (List.cons.inj hfront).2.symm
    obtain ⟨ts, rfl, hts⟩ := exists_blank_tokens_of_uncommented (l := blank)
      (hblank ▸ fun i hi => (hspaces i hi).imp fun _ => And.left)
      (hblank ▸ spaces_of_tokens hspaces)
    refine ⟨before, ts.map .token, rfl, fun i hi => ?_⟩
    obtain ⟨t, ht, rfl⟩ := List.mem_map.mp hi
    exact ⟨t, rfl, hts t ht⟩

namespace Progress.Similar

variable {p q : Progress}

theorem bare_eq (h : p.Similar q) (s : Stream) : q.bare s = p.bare s := by
  simp [bare, h.selector, h.depth, h.declarations]

end Progress.Similar

theorem Progress.found_report (p : Progress) (e : SyntaxError) :
    (p.report e).found = p.found ++ ⟨[], [p.selector], [], []⟩ := by
  refine Found.mk.injEq .. ▸ ⟨?_, p.dropped_report e, ?_, ?_⟩
  all_goals exact (List.append_nil _).symm

theorem exists_closing {back : List Item}
    (h : Stream.kind back = .punct .semicolon ∨ Stream.kind back = .punct .rightBrace) :
    ∃ (closing : Token) (rest : List Item) (m : Punctuation), back = .token closing :: rest ∧ closing.kind = .punct m ∧
      (TokenKind.punct m).endsDeclaration = true := by
  rcases back with _ | ⟨closing | _, rest⟩
  · simp [Stream.kind] at h
  · rcases h with hk | hk
    · exact ⟨closing, rest, .semicolon, rfl, hk, rfl⟩
    · exact ⟨closing, rest, .rightBrace, rfl, hk, rfl⟩
  · simp [Stream.kind, Item.kind] at h

/-- The text without the declaration has the same items around it. -/
theorem Rejected.exists_excised {registered : ℕ} {text selector : String} {before blank back : List Item} {i : Item}
    {d : DeclarationSource "display"} (h : Rejected registered text (before ++ i :: blank) d back selector)
    {m : Punctuation} (hi : i.kind = .punct m) (hm : (TokenKind.punct m).divides = true)
    (hblank : ∀ i ∈ blank, ∃ t : Token, i = .token t ∧ t.kind.counts = false) :
    ∃ back', (Cursor.start (.ofList ((before ++ i :: blank ++ back).flatMap Item.lexeme))).items =
      before ++ i :: blank ++ back' ∧ Alike back back' := by
  obtain ⟨closing, rest, m', rfl, hclosing, hends⟩ := exists_closing h.ends
  have hitems := h.items
  rw [List.append_assoc, List.cons_append] at hitems
  have hexcised := items_excised (j := .token closing) hitems hi hm hclosing (TokenKind.divides_of_ends hends) hblank rfl
  unfold Cursor.start
  rw [String.toList_ofList, List.append_assoc, List.cons_append]
  simpa using hexcised

/-- Spaces in front of the next item make no difference to the rest of a rule. -/
theorem Reader.restOfRule_of_spaces (registered : ℕ) {b : Progress} {spaces : List Item} {closing : Token} {s : Stream}
    (hspaces : Spaces spaces) (hwhole : Stream.Whole spaces) (hclosing : closing.kind.endsDeclaration = true)
    (hspace : closing.kind ≠ .space) (hb : b.stream = spaces ++ .token closing :: s) :
    restOfRule registered b = restOfRule registered { b with stream := .token closing :: s } := by
  let c : Progress := { b with stream := .token closing :: s }
  have hskip : discard skipSpace b = .ok () c :=
    skipSpace_of_spaces (y := []) hspaces
      (List.forall_mem_append.mpr ⟨hwhole, List.forall_mem_singleton.mpr ⟨closing, rfl⟩⟩) hspace hclosing hb
  have hskip' : discard skipSpace c = .ok () c := bind_of_ok (skipSpace_of_not_space hspace)
  apply restOfRule_congr
  unfold blockItem
  rw [bind_of_ok hskip, bind_of_ok hskip']

/-- Of two runs in front of the same rule, where a definition of a template stands in its block for the first run only
and is rejected, both find the same, but for the diagnostic. -/
theorem found_finish_of_rejected {registered : ℕ} {p q b : Progress} {d : DeclarationSource "display"}
    {closing closing' : Token} {spaces : List Item} {s s' : Stream}
    (h : Beside (Stream.ofTokens d.tokens ++ .token closing :: s) (.token closing' :: s') p q)
    (halike : Alike (.token closing :: s) (.token closing' :: s'))
    (hclosing : closing.kind.endsDeclaration = true) (hreaches : Reader.Reaches registered p.fresh b) {is : List Item}
    {i : Item} (hi : i.kind.divides = true) (hs : p.stream = is ++ i :: b.stream)
    (hspaces : ∀ i ∈ spaces, ∃ t : Token, i = .token t ∧ t.kind = .space)
    (hb : b.stream = spaces ++ (Stream.ofTokens d.tokens ++ .token closing :: s))
    (hrow : ∃ u ts row, d.value = u :: ts ∧ u.kind = .string row)
    (hrejected : ∀ rows widths t, DerivesDefinition rows widths (kindsOf d.value) →
      Template.ofRows b.selector d.text rows widths ≠ .ok t) :
    ∃ g : Found, (q.finish registered).found = b.found ++ g ∧
      (p.finish registered).found = b.found ++ ⟨[], [b.selector], [], []⟩ ++ g := by
  have hwhole : Stream.Whole spaces := fun i hi => (hspaces i hi).imp fun _ => And.left
  have hspaces' := spaces_of_tokens hspaces
  have hends : b.stream.kind.endsDeclaration = false := hb ▸ d.goesOn_tokens hspaces' _
  have hfollows := h.follows hi (hb ▸ hs)
  have hopens : Stream.opensAddress (spaces ++ .token closing' :: s') = false := by
    cases spaces with
    | nil => rfl
    | cons j spaces =>
      obtain ⟨t, rfl, -⟩ := hspaces j List.mem_cons_self
      rfl
  obtain ⟨b', hreaches', hsimilar, hb'⟩ := hreaches.exists_behind hfollows rfl (congrArg (i :: ·) hb.symm) hends hopens
  obtain ⟨e, hitem⟩ := Reader.blockItem_of_rejected hclosing hspaces' hwhole hb hrow hrejected
  have hkind : closing'.kind = closing.kind := by
    cases halike with
    | cons hij => exact (Item.kind_eq_of_unplaced hij).symm
  have hspace : closing'.kind ≠ .space := by
    intro hk
    rw [← hkind, hk] at hclosing
    cases hclosing
  have hrest := Reader.restOfRule_of_spaces registered hspaces' hwhole (hkind ▸ hclosing) hspace hb'
  have hfound := Progress.found_finish_of_restOfRule (.refl _) (hreaches.next hitem).rule?_eq
  have hfound' := Progress.found_finish_of_restOfRule (b := { b' with stream := _ }) halike
    (hreaches'.rule?_eq.trans (Reader.bind_congr hrest))
  refine ⟨(b.bare (.token closing :: s)).foundBehind (registered + b.templates.length), ?_, ?_⟩
  · have htemplates : b'.templates = b.templates := congrArg Found.templates hsimilar.found
    rw [hfound', ← hsimilar.bare_eq, ← hsimilar.found, ← htemplates]
    rfl
  · rw [hfound, ← Progress.found_report b e]
    rfl

/-- A definition that is rejected leaves a diagnostic for its rule. All else is found in the text without it. -/
theorem found_parse_of_rejected {registered : ℕ} {text selector : String} {front back : List Item}
    {d : DeclarationSource "display"} (h : Rejected registered text front d back selector) :
    ∃ f g : Found, (parse registered (.ofList ((front ++ back).flatMap Item.lexeme))).found = f ++ g ∧
      (parse registered text).found = f ++ ⟨[], [selector], [], []⟩ ++ g := by
  obtain ⟨b, spaces, ⟨p, hp, hreaches⟩, rfl, hspaces, hb⟩ := h.read
  obtain ⟨closing, rest, m, rfl, hclosing, hends⟩ := exists_closing h.ends
  have hfilter : (d.tokens.map Item.token ++ Item.token closing :: rest).filter (!·.isComment) =
      Stream.ofTokens d.tokens ++ .token closing :: rest.filter (!·.isComment) := by
    rw [List.filter_append, uncommented_cons (by simp [hclosing])]
    rfl
  rw [uncommented_cons (by simp [hclosing])] at hb
  have hspaces' := spaces_of_tokens hspaces
  obtain ⟨is, i, m', hi, hm', hs⟩ := hreaches.exists_divider (hb ▸ d.goesOn_tokens hspaces' _)
  have hsuffix : p.stream <:+ Stream.ofText text := (Progress.keeps_starts hp : Progress.Further _ p)
  obtain ⟨before, blank, rfl, hblank⟩ :=
    exists_divided_front h.items hsuffix (by rw [hi]; nofun) (hfilter ▸ hb ▸ hs) hspaces
  obtain ⟨back', hitems, halike⟩ := h.exists_excised hi hm' hblank
  generalize String.ofList _ = text' at hitems ⊢
  obtain ⟨closing', rest', rfl, hkind⟩ := halike.exists_token
  have halike' := halike.uncommented
  rw [uncommented_cons (by simp [hclosing]), uncommented_cons (by simp [hkind, hclosing])] at halike'
  have hbeside := Beside.of_items h.items hitems
  rw [hfilter, uncommented_cons (by simp [hkind, hclosing])] at hbeside
  have hbehind : Stream.ofTokens d.tokens ++ .token closing :: rest.filter (!·.isComment) <:+ p.stream :=
    ⟨is ++ i :: spaces, by rw [List.append_assoc, List.cons_append, ← hb]; exact hs.symm⟩
  obtain ⟨q, hq, hfinish, hfinish'⟩ := hbeside.exists_of_mem_starts rfl
    (fun _ => kind_ne_endOfInput_of_mem_ofText) hp (by simp) hbehind
  obtain ⟨g, hg, hg'⟩ := found_finish_of_rejected hq halike' (hclosing ▸ hends) hreaches (hi ▸ hm') hs hspaces hb
    h.row h.rejected
  refine ⟨b.found, g, ?_, ?_⟩
  · rw [← hg, ← hfinish']
    rfl
  · rw [← hg', ← hfinish]
    rfl

end SlotGrid.Style
