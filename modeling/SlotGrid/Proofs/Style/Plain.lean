import Mathlib
import SlotGrid.Style.Parse

/-! # Plain readers

Selectors, values and template definitions are read item by item: their readers ask about the current item,
write to the selector, move on, or fail where they are. They never move on from an item that divides a style
sheet into rules and declarations.
-/

namespace SlotGrid.Style

/-- The braces around blocks and the end of declarations. -/
def TokenKind.divides : TokenKind → Bool
  | punct .leftBrace => true
  | k => k.endsDeclaration

theorem TokenKind.divides_of_ends {k : TokenKind} (h : k.endsDeclaration = true) : k.divides = true := by
  unfold divides
  split
  · rfl
  · exact h

theorem TokenKind.divides_of_isCombinator {k : TokenKind} (h : k.isCombinator) : k.divides = false := by
  unfold isCombinator at h
  split at h
  all_goals first | rfl | contradiction

theorem TokenKind.divides_of_isMatcher {k : TokenKind} (h : k.isMatcher) : k.divides = false := by
  unfold isMatcher at h
  split at h
  · rfl
  · contradiction

namespace Item

/-- The item without its place in the text. -/
def unplaced : Item → Item
  | token t => token { t with position := 0 }
  | openAddress cs _ => openAddress cs 0

@[simp] theorem kind_unplaced (i : Item) : i.unplaced.kind = i.kind := by cases i <;> rfl

@[simp] theorem name?_unplaced (i : Item) : i.unplaced.name? = i.name? := by cases i <;> rfl

@[simp] theorem lexeme_unplaced (i : Item) : i.unplaced.lexeme = i.lexeme := by cases i <;> rfl

theorem divides_of_name?_eq_some {i : Item} {name : String} (h : i.name? = some name) : ¬ i.kind.divides := by
  cases i with
  | openAddress => simp [name?] at h
  | token t =>
    obtain ⟨k, cs, n⟩ := t
    cases k <;> simp_all [name?, Token.name?, kind, TokenKind.divides, TokenKind.endsDeclaration]

end Item

namespace Reader

variable {α β : Type}

/-! ## Looking at the current item -/

/-- The kind of the current item. -/
def kindOf (i : Option Item) : TokenKind := i.elim .endOfInput Item.kind

/-- Answers a question about the current item. -/
def look (f : Option Item → α) : Reader α := return f (← get).stream.head?

theorem kind_eq_look : kind = look kindOf := by
  funext p
  change EStateM.Result.ok p.stream.kind p = .ok (kindOf p.stream.head?) p
  cases p.stream <;> rfl

/-- Whether the item is a term of an expression. -/
def termAt (i : Option Item) : Bool :=
  match kindOf i with
  | .punct .plus | .delim '-' | .dimension _ _ | .number _ | .string _ => true
  | _ => (i.bind Item.name?).isSome

theorem isTerm_eq_look : isTerm = look termAt := by
  funext p
  unfold isTerm look termAt
  rw [kind_eq_look]
  change (match kindOf p.stream.head? with
    | .punct .plus | .delim '-' | .dimension _ _ | .number _ | .string _ => pure true
    | _ => do return (← name?).isSome : Reader Bool) p = .ok _ p
  generalize kindOf p.stream.head? = k
  split <;> rfl

theorem not_divides_of_termAt {i : Item} (h : termAt (some i) = true) : ¬ i.kind.divides := by
  unfold termAt at h
  split at h
  all_goals first
    | (rename_i hk; rw [show i.kind = _ from hk]; simp [TokenKind.divides, TokenKind.endsDeclaration])
    | (obtain ⟨name, hn⟩ := Option.isSome_iff_exists.mp h
       exact Item.divides_of_name?_eq_some hn)

/-! ## Plain readers -/

/-- Whether a reader is plain when the current item is as a condition says. -/
inductive Plain : {α : Type} → (Option Item → Prop) → Reader α → Prop
  | pure {α : Type} {P : Option Item → Prop} (a : α) : Plain P (Pure.pure a)
  | fail {α : Type} {P : Option Item → Prop} {r : Reader α} (h : ∀ p, ∃ e, r p = .error e p) : Plain P r
  | look {α β : Type} {P : Option Item → Prop} {f : Option Item → α} {r : α → Reader β}
      (hf : ∀ i, f (i.map Item.unplaced) = f i) (hr : ∀ a, Plain (fun i => P i ∧ f i = a) (r a)) :
      Plain P (look f >>= r)
  | write {α : Type} {P : Option Item → Prop} {r : Unit → Reader α} (text : String) (hr : Plain P (r ())) :
      Plain P (write text >>= r)
  | advance {P : Option Item → Prop} (h : ∀ i, P (some i) → ¬ i.kind.divides) : Plain P advance
  | bind {α β : Type} {P : Option Item → Prop} {r : Reader α} {s : α → Reader β} (hr : Plain P r)
      (hs : ∀ a, Plain (fun _ => True) (s a)) : Plain P (r >>= s)
  | collect {α : Type} {P : Option Item → Prop} {r : Reader (Option α)} (hr : Plain (fun _ => True) r) :
      Plain P (collect r)

variable {P Q : Option Item → Prop}

/-- A reader that is plain is plain when more is known. -/
theorem Plain.mono {r : Reader α} (hr : Plain P r) (hPQ : ∀ {i}, Q i → P i) : Plain Q r := by
  induction hr generalizing Q with
  | pure a => exact .pure a
  | fail h => exact .fail h
  | look hf hr ih => exact .look hf fun a => ih a fun h => ⟨hPQ h.1, h.2⟩
  | write text hr ih => exact .write text (ih hPQ)
  | advance h => exact .advance fun i hi => h i (hPQ hi)
  | bind hr hs ih => exact .bind (ih hPQ) hs
  | collect hr => exact .collect hr

theorem plain_map {r : Reader α} (f : α → β) (hr : Plain P r) : Plain P (f <$> r) := by
  rw [map_eq_pure_bind]
  exact .bind hr fun _ => .pure _

theorem plain_discard {r : Reader α} (hr : Plain P r) : Plain P (discard r) := plain_map _ hr

theorem plain_loop {r : Reader Bool} (hr : Plain (fun _ => True) r) : Plain P (loop r) :=
  plain_discard <| .collect <| .bind hr fun _ => .pure _

theorem plain_write (text : String) : Plain P (write text) := by
  rw [← bind_pure (write text)]
  exact .write text (.pure ())

theorem exists_unexpected (expected : String) (p : Progress) :
    ∃ e, (unexpected expected : Reader α) p = .error e p := by
  obtain ⟨s, _⟩ := p
  rcases s with _ | ⟨_ | _, s⟩
  all_goals exact ⟨_, rfl⟩

theorem plain_unexpected (expected : String) : Plain P (unexpected expected : Reader α) :=
  .fail (exists_unexpected expected)

theorem plain_throw (e : SyntaxError) : Plain P (throw e : Reader α) := .fail fun _ => ⟨e, rfl⟩

theorem plain_kind {r : TokenKind → Reader β} (hr : ∀ k, Plain (fun i => P i ∧ kindOf i = k) (r k)) :
    Plain P (kind >>= r) := by
  rw [kind_eq_look]
  exact .look (fun i => by cases i <;> simp [kindOf]) hr

theorem plain_name? {r : Option String → Reader β}
    (hr : ∀ n, Plain (fun i => P i ∧ i.bind Item.name? = n) (r n)) : Plain P (name? >>= r) :=
  .look (f := fun i => i.bind Item.name?) (fun i => by cases i <;> simp) hr

theorem plain_lexeme {r : List Char → Reader β} (hr : ∀ cs, Plain P (r cs)) : Plain P (lexeme >>= r) :=
  .look (f := fun i => i.elim [] Item.lexeme) (fun i => by cases i <;> simp) fun cs => (hr cs).mono And.left

theorem plain_isTerm {r : Bool → Reader β} (hr : ∀ b, Plain (fun i => P i ∧ termAt i = b) (r b)) :
    Plain P (isTerm >>= r) := by
  rw [isTerm_eq_look]
  exact .look (fun i => by cases i <;> simp [termAt, kindOf]) hr

/-- Moving on from an item of a kind that divides nothing. -/
theorem plain_advance {k : TokenKind} (hk : k.divides = false) : Plain (fun i => P i ∧ kindOf i = k) advance :=
  .advance fun i h => by rw [show i.kind = k from h.2, hk]; exact Bool.false_ne_true

theorem plain_advance_name {name : String} :
    Plain (fun i => P i ∧ i.bind Item.name? = some name) advance :=
  .advance fun _ h => Item.divides_of_name?_eq_some h.2

/-! ### Tokens -/

theorem plain_expect {k : TokenKind} (hk : k.divides = false) (expected : String) : Plain P (expect k expected) := by
  refine plain_kind fun k' => ?_
  split_ifs with h
  · subst h
    exact plain_advance hk
  · exact plain_unexpected _

theorem plain_expectName (expected : String) : Plain P (expectName expected) := by
  apply plain_name?
  intro name
  split
  · exact .bind plain_advance_name fun _ => .pure _
  · exact plain_unexpected _

theorem plain_skipSpace : Plain P skipSpace := by
  refine .bind (.collect ?_) fun _ => .pure _
  refine plain_kind fun k => ?_
  split_ifs with h
  · subst h
    exact .bind (plain_advance rfl) fun _ => .pure _
  · exact .pure _

theorem plain_skipNoise : Plain P skipNoise := by
  refine plain_loop (plain_kind fun k => ?_)
  split
  all_goals first
    | exact .bind (plain_advance rfl) fun _ => .pure _
    | exact .pure _

theorem plain_property : Plain P property := by
  refine .bind (plain_expectName _) fun name => ?_
  refine .bind (plain_discard plain_skipSpace) fun _ => ?_
  refine .bind (plain_expect rfl _) fun _ => ?_
  exact .bind (plain_discard plain_skipSpace) fun _ => .pure _

/-! ### Values -/

theorem divides_of_lengthOf? {k : TokenKind} {l : Except TemplateError Length} (h : lengthOf? k = some l) :
    k.divides = false := by
  cases k <;> simp_all [lengthOf?, TokenKind.divides, TokenKind.endsDeclaration]

theorem plain_valueItem : Plain P valueItem := by
  refine plain_kind fun k => ?_
  split
  · exact plain_unexpected _
  · rename_i hopening
    split_ifs with hends
    · exact .pure _
    · refine .bind (plain_advance ?_) fun _ => .pure _
      unfold TokenKind.divides
      split
      · exact absurd rfl hopening
      · simpa using hends

theorem plain_length (expected : String) : Plain P (length expected) := by
  refine plain_kind fun k => ?_
  split
  · rename_i h
    exact .bind (plain_advance (divides_of_lengthOf? h)) fun _ => .pure _
  · exact plain_throw _
  · exact plain_unexpected _

theorem plain_rowHeight : Plain P rowHeight := by
  refine plain_kind fun k => ?_
  split
  · exact .bind (plain_advance rfl) fun _ => .pure _
  · exact .bind (plain_advance rfl) fun _ => .pure _
  · exact .bind (plain_length _) fun _ => .pure _

theorem plain_minMaxLengths : Plain P minMaxLengths := by
  refine .bind (plain_discard plain_skipSpace) fun _ => ?_
  refine .bind (plain_length _) fun low => ?_
  refine .bind (plain_discard plain_skipSpace) fun _ => ?_
  refine .bind (plain_expect rfl _) fun _ => ?_
  refine .bind (plain_discard plain_skipSpace) fun _ => ?_
  refine .bind (plain_length _) fun high => ?_
  refine .bind (plain_discard plain_skipSpace) fun _ => ?_
  exact .bind (plain_expect rfl _) fun _ => .pure _

theorem plain_columnWidth : Plain P columnWidth := by
  have hlength : ∀ {Q}, Plain Q (do return Width.length (← length "column width")) :=
    .bind (plain_length _) fun _ => .pure _
  refine plain_kind fun k => ?_
  split
  · exact .bind (plain_advance rfl) fun _ => .pure _
  · exact .bind (plain_advance rfl) fun _ => .pure _
  · exact .bind (plain_advance rfl) fun _ => .pure _
  · exact .bind (plain_advance rfl) fun _ => .pure _
  · refine .bind (plain_advance rfl) fun _ => ?_
    refine .bind (plain_discard plain_skipSpace) fun _ => ?_
    exact .bind (plain_expect rfl _) fun _ => plain_minMaxLengths
  · split_ifs
    · exact .bind (plain_advance rfl) fun _ => plain_minMaxLengths
    · exact hlength
  · exact hlength

theorem plain_row? : Plain P row? := by
  refine plain_kind fun k => ?_
  split
  · refine .bind (plain_advance rfl) fun _ => ?_
    refine .bind (plain_discard plain_skipSpace) fun _ => plain_kind fun k => ?_
    split_ifs with h
    · subst h
      refine .bind (plain_advance rfl) fun _ => ?_
      refine .bind (plain_discard plain_skipSpace) fun _ => ?_
      refine .bind plain_rowHeight fun height => ?_
      exact .bind (plain_discard plain_skipSpace) fun _ => .pure _
    · exact .pure _
  · exact .pure _

theorem plain_columnWidth? : Plain P columnWidth? := by
  refine plain_kind fun k => ?_
  split_ifs
  · exact .pure _
  · refine .bind plain_columnWidth fun width => ?_
    exact .bind (plain_discard plain_skipSpace) fun _ => .pure _

theorem plain_templateDefinition : Plain P templateDefinition :=
  .bind (.collect plain_row?) fun _ => .bind (.collect plain_columnWidth?) fun _ => .pure _

/-! ### Selectors -/

theorem plain_startsCompound : Plain P startsCompound := by
  refine plain_kind fun k => ?_
  split
  all_goals first | exact .pure _ | exact plain_name? fun _ => .pure _

theorem plain_typeOrUniversal : Plain P typeOrUniversal := by
  refine plain_name? fun name => ?_
  split
  · refine .write _ ?_
    exact .bind plain_advance_name fun _ => .pure _
  · refine plain_kind fun k => ?_
    split_ifs with h
    · subst h
      refine .write _ ?_
      exact .bind (plain_advance rfl) fun _ => .pure _
    · exact .pure _

theorem plain_attributeValue {k : TokenKind} (hk : k.divides = false) :
    Plain (fun i => P i ∧ kindOf i = k) attributeValue := by
  have hskip : ∀ {Q}, Plain Q (discard skipSpace) := plain_discard plain_skipSpace
  refine plain_lexeme fun cs => .write _ ?_
  refine .bind (plain_advance hk) fun _ => ?_
  refine .bind hskip fun _ => plain_kind fun k => ?_
  simp only
  split
  · refine .write _ (.write _ (.write _ ?_))
    exact .bind (plain_advance rfl) fun _ => hskip
  · refine .bind (plain_expectName _) fun name => ?_
    exact .write _ hskip

theorem plain_attributeTest : Plain (fun i => P i ∧ kindOf i = .delim '[') attributeTest := by
  have hclose : ∀ {Q}, Plain Q (do expect (.delim ']') "']'"; write "]") :=
    .bind (plain_expect rfl _) fun _ => plain_write _
  refine .bind (plain_advance rfl) fun _ => .write _ ?_
  refine .bind (plain_discard plain_skipSpace) fun _ => ?_
  refine .bind (plain_expectName _) fun name => .write _ ?_
  refine .bind (plain_discard plain_skipSpace) fun _ => plain_kind fun k => ?_
  simp only
  split_ifs with h
  · exact .bind (plain_attributeValue (TokenKind.divides_of_isMatcher h)) fun _ => hclose
  · exact hclose

theorem plain_expression : Plain P expression := by
  refine .bind (.collect (plain_isTerm fun isTerm => ?_)) fun terms => ?_
  · split_ifs with h
    · subst h
      refine plain_lexeme fun cs => .write _ ?_
      refine .bind (.advance fun i hi => not_divides_of_termAt hi.2) fun _ => ?_
      exact .bind (plain_discard plain_skipSpace) fun _ => .pure _
    · exact .pure _
  · split_ifs
    · exact plain_unexpected _
    · exact .pure _

theorem plain_pseudoName : Plain P (do
    match ← kind with
    | .function name =>
      write name
      write "("
      advance
      discard skipSpace
      expression
      expect (.punct .rightParen) "')'"
      write ")"
    | _ => write (← expectName "pseudo-class name")) := by
  refine plain_kind fun k => ?_
  split
  · refine .write _ (.write _ ?_)
    refine .bind (plain_advance rfl) fun _ => ?_
    refine .bind (plain_discard plain_skipSpace) fun _ => ?_
    refine .bind plain_expression fun _ => ?_
    exact .bind (plain_expect rfl _) fun _ => plain_write _
  · exact .bind (plain_expectName _) fun name => plain_write _

theorem plain_pseudo : Plain (fun i => P i ∧ kindOf i = .punct .colon) pseudo := by
  refine .bind (plain_advance rfl) fun _ => .write _ ?_
  refine plain_kind fun k => ?_
  simp only
  split_ifs with h
  · subst h
    exact .bind (plain_advance rfl) fun _ => .write _ plain_pseudoName
  · exact plain_pseudoName

theorem plain_qualifier : Plain P qualifier := by
  refine plain_kind fun k => ?_
  split
  · refine .write _ (.write _ ?_)
    exact .bind (plain_advance rfl) fun _ => .pure _
  · refine .bind (plain_advance rfl) fun _ => ?_
    refine .bind (plain_expectName _) fun name => ?_
    exact .write _ (.write _ (.pure _))
  · exact .bind plain_attributeTest fun _ => .pure _
  · exact .bind plain_pseudo fun _ => .pure _
  · exact .pure _

theorem plain_negation : Plain (fun i => P i ∧ kindOf i = .negation) negation := by
  have hclose : ∀ {Q}, Plain Q (do discard skipSpace; expect (.punct .rightParen) "')'"; write ")") :=
    .bind (plain_discard plain_skipSpace) fun _ =>
      .bind (plain_expect rfl _) fun _ => plain_write _
  refine .bind (plain_advance rfl) fun _ => .write _ ?_
  refine .bind (plain_discard plain_skipSpace) fun _ => ?_
  refine .bind plain_typeOrUniversal fun typed => ?_
  simp only
  split_ifs
  · refine .bind plain_qualifier fun found => ?_
    split_ifs
    · exact .bind (plain_unexpected _) fun _ => hclose
    · exact hclose
  · exact hclose

theorem plain_compound : Plain P compound := by
  refine .bind plain_typeOrUniversal fun typed => .bind (.collect (plain_kind fun k => ?_)) fun parts => ?_
  · split_ifs with h
    · subst h
      exact .bind plain_negation fun _ => .pure _
    · refine .bind plain_qualifier fun found => ?_
      split_ifs <;> exact .pure _
  · split_ifs
    · exact plain_unexpected _
    · exact .pure _

theorem plain_selector : Plain P selector := by
  refine .bind plain_compound fun _ => plain_loop ?_
  refine .bind plain_skipSpace fun spaced => plain_kind fun k => ?_
  split_ifs with h
  · refine .write _ (plain_lexeme fun cs => .write _ (.write _ ?_))
    refine .bind (plain_advance (TokenKind.divides_of_isCombinator h)) fun _ => ?_
    refine .bind (plain_discard plain_skipSpace) fun _ => ?_
    exact .bind plain_compound fun _ => .pure _
  · refine .bind (plain_startsCompound) fun starts => ?_
    split_ifs
    · exact .write _ (.bind plain_compound fun _ => .pure _)
    · exact .pure _

theorem plain_selectors : Plain P selectors := by
  refine .bind plain_selector fun _ => plain_loop (plain_kind fun k => ?_)
  split_ifs with h
  · subst h
    refine .bind (plain_advance rfl) fun _ => ?_
    refine .bind (plain_discard plain_skipSpace) fun _ => .write _ ?_
    exact .bind plain_selector fun _ => .pure _
  · exact .pure _

end Reader

end SlotGrid.Style
