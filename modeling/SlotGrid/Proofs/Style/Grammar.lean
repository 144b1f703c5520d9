import SlotGrid.Proofs.Style.Declarations

/-! # The grammar of selectors

A selector is a tree, which derives the items that it is written with. Its text is written from the tree alone. Spaces
that mean nothing and comments are in neither.
-/

namespace SlotGrid.Style

/-- Name characters are read as they are. -/
theorem run_of_isNameChar {cs : List Char} (h : ∀ c ∈ cs, isNameChar c = true) :
    nameReader.run cs = (cs.map Piece.literal, []) := by
  induction cs with
  | nil =>
    rw [PieceReader.run]
    rfl
  | cons c cs ih =>
    obtain ⟨hc, hcs⟩ := List.forall_mem_cons.mp h
    have hread : nameReader.read (c :: cs) = some (.literal c, cs) := by
      change namePiece? (c :: cs) = _
      unfold namePiece?
      split
      · rename_i heq
        cases heq
        cases hc
      · rename_i heq
        cases heq
        exact if_pos hc
      · rename_i heq
        cases heq
    rw [PieceReader.run]
    split
    · rename_i hnone
      rw [hread] at hnone
      cases hnone
    · rename_i hsome
      rw [hread] at hsome
      cases hsome
      rw [ih hcs]
      rfl

/-- A name as it stands in the text of a selector, and the identifier that it is. -/
structure Word where
  written : String
  decoded : String
  /-- It takes other characters than those of names to write something else. -/
  decoded_eq : (∀ c ∈ written.toList, isNameChar c = true) → decoded = written
  deriving DecidableEq, Repr

/-- A word that is written as it is spelled. -/
def Word.spelled (lexeme : List Char) : Word where
  written := .ofList lexeme
  decoded := decodedText (nameReader.run lexeme).1
  decoded_eq h := by
    rw [String.toList_ofList] at h
    rw [run_of_isNameChar h]
    simp [decodedText, Piece.literal, List.flatMap_map]

/-- The words of template definitions are written as they are spelled. -/
def Item.word? : Item → Option Word
  | .token ⟨.ident name, _, _⟩ => some ⟨name, name, fun _ => rfl⟩
  | .token ⟨.keyword _, lexeme, _⟩ => some (.spelled lexeme)
  | _ => none

theorem Item.name?_eq_word? (i : Item) : i.name? = i.word?.map Word.written := by
  rcases i with ⟨k, lexeme, n⟩ | ⟨lexeme, n⟩
  · cases k <;> rfl
  · rfl

namespace Grammar

/-! ## Trees -/

inductive TypeName
  | named (name : Word)
  | universal
  deriving DecidableEq, Repr

/-- What an attribute is compared with. -/
inductive Operand
  | word (w : Word)
  | quoted (value : String)
  deriving DecidableEq, Repr

inductive Qualifier
  | id (name : String)
  | classed (name : Word)
  | attr (name : Word) (test : Option (List Char × Operand))
  /-- A pseudo-class, or a pseudo-element after two colons. -/
  | pseudo (element : Bool) (name : Word)
  | call (element : Bool) (function : String) (terms : List (List Char))
  deriving DecidableEq, Repr

inductive Part
  | qualifier (q : Qualifier)
  | notType (t : TypeName)
  | notQualifier (q : Qualifier)
  deriving DecidableEq, Repr

structure Compound where
  type? : Option TypeName
  parts : List Part
  nonempty : type? ≠ none ∨ parts ≠ []
  deriving DecidableEq, Repr

inductive Combinator
  | descendant
  | child
  | next
  | sibling
  deriving DecidableEq, Repr

inductive Selector
  | compound (c : Compound)
  | join (outer : Selector) (k : Combinator) (c : Compound)
  deriving DecidableEq, Repr

/-- Selectors with commas between them. -/
inductive Group
  | one (s : Selector)
  | also (g : Group) (s : Selector)
  deriving DecidableEq, Repr

/-! ## Texts -/

def TypeName.text : TypeName → String
  | named w => w.written
  | universal => "*"

def Operand.text : Operand → String
  | word w => w.written
  | quoted value => "\"" ++ value ++ "\""

def colons (element : Bool) : String := if element then "::" else ":"

def Qualifier.text : Qualifier → String
  | id name => "#" ++ name
  | classed w => "." ++ w.written
  | attr w none => "[" ++ w.written ++ "]"
  | attr w (some (operator, v)) => "[" ++ w.written ++ .ofList operator ++ v.text ++ "]"
  | pseudo element w => colons element ++ w.written
  | call element f terms => colons element ++ f ++ "(" ++ .ofList terms.flatten ++ ")"

def Part.text : Part → String
  | qualifier q => q.text
  | notType t => ":not(" ++ t.text ++ ")"
  | notQualifier q => ":not(" ++ q.text ++ ")"

def partsText : List Part → String
  | [] => ""
  | x :: xs => x.text ++ partsText xs

theorem partsText_concat (xs : List Part) (x : Part) : partsText (xs ++ [x]) = partsText xs ++ x.text := by
  induction xs with
  | nil => exact String.append_empty.trans String.empty_append.symm
  | cons y ys ih => rw [List.cons_append, partsText, partsText, ih, String.append_assoc]

def Compound.text (c : Compound) : String := (c.type?.elim "" TypeName.text) ++ partsText c.parts

def Combinator.text : Combinator → String
  | descendant => " "
  | child => " > "
  | next => " + "
  | sibling => " ~ "

def Selector.text : Selector → String
  | compound c => c.text
  | join outer k c => outer.text ++ k.text ++ c.text

def Group.text : Group → String
  | one s => s.text
  | also g s => g.text ++ ", " ++ s.text

/-! ## Derivations -/

inductive TypeName.Derives : TypeName → Item → Prop
  | named {i : Item} {w : Word} (h : i.word? = some w) : Derives (.named w) i
  | universal {i : Item} (h : i.kind = .punct .asterisk) : Derives .universal i

inductive Operand.Derives : Operand → Item → Prop
  | word {i : Item} {w : Word} (h : i.word? = some w) : Derives (.word w) i
  | quoted {i : Item} {value : String} (h : i.kind = .string value) : Derives (.quoted value) i

/-- The terms between the parentheses of a pseudo-class. -/
inductive DerivesTerms : List (List Char) → List Item → Prop
  | nil : DerivesTerms [] []
  | concat {terms : List (List Char)} {is s : List Item} {i : Item} (h : DerivesTerms terms is)
      (hi : Reader.termAt (some i) = true) (hs : Spaces s) : DerivesTerms (terms ++ [i.lexeme]) (is ++ i :: s)

def Colons (element : Bool) (is : List Item) : Prop :=
  is.map Item.kind = if element then [.punct .colon, .punct .colon] else [.punct .colon]

inductive Qualifier.Derives : Qualifier → List Item → Prop
  | id {i : Item} {name : String} (h : i.kind = .hash name) : Derives (.id name) [i]
  | classed {mark i : Item} {w : Word} (hmark : mark.kind = .punct .period) (hi : i.word? = some w) :
      Derives (.classed w) [mark, i]
  | attr {opening i closing : Item} {s t : List Item} {w : Word} (hopening : opening.kind = .delim '[')
      (hs : Spaces s) (hi : i.word? = some w) (ht : Spaces t) (hclosing : closing.kind = .delim ']') :
      Derives (.attr w none) (opening :: s ++ i :: t ++ [closing])
  | test {opening i operator j closing : Item} {s t s' t' : List Item} {w : Word} {v : Operand}
      (hopening : opening.kind = .delim '[') (hs : Spaces s) (hi : i.word? = some w) (ht : Spaces t)
      (hoperator : operator.kind.isMatcher = true) (hs' : Spaces s') (hj : v.Derives j) (ht' : Spaces t')
      (hclosing : closing.kind = .delim ']') :
      Derives (.attr w (some (operator.lexeme, v))) (opening :: s ++ i :: t ++ operator :: s' ++ j :: t' ++ [closing])
  | pseudo {marks : List Item} {element : Bool} {i : Item} {w : Word} (hmarks : Colons element marks)
      (hi : i.word? = some w) : Derives (.pseudo element w) (marks ++ [i])
  | call {marks s is : List Item} {element : Bool} {i closing : Item} {function : String} {terms : List (List Char)}
      (hmarks : Colons element marks) (hi : i.kind = .function function) (hs : Spaces s)
      (hterms : DerivesTerms terms is) (hne : terms ≠ []) (hclosing : closing.kind = .punct .rightParen) :
      Derives (.call element function terms) (marks ++ i :: s ++ is ++ [closing])

inductive Part.Derives : Part → List Item → Prop
  | qualifier {q : Qualifier} {is : List Item} (h : q.Derives is) : Derives (.qualifier q) is
  | notType {opening i closing : Item} {s t : List Item} {n : TypeName} (hopening : opening.kind = .negation)
      (hs : Spaces s) (hi : n.Derives i) (ht : Spaces t) (hclosing : closing.kind = .punct .rightParen) :
      Derives (.notType n) (opening :: s ++ i :: t ++ [closing])
  | notQualifier {opening closing : Item} {s is t : List Item} {q : Qualifier} (hopening : opening.kind = .negation)
      (hs : Spaces s) (h : q.Derives is) (ht : Spaces t) (hclosing : closing.kind = .punct .rightParen) :
      Derives (.notQualifier q) (opening :: s ++ is ++ t ++ [closing])

inductive DerivesParts : List Part → List Item → Prop
  | nil : DerivesParts [] []
  | concat {xs : List Part} {x : Part} {is js : List Item} (h : DerivesParts xs is) (hx : x.Derives js) :
      DerivesParts (xs ++ [x]) (is ++ js)

inductive Compound.Derives : Compound → List Item → Prop
  | typed {t : TypeName} {i : Item} {xs : List Part} {is : List Item} (ht : t.Derives i) (h : DerivesParts xs is) :
      Derives ⟨some t, xs, .inl nofun⟩ (i :: is)
  | untyped {xs : List Part} {is : List Item} (hne : xs ≠ []) (h : DerivesParts xs is) : Derives ⟨none, xs, .inr hne⟩ is

/-- The character of a combinator, unless spaces stand for it. -/
def Combinator.sign? : Combinator → Option Punctuation
  | descendant => none
  | child => some .greater
  | next => some .plus
  | sibling => some .tilde

inductive Combinator.Derives : Combinator → List Item → Prop
  | spaces {s : List Item} (hs : Spaces s) (hne : s ≠ []) : Derives .descendant s
  | sign {k : Combinator} {m : Punctuation} {s t : List Item} {i : Item} (hs : Spaces s) (hi : i.kind = .punct m)
      (hk : k.sign? = some m) (ht : Spaces t) : Derives k (s ++ i :: t)

inductive Selector.Derives : Selector → List Item → Prop
  | compound {c : Compound} {is : List Item} (h : c.Derives is) : Derives (.compound c) is
  | join {outer : Selector} {k : Combinator} {c : Compound} {is js ks : List Item} (houter : outer.Derives is)
      (hk : k.Derives js) (hc : c.Derives ks) : Derives (.join outer k c) (is ++ js ++ ks)

inductive Group.Derives : Group → List Item → Prop
  | one {s : Selector} {is t : List Item} (h : s.Derives is) (ht : Spaces t) : Derives (.one s) (is ++ t)
  | also {g : Group} {s : Selector} {comma : Item} {is t js t' : List Item} (hg : g.Derives is)
      (hcomma : comma.kind = .punct .comma) (ht : Spaces t) (h : s.Derives js) (ht' : Spaces t') :
      Derives (.also g s) (is ++ comma :: t ++ js ++ t')

/-! ## Plain selectors -/

def Part.isPlain : Part → Bool
  | qualifier (.id _) | qualifier (.classed _) => true
  | _ => false

def Combinator.isPlain : Combinator → Bool
  | descendant | child => true
  | next | sibling => false

def Selector.compounds : Selector → List Compound
  | compound c => [c]
  | join outer _ c => outer.compounds ++ [c]

def Selector.combinators : Selector → List Combinator
  | compound _ => []
  | join outer k _ => outer.combinators ++ [k]

def Group.selectors : Group → List Selector
  | one s => [s]
  | also g s => g.selectors ++ [s]

/-- Types, ids and classes are all that is asked of an element, and of the elements above it. -/
structure Selector.Plain (s : Selector) : Prop where
  parts : ∀ c ∈ s.compounds, ∀ x ∈ c.parts, x.isPlain = true
  combinators : ∀ k ∈ s.combinators, k.isPlain = true

def Group.Plain (g : Group) : Prop := ∀ s ∈ g.selectors, s.Plain

theorem Selector.plain_compound_iff {c : Compound} : (compound c).Plain ↔ ∀ x ∈ c.parts, x.isPlain = true :=
  ⟨fun h => h.parts c (List.mem_singleton_self c), fun h => ⟨List.forall_mem_singleton.mpr h, nofun⟩⟩

theorem Selector.plain_join_iff {outer : Selector} {k : Combinator} {c : Compound} :
    (join outer k c).Plain ↔ outer.Plain ∧ k.isPlain = true ∧ ∀ x ∈ c.parts, x.isPlain = true := by
  constructor
  · rintro ⟨hparts, hcombinators⟩
    obtain ⟨houter, hc⟩ := List.forall_mem_append.mp hparts
    obtain ⟨houter', hk⟩ := List.forall_mem_append.mp hcombinators
    exact ⟨⟨houter, houter'⟩, hk k (List.mem_singleton_self k), hc c (List.mem_singleton_self c)⟩
  · rintro ⟨⟨houter, houter'⟩, hk, hc⟩
    exact ⟨List.forall_mem_append.mpr ⟨houter, List.forall_mem_singleton.mpr hc⟩,
      List.forall_mem_append.mpr ⟨houter', List.forall_mem_singleton.mpr hk⟩⟩

theorem Group.plain_one_iff {s : Selector} : (one s).Plain ↔ s.Plain := List.forall_mem_singleton

theorem Group.plain_also_iff {g : Group} {s : Selector} : (also g s).Plain ↔ g.Plain ∧ s.Plain :=
  List.forall_mem_append.trans (and_congr_right' List.forall_mem_singleton)

end Grammar

/-- The kinds that stand in selectors that are not plain, and in no others. -/
def TokenKind.isElaborate : TokenKind → Bool
  | .delim '[' | .negation | .punct .colon | .punct .plus | .punct .tilde => true
  | _ => false

namespace Grammar

/-- No item is of a kind that stands in selectors that are not plain only. -/
def PlainItems (is : List Item) : Prop := ∀ i ∈ is, i.kind.isElaborate = false

instance (is : List Item) : Decidable (PlainItems is) :=
  inferInstanceAs (Decidable (∀ i ∈ is, i.kind.isElaborate = false))

theorem plainItems_append {is js : List Item} : PlainItems (is ++ js) ↔ PlainItems is ∧ PlainItems js :=
  List.forall_mem_append

theorem plainItems_cons {i : Item} {is : List Item} :
    PlainItems (i :: is) ↔ i.kind.isElaborate = false ∧ PlainItems is := List.forall_mem_cons

theorem plainItems_of_spaces {is : List Item} (h : Spaces is) : PlainItems is := fun i hi => by rw [h i hi]; rfl

theorem not_plainItems {i : Item} {is : List Item} (hi : i.kind.isElaborate = true) (hmem : i ∈ is) :
    ¬ PlainItems is := by
  intro h
  rw [h i hmem] at hi
  cases hi

theorem isElaborate_of_word? {i : Item} {w : Word} (h : i.word? = some w) : i.kind.isElaborate = false := by
  unfold Item.word? at h
  split at h
  · rfl
  · rfl
  · cases h

theorem isElaborate_of_colons {element : Bool} {is : List Item} (h : Colons element is) :
    ∃ i ∈ is, i.kind.isElaborate = true := by
  have hmem : TokenKind.punct .colon ∈ is.map Item.kind := by
    rw [h]
    cases element
    all_goals exact List.mem_cons_self
  obtain ⟨i, hi, hkind⟩ := List.mem_map.mp hmem
  exact ⟨i, hi, by rw [hkind]; rfl⟩

theorem Qualifier.Derives.isPlain_iff {q : Qualifier} {is : List Item} (h : q.Derives is) :
    (Part.qualifier q).isPlain = true ↔ PlainItems is := by
  cases h with
  | id h => exact iff_of_true rfl (List.forall_mem_singleton.mpr (by rw [h]; rfl))
  | classed hmark hi =>
    refine iff_of_true rfl (plainItems_cons.mpr ⟨by rw [hmark]; rfl, ?_⟩)
    exact List.forall_mem_singleton.mpr (isElaborate_of_word? hi)
  | attr hopening => exact iff_of_false nofun (not_plainItems (by rw [hopening]; rfl) List.mem_cons_self)
  | test hopening => exact iff_of_false nofun (not_plainItems (by rw [hopening]; rfl) List.mem_cons_self)
  | pseudo hmarks =>
    obtain ⟨i, hi, hkind⟩ := isElaborate_of_colons hmarks
    exact iff_of_false nofun (not_plainItems hkind (List.mem_append_left _ hi))
  | call hmarks =>
    obtain ⟨i, hi, hkind⟩ := isElaborate_of_colons hmarks
    exact iff_of_false nofun (not_plainItems hkind (by simp [hi]))

theorem Part.Derives.isPlain_iff {x : Part} {is : List Item} (h : x.Derives is) : x.isPlain = true ↔ PlainItems is := by
  cases h with
  | qualifier h => exact h.isPlain_iff
  | notType hopening => exact iff_of_false nofun (not_plainItems (by rw [hopening]; rfl) List.mem_cons_self)
  | notQualifier hopening => exact iff_of_false nofun (not_plainItems (by rw [hopening]; rfl) List.mem_cons_self)

theorem DerivesParts.isPlain_iff {xs : List Part} {is : List Item} (h : DerivesParts xs is) :
    (∀ x ∈ xs, x.isPlain = true) ↔ PlainItems is := by
  induction h with
  | nil => exact iff_of_true nofun nofun
  | concat h hx ih => rw [plainItems_append, ← ih, ← hx.isPlain_iff, List.forall_mem_append, List.forall_mem_singleton]

theorem TypeName.Derives.plainItems {t : TypeName} {i : Item} (h : t.Derives i) : i.kind.isElaborate = false := by
  cases h with
  | named h => exact isElaborate_of_word? h
  | universal h =>
    rw [h]
    rfl

theorem Compound.Derives.isPlain_iff {c : Compound} {is : List Item} (h : c.Derives is) :
    (∀ x ∈ c.parts, x.isPlain = true) ↔ PlainItems is := by
  cases h with
  | typed ht h => rw [plainItems_cons, ← h.isPlain_iff, and_iff_right ht.plainItems]
  | untyped hne h => exact h.isPlain_iff

theorem Combinator.Derives.isPlain_iff {k : Combinator} {is : List Item} (h : k.Derives is) :
    k.isPlain = true ↔ PlainItems is := by
  cases h with
  | spaces hs => exact iff_of_true rfl (plainItems_of_spaces hs)
  | sign hs hi hk ht =>
    rw [plainItems_append, plainItems_cons, and_iff_right (plainItems_of_spaces hs),
      and_iff_left (plainItems_of_spaces ht), hi]
    cases k
    all_goals cases hk
    · exact iff_of_true rfl rfl
    · exact iff_of_false nofun nofun
    · exact iff_of_false nofun nofun

theorem Selector.Derives.plain_iff {s : Selector} {is : List Item} (h : s.Derives is) : s.Plain ↔ PlainItems is := by
  induction h with
  | compound h => rw [plain_compound_iff, h.isPlain_iff]
  | join houter hk hc ih =>
    rw [plain_join_iff, ih, hk.isPlain_iff, hc.isPlain_iff, plainItems_append, plainItems_append, and_assoc]

/-- Whether a group is plain can be seen from the kinds of the items that it derives. -/
theorem Group.Derives.plain_iff {g : Group} {is : List Item} (h : g.Derives is) : g.Plain ↔ PlainItems is := by
  induction h with
  | one h ht => rw [plain_one_iff, h.plain_iff, plainItems_append, and_iff_left (plainItems_of_spaces ht)]
  | also hg hcomma ht h ht' ih =>
    have hcomma := plainItems_cons.mpr ⟨congrArg TokenKind.isElaborate hcomma, plainItems_of_spaces ht⟩
    rw [plain_also_iff, ih, h.plain_iff, plainItems_append, plainItems_append, plainItems_append,
      and_iff_left (plainItems_of_spaces ht'), and_iff_left hcomma]

end Grammar

end SlotGrid.Style
