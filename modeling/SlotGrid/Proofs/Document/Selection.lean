import SlotGrid.Proofs.Document.Reading
import SlotGrid.Proofs.Style.Grammar

/-! # What selectors select

A plain selector has a meaning in every document. The query reads the text of the selector, and selects by what it
reads. Both are the same if all names are written in the characters that the query takes for those of names.
-/

namespace SlotGrid.Style.Grammar

open Document.Compound (isMark segments segments_mark segments_append readTag? readMarked?)

/-! ## Meaning -/

/-- Types are compared without regard to case. -/
def TypeName.holds (e : Element) : TypeName → Bool
  | named w => w.decoded.toLower = e.tag.toLower
  | universal => true

def Part.holds (e : Element) : Part → Bool
  | qualifier (.id name) => e.id = some name
  | qualifier (.classed w) => e.hasClass w.decoded
  | _ => false

def Compound.holds (c : Compound) (e : Element) : Bool := c.type?.all (·.holds e) && c.parts.all (·.holds e)

def Selector.selects (d : Document) : Selector → ElementId → Bool
  | compound c, e => (d.get? e).any c.holds
  | join outer .descendant c, e => (d.get? e).any c.holds && (d.ancestors e).any (outer.selects d)
  | join outer .child c, e => (d.get? e).any c.holds && (d.parent? e).any (outer.selects d)
  | join _ _ _, _ => false

def Group.selects (d : Document) (g : Group) (e : ElementId) : Bool := g.selectors.any (·.selects d e)

/-! ## Names -/

def TypeName.name? : TypeName → Option String
  | named w => some w.written
  | universal => none

def Part.id? : Part → Option String
  | qualifier (.id name) => some name
  | _ => none

def Part.name? : Part → Option String
  | qualifier (.id name) => some name
  | qualifier (.classed w) => some w.written
  | _ => none

namespace Compound

def ids (c : Compound) : List String := c.parts.filterMap Part.id?

/-- The names of the compound as they are written. -/
def names (c : Compound) : List String := (c.type?.bind TypeName.name?).toList ++ c.parts.filterMap Part.name?

end Compound

def Group.compounds (g : Group) : List Compound := g.selectors.flatMap Selector.compounds

/-- A name in the characters that the query takes for those of names. -/
def IsName (name : String) : Prop := name ≠ "" ∧ ∀ c ∈ name.toList, Document.Compound.isNameChar c = true

/-- A compound whose text the query can read: plain, with one id at most, and with names that are names to it. -/
structure Compound.Queried (c : Compound) : Prop where
  plain : ∀ x ∈ c.parts, x.isPlain = true
  id : c.ids.length ≤ 1
  names : ∀ name ∈ c.names, IsName name

theorem Word.decoded_of_isName {w : Word} (h : IsName w.written) : w.decoded = w.written :=
  w.decoded_eq fun c hc => Document.Compound.isNameChar_style (h.2 c hc)

theorem IsName.not_isMark {name : String} (h : IsName name) : ∀ c ∈ name.toList, isMark c = false := by
  intro c hc
  have hsign := Document.Compound.ne_sign_of_isNameChar (h.2 c hc)
  unfold isMark
  simp only [List.mem_cons, not_or] at hsign
  simp [hsign]

theorem IsName.toList_ne_nil {name : String} (h : IsName name) : name.toList ≠ [] := by
  simpa using h.1

/-! ## The text of a compound -/

/-- A part as the query reads it. -/
def Part.marked? : Part → Option (Char × List Char)
  | qualifier (.id name) => some ('#', name.toList)
  | qualifier (.classed w) => some ('.', w.written.toList)
  | _ => none

theorem Part.eq_of_isPlain {x : Part} (h : x.isPlain = true) :
    (∃ name, x = qualifier (.id name)) ∨ ∃ w, x = qualifier (.classed w) := by
  unfold isPlain at h
  split at h
  · exact .inl ⟨_, rfl⟩
  · exact .inr ⟨_, rfl⟩
  · cases h

theorem Part.exists_marked {x : Part} (h : x.isPlain = true) :
    ∃ mark name, isMark mark = true ∧ x.marked? = some (mark, name.toList) ∧ x.name? = some name ∧
      x.text.toList = mark :: name.toList := by
  rcases Part.eq_of_isPlain h with ⟨name, rfl⟩ | ⟨w, rfl⟩
  · exact ⟨'#', name, rfl, rfl, rfl, by simp [text, Qualifier.text]⟩
  · exact ⟨'.', w.written, rfl, rfl, rfl, by simp [text, Qualifier.text]⟩

theorem segments_partsText {xs : List Part} (hplain : ∀ x ∈ xs, x.isPlain = true)
    (hnames : ∀ name ∈ xs.filterMap Part.name?, IsName name) :
    segments (partsText xs).toList = ([], xs.filterMap Part.marked?) := by
  induction xs with
  | nil => rfl
  | cons x xs ih =>
    obtain ⟨hx, hplain⟩ := List.forall_mem_cons.mp hplain
    obtain ⟨mark, name, hmark, hmarked, hname, htext⟩ := Part.exists_marked hx
    rw [List.filterMap_cons_some hname] at hnames
    obtain ⟨hname, hnames⟩ := List.forall_mem_cons.mp hnames
    rw [partsText, String.toList_append, htext, List.cons_append, segments_mark hmark,
      segments_append hname.not_isMark, ih hplain hnames, List.append_nil, List.filterMap_cons_some hmarked]

theorem readMarked?_of_isName {name : String} (h : IsName name) (x : Document.Compound) (mark : Char) :
    readMarked? x (mark, name.toList) = some (if mark = '#' then { x with id := some name }
      else { x with classes := x.classes ++ [name] }) := by
  have hread : ¬ (name.toList = [] ∨ (!name.toList.all Document.Compound.isNameChar) = true) := by
    rw [List.all_eq_true.mpr h.2]
    simpa using h.1
  unfold readMarked?
  dsimp only
  rw [if_neg hread, String.ofList_toList]
  split_ifs <;> rfl

/-- The marked names of a compound ask what its parts ask. -/
theorem exists_foldlM_marked {xs : List Part} (hplain : ∀ x ∈ xs, x.isPlain = true)
    (hnames : ∀ name ∈ xs.filterMap Part.name?, IsName name) (x : Document.Compound)
    (hid : (x.id.toList ++ xs.filterMap Part.id?).length ≤ 1) :
    ∃ y, (xs.filterMap Part.marked?).foldlM readMarked? x = some y ∧
      ∀ e, y.holds e = (x.holds e && xs.all (·.holds e)) := by
  induction xs generalizing x with
  | nil => exact ⟨x, rfl, fun e => (Bool.and_true _).symm⟩
  | cons part xs ih =>
    obtain ⟨hx, hrest⟩ := List.forall_mem_cons.mp hplain
    rcases Part.eq_of_isPlain hx with ⟨name, rfl⟩ | ⟨w, rfl⟩
    · obtain ⟨hname, hnames⟩ := List.forall_mem_cons.mp hnames
      have hnone : x.id = none := by
        cases hx : x.id with
        | none => rfl
        | some id =>
          rw [hx] at hid
          simp [Part.id?] at hid
      obtain ⟨y, hy, hholds⟩ := ih hrest hnames { x with id := some name } (by simpa [hnone, Part.id?] using hid)
      refine ⟨y, ?_, fun e => ?_⟩
      · rw [List.filterMap_cons_some (by rfl), List.foldlM_cons, readMarked?_of_isName hname]
        exact hy
      · rw [hholds]
        simp only [Document.Compound.holds, hnone, Part.holds, List.all_cons, Option.all_some, Option.all_none]
        ac_rfl
    · obtain ⟨hname, hnames⟩ := List.forall_mem_cons.mp hnames
      obtain ⟨y, hy, hholds⟩ := ih hrest hnames { x with classes := x.classes ++ [w.written] } hid
      refine ⟨y, ?_, fun e => ?_⟩
      · rw [List.filterMap_cons_some (by rfl), List.foldlM_cons, readMarked?_of_isName hname]
        exact hy
      · rw [hholds]
        simp only [Document.Compound.holds, Part.holds, List.all_cons, List.all_append, Word.decoded_of_isName hname]
        simp [Bool.and_assoc]

theorem readTag?_of_isName {name : String} (h : IsName name) :
    readTag? name.toList = some (some name.toLower) := by
  have hstar : ¬ (name.toList = [] ∨ name.toList = ['*']) := by
    rintro (hnil | hstar)
    · exact h.toList_ne_nil hnil
    · have hmem : '*' ∈ name.toList := hstar ▸ List.mem_cons_self
      exact Document.Compound.ne_sign_of_isNameChar (h.2 '*' hmem) (by decide)
  unfold readTag?
  rw [if_neg hstar, if_pos (List.all_eq_true.mpr h.2), String.ofList_toList]

theorem Compound.Queried.exists_read {c : Compound} (h : c.Queried) :
    ∃ x, Document.Compound.read? c.text.toList = some x ∧ ∀ e, x.holds e = c.holds e := by
  obtain ⟨type?, parts, hne⟩ := c
  obtain ⟨hplain, hid, hnames⟩ := h
  obtain ⟨htype, hnames⟩ := List.forall_mem_append.mp hnames
  have hparts := segments_partsText hplain hnames
  -- the compound starts with what `tag` reads, and the rest are its parts
  have hread : ∀ (tag : List Char) (tag? : Option String), (∀ c ∈ tag, isMark c = false) →
      readTag? tag = some tag? →
      ∃ x, Document.Compound.read? (tag ++ (partsText parts).toList) = some x ∧
        ∀ e, x.holds e = (tag?.all (· = e.tag.toLower) && parts.all (·.holds e)) := by
    intro tag tag? htag hreadTag
    obtain ⟨x, hx, hholds⟩ :=
      exists_foldlM_marked hplain hnames { Document.Compound.universal with tag := tag? } hid
    refine ⟨x, ?_, fun e => ?_⟩
    · rw [Document.Compound.read?_eq, segments_append htag, hparts, List.append_nil, hreadTag]
      exact hx
    · rw [hholds]
      simp [Document.Compound.holds, Document.Compound.universal]
  cases type? with
  | none => exact hread [] none nofun rfl
  | some t =>
    cases t with
    | universal =>
      obtain ⟨x, hx, hholds⟩ := hread ['*'] none (List.forall_mem_singleton.mpr rfl) rfl
      have htext : (partsText parts).toList.cons '*' = ("*" ++ partsText parts).toList := by simp
      exact ⟨x, htext ▸ hx, hholds⟩
    | named w =>
      have hname : IsName w.written := htype _ List.mem_cons_self
      obtain ⟨x, hx, hholds⟩ := hread w.written.toList _ hname.not_isMark (readTag?_of_isName hname)
      refine ⟨x, ?_, fun e => ?_⟩
      · rw [← hx, Compound.text, String.toList_append]
        rfl
      · rw [hholds, ← Word.decoded_of_isName hname]
        rfl

theorem Compound.Queried.solid {c : Compound} (h : c.Queried) :
    ∀ ch ∈ c.text.toList, (Text.isBlank ch = false ∧ ch ≠ '>') ∧ ch ≠ ',' := by
  obtain ⟨x, hx, -⟩ := h.exists_read
  exact fun ch hch => Document.Compound.solid_of_read? hx hch

theorem Compound.Queried.text_ne_nil {c : Compound} (h : c.Queried) : c.text.toList ≠ [] := by
  obtain ⟨type?, parts, hne⟩ := c
  obtain ⟨hplain, -, hnames⟩ := h
  rw [text, String.toList_append]
  cases type? with
  | some t =>
    refine List.append_ne_nil_of_left_ne_nil ?_ _
    cases t with
    | named w => exact (hnames w.written List.mem_cons_self).toList_ne_nil
    | universal => simp [TypeName.text]
  | none =>
    refine List.append_ne_nil_of_right_ne_nil _ ?_
    cases parts with
    | nil => exact absurd rfl (hne.resolve_left fun h => h rfl)
    | cons x xs =>
      obtain ⟨mark, name, -, -, -, htext⟩ := Part.exists_marked (hplain x List.mem_cons_self)
      rw [partsText, String.toList_append, htext]
      exact List.cons_ne_nil _ _

/-! ## The text of a selector -/

/-- The words of the text of a plain selector. -/
def Selector.words : Selector → List (List Char)
  | compound c => [c.text.toList]
  | join outer .child c => outer.words ++ [['>'], c.text.toList]
  | join outer _ c => outer.words ++ [c.text.toList]

/-- A selector whose text the query can read. -/
structure Selector.Queried (s : Selector) : Prop where
  compounds : ∀ c ∈ s.compounds, c.Queried
  combinators : ∀ k ∈ s.combinators, k.isPlain = true

theorem Selector.Queried.of_join {outer : Selector} {k : Combinator} {c : Compound} (h : (join outer k c).Queried) :
    outer.Queried ∧ (k = .descendant ∨ k = .child) ∧ c.Queried := by
  obtain ⟨hcompounds, hcombinators⟩ := h
  obtain ⟨houter, hc⟩ := List.forall_mem_append.mp hcompounds
  obtain ⟨houter', hk⟩ := List.forall_mem_append.mp hcombinators
  refine ⟨⟨houter, houter'⟩, ?_, hc c (List.mem_singleton_self c)⟩
  have hk := hk k (List.mem_singleton_self k)
  cases k
  · exact .inl rfl
  · exact .inr rfl
  · cases hk
  · cases hk

theorem Selector.words_text {s : Selector} (h : s.Queried) : Document.Chain.words s.text.toList = s.words := by
  induction s with
  | compound c =>
    have hc := h.compounds c (List.mem_singleton_self c)
    exact Document.Chain.words_of_solid (fun ch hch => (hc.solid ch hch).1) hc.text_ne_nil
  | join outer k c ih =>
    obtain ⟨houter, hk, hc⟩ := h.of_join
    have hwords := Document.Chain.words_of_solid (fun ch hch => (hc.solid ch hch).1) hc.text_ne_nil
    rcases hk with rfl | rfl
    · have htext : (join outer .descendant c).text.toList = outer.text.toList ++ ' ' :: c.text.toList := by
        simp [text, Combinator.text]
      rw [htext, Document.Chain.words_append_space, ih houter, hwords]
      rfl
    · have htext : (join outer .child c).text.toList = outer.text.toList ++ ' ' :: (['>'] ++ ' ' :: c.text.toList) := by
        simp [text, Combinator.text]
      rw [htext, Document.Chain.words_append_space, Document.Chain.words_append_space, ih houter, hwords,
        Document.Chain.words_sign]
      rfl

theorem Selector.exists_extend {s : Selector} (h : s.Queried) :
    ∃ word rest first x, s.words = word :: rest ∧ Document.Compound.read? word = some first ∧
      Document.Chain.extend? (.compound first) false rest = some x ∧ ∀ d e, x.holds d e = s.selects d e := by
  induction s with
  | compound c =>
    obtain ⟨x, hx, hholds⟩ := (h.compounds c (List.mem_singleton_self c)).exists_read
    refine ⟨_, [], x, _, rfl, hx, rfl, fun d e => ?_⟩
    rw [Document.Chain.holds, funext hholds]
    rfl
  | join outer k c ih =>
    obtain ⟨houter, hk, hc⟩ := h.of_join
    obtain ⟨word, rest, first, x, hwords, hfirst, hx, hholds⟩ := ih houter
    obtain ⟨y, hy, hholds'⟩ := hc.exists_read
    have hfirst' : ∀ (ws : List (List Char)), outer.words ++ ws = word :: (rest ++ ws) := fun ws => by
      rw [hwords, List.cons_append]
    rcases hk with rfl | rfl
    · refine ⟨_, _, first, .descendant x y, hfirst' [c.text.toList], hfirst, ?_, fun d e => ?_⟩
      · rw [Document.Chain.extend?_append hx, Document.Chain.extend?_word hy]
        rfl
      · rw [Document.Chain.holds, funext hholds', funext (hholds d)]
        rfl
    · refine ⟨_, _, first, .child x y, hfirst' [['>'], c.text.toList], hfirst, ?_, fun d e => ?_⟩
      · rw [Document.Chain.extend?_append hx, Document.Chain.extend?, if_pos rfl, Document.Chain.extend?_word hy]
        rfl
      · rw [Document.Chain.holds, funext hholds', funext (hholds d)]
        rfl

theorem Selector.exists_read {s : Selector} (h : s.Queried) :
    ∃ x, Document.Chain.read? s.text.toList = some x ∧ Document.Chain.read? (' ' :: s.text.toList) = some x ∧
      ∀ d e, x.holds d e = s.selects d e := by
  obtain ⟨word, rest, first, x, hwords, hfirst, hx, hholds⟩ := exists_extend h
  have hread : ∀ cs, Document.Chain.words cs = s.words → Document.Chain.read? cs = some x := by
    intro cs hcs
    unfold Document.Chain.read?
    rw [hcs, hwords]
    dsimp only
    rw [hfirst]
    exact hx
  refine ⟨x, hread _ (words_text h), hread _ ?_, hholds⟩
  exact (Document.Chain.words_append_space [] s.text.toList).trans (words_text h)

theorem Selector.not_comma {s : Selector} (h : s.Queried) : ',' ∉ s.text.toList := by
  have hcompound : ∀ {c : Compound}, c.Queried → ',' ∉ c.text.toList := fun hc hmem => (hc.solid ',' hmem).2 rfl
  induction s with
  | compound c => exact hcompound (h.compounds c (List.mem_singleton_self c))
  | join outer k c ih =>
    obtain ⟨houter, hk, hc⟩ := h.of_join
    have houter := ih houter
    have hc := hcompound hc
    rcases hk with rfl | rfl
    all_goals simp [text, Combinator.text, houter, hc]

/-! ## The text of a group -/

/-- The chains that are read select what the selectors select. -/
theorem Group.exists_mapM {g : Group} (h : ∀ s ∈ g.selectors, s.Queried) :
    ∃ chains, (Document.Chain.alternatives g.text.toList).mapM Document.Chain.read? = some chains ∧
      ∀ d e, chains.any (·.holds d e) = g.selects d e := by
  induction g with
  | one s =>
    have hs := h s (List.mem_singleton_self s)
    obtain ⟨x, hx, -, hholds⟩ := Selector.exists_read hs
    refine ⟨[x], ?_, fun d e => ?_⟩
    · rw [text, Document.Chain.alternatives_of_not_comma (Selector.not_comma hs), List.mapM_cons, hx]
      rfl
    · rw [List.any_cons, hholds]
      rfl
  | also g s ih =>
    obtain ⟨hg, hs⟩ := List.forall_mem_append.mp h
    have hs := hs s (List.mem_singleton_self s)
    obtain ⟨chains, hchains, hholds⟩ := ih hg
    obtain ⟨x, -, hx, hholds'⟩ := Selector.exists_read hs
    have htext : (also g s).text.toList = g.text.toList ++ ',' :: ' ' :: s.text.toList := by
      simp [text]
    have hcomma : ',' ∉ ' ' :: s.text.toList := by
      simpa using Selector.not_comma hs
    refine ⟨chains ++ [x], ?_, fun d e => ?_⟩
    · rw [htext, Document.Chain.alternatives_append_comma, Document.Chain.alternatives_of_not_comma hcomma,
        List.mapM_append, hchains, List.mapM_cons, hx]
      rfl
    · rw [List.any_append, hholds, List.any_cons, hholds']
      simp [selects, selectors]

/-- The query selects what the group does. -/
theorem Group.query_text {g : Group} (hplain : g.Plain) (hids : ∀ c ∈ g.compounds, c.ids.length ≤ 1)
    (hnames : ∀ c ∈ g.compounds, ∀ name ∈ c.names, IsName name) (d : Document) :
    d.query g.text = d.tree.filter (g.selects d) := by
  have hqueried : ∀ s ∈ g.selectors, s.Queried := by
    intro s hs
    refine ⟨fun c hc => ?_, (hplain s hs).combinators⟩
    have hmem : c ∈ g.compounds := List.mem_flatMap.mpr ⟨s, hs, hc⟩
    exact ⟨(hplain s hs).parts c hc, hids c hmem, hnames c hmem⟩
  obtain ⟨chains, hchains, hholds⟩ := exists_mapM hqueried
  unfold Document.query Document.Chain.readAll?
  rw [hchains]
  exact congrArg (d.tree.filter ·) (funext (hholds d))

/-! ## Texts that select nothing -/

theorem mem_partsText {xs : List Part} {x : Part} (hx : x ∈ xs) {ch : Char} (h : ch ∈ x.text.toList) :
    ch ∈ (partsText xs).toList := by
  induction xs with
  | nil => cases hx
  | cons y xs ih =>
    rw [partsText, String.toList_append]
    rcases List.mem_cons.mp hx with rfl | hx
    · exact List.mem_append_left _ h
    · exact List.mem_append_right _ (ih hx)

theorem Selector.mem_text_of_compound {s : Selector} {c : Compound} (hc : c ∈ s.compounds) {ch : Char}
    (h : ch ∈ c.text.toList) : ch ∈ s.text.toList := by
  induction s with
  | compound c' =>
    obtain rfl := List.mem_singleton.mp hc
    exact h
  | join outer k c' ih =>
    rw [text, String.toList_append, String.toList_append]
    rcases List.mem_append.mp hc with hc | hc
    · exact List.mem_append_left _ (List.mem_append_left _ (ih hc))
    · obtain rfl := List.mem_singleton.mp hc
      exact List.mem_append_right _ h

theorem Selector.mem_text_of_combinator {s : Selector} {k : Combinator} (hk : k ∈ s.combinators) {ch : Char}
    (h : ch ∈ k.text.toList) : ch ∈ s.text.toList := by
  induction s with
  | compound c => cases hk
  | join outer k' c ih =>
    rw [text, String.toList_append, String.toList_append]
    rcases List.mem_append.mp hk with hk | hk
    · exact List.mem_append_left _ (List.mem_append_left _ (ih hk))
    · obtain rfl := List.mem_singleton.mp hk
      exact List.mem_append_left _ (List.mem_append_right _ h)

theorem Group.mem_text_of_selector {g : Group} {s : Selector} (hs : s ∈ g.selectors) {ch : Char}
    (h : ch ∈ s.text.toList) : ch ∈ g.text.toList := by
  induction g with
  | one s' =>
    obtain rfl := List.mem_singleton.mp hs
    exact h
  | also g s' ih =>
    rw [text, String.toList_append, String.toList_append]
    rcases List.mem_append.mp hs with hs | hs
    · exact List.mem_append_left _ (List.mem_append_left _ (ih hs))
    · obtain rfl := List.mem_singleton.mp hs
      exact List.mem_append_right _ h

/-- The characters that no plain selector is written with. -/
def elaborateSigns : List Char := ['[', ':', '+', '~']

theorem Part.exists_elaborate_of_not_isPlain {x : Part} (h : x.isPlain ≠ true) :
    ∃ ch ∈ x.text.toList, ch ∈ elaborateSigns := by
  have hcolon : ∀ (element : Bool) (t : String), ':' ∈ (colons element ++ t).toList := by
    intro element t
    cases element
    all_goals simp [colons]
  cases x with
  | qualifier q =>
    cases q with
    | id name => exact absurd rfl h
    | classed w => exact absurd rfl h
    | attr w test =>
      refine ⟨'[', ?_, by decide⟩
      cases test
      all_goals simp [text, Qualifier.text]
    | pseudo element w => exact ⟨':', hcolon element _, by decide⟩
    | call element f terms =>
      refine ⟨':', ?_, by decide⟩
      rw [text, Qualifier.text, String.append_assoc, String.append_assoc, String.append_assoc]
      exact hcolon element _
  | notType t => exact ⟨':', by simp [text], by decide⟩
  | notQualifier q => exact ⟨':', by simp [text], by decide⟩

theorem Combinator.exists_elaborate_of_not_isPlain {k : Combinator} (h : k.isPlain ≠ true) :
    ∃ ch ∈ k.text.toList, ch ∈ elaborateSigns := by
  cases k with
  | descendant => exact absurd rfl h
  | child => exact absurd rfl h
  | next => exact ⟨'+', by simp [text], by decide⟩
  | sibling => exact ⟨'~', by simp [text], by decide⟩

theorem Selector.exists_elaborate_of_not_plain {s : Selector} (h : ¬ s.Plain) :
    ∃ ch ∈ s.text.toList, ch ∈ elaborateSigns := by
  by_cases hparts : ∀ c ∈ s.compounds, ∀ x ∈ c.parts, x.isPlain = true
  · have hcombinators : ¬ ∀ k ∈ s.combinators, k.isPlain = true := fun hk => h ⟨hparts, hk⟩
    push Not at hcombinators
    obtain ⟨k, hk, hplain⟩ := hcombinators
    obtain ⟨ch, hch, hsign⟩ := Combinator.exists_elaborate_of_not_isPlain hplain
    exact ⟨ch, mem_text_of_combinator hk hch, hsign⟩
  · push Not at hparts
    obtain ⟨c, hc, x, hx, hplain⟩ := hparts
    obtain ⟨ch, hch, hsign⟩ := Part.exists_elaborate_of_not_isPlain hplain
    refine ⟨ch, mem_text_of_compound hc ?_, hsign⟩
    rw [Compound.text, String.toList_append]
    exact List.mem_append_right _ (mem_partsText hx hch)

/-- A selector with an attribute, a pseudo-class, a negation or a sibling in it selects nothing. -/
theorem Group.query_text_of_not_plain {g : Group} (h : ¬ g.Plain) (d : Document) : d.query g.text = [] := by
  unfold Plain at h
  push Not at h
  obtain ⟨s, hs, hplain⟩ := h
  obtain ⟨ch, hch, hsign⟩ := Selector.exists_elaborate_of_not_plain hplain
  refine Document.query_eq_nil (mem_text_of_selector hs hch) ?_ d
  rw [elaborateSigns, List.mem_cons, List.mem_cons, List.mem_cons, List.mem_singleton] at hsign
  unfold Document.Compound.isLegible
  rcases hsign with rfl | rfl | rfl | rfl
  all_goals
    rw [Text.not_blank_of_printable (by decide)]
    rfl

theorem Part.mem_text_of_name {x : Part} {name : String} (hname : x.name? = some name) {ch : Char}
    (h : ch ∈ name.toList) : ch ∈ x.text.toList := by
  unfold name? at hname
  split at hname
  all_goals cases hname
  all_goals simp [text, Qualifier.text, h]

theorem Compound.mem_text_of_name {c : Compound} {name : String} (hname : name ∈ c.names) {ch : Char}
    (h : ch ∈ name.toList) : ch ∈ c.text.toList := by
  rw [text, String.toList_append]
  rcases List.mem_append.mp hname with hname | hname
  · refine List.mem_append_left _ ?_
    obtain ⟨t, ht, hname⟩ := Option.bind_eq_some_iff.mp (Option.mem_toList.mp hname)
    rw [ht]
    cases t with
    | named w =>
      cases hname
      exact h
    | universal => cases hname
  · obtain ⟨x, hx, hname⟩ := List.mem_filterMap.mp hname
    exact List.mem_append_right _ (mem_partsText hx (Part.mem_text_of_name hname h))

/-- So does a selector with a name in it that has a character that the query does not know. -/
theorem Group.query_text_of_name {g : Group} {c : Compound} {name : String} {ch : Char} (hc : c ∈ g.compounds)
    (hname : name ∈ c.names) (hch : ch ∈ name.toList) (h : Document.Compound.isLegible ch = false) (d : Document) :
    d.query g.text = [] := by
  obtain ⟨s, hs, hc⟩ := List.mem_flatMap.mp hc
  have htext : ch ∈ s.text.toList := Selector.mem_text_of_compound hc (c.mem_text_of_name hname hch)
  exact Document.query_eq_nil (mem_text_of_selector hs htext) h d

end SlotGrid.Style.Grammar
