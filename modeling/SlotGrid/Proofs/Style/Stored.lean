import SlotGrid.Proofs.Document.Reading
import SlotGrid.Proofs.Style.Declared
import SlotGrid.Proofs.Style.Definition
import SlotGrid.Proofs.Style.Spaced

/-! # Values as they are stored

The value of a declaration is stored as a text that is put together again from its tokens. Where the tokens stay apart
in it, the text has the same tokens as the source, and a definition of a template is read from it again.
-/

namespace SlotGrid

namespace Text

variable {before cs behind : List Char}

theorem trim_append (hbefore : ∀ c ∈ before, isBlank c = true) (hbehind : ∀ c ∈ behind, isBlank c = true) :
    trim (before ++ (cs ++ behind)) = trim cs := by
  unfold trim
  rw [List.dropWhile_append_of_pos hbefore, List.dropWhile_append]
  split_ifs with hcs
  · have hdrop : behind.dropWhile isBlank = [] := List.dropWhile_eq_nil_iff.mpr hbehind
    rw [List.isEmpty_iff] at hcs
    rw [hdrop, hcs]
  · rw [List.reverse_append, List.dropWhile_append_of_pos (by simpa using hbehind)]

theorem trim_eq_self (hfront : ∀ c ∈ cs.head?, isBlank c = false) (hback : ∀ c ∈ cs.getLast?, isBlank c = false) :
    trim cs = cs := by
  have hdrop : ∀ {ds : List Char}, (∀ c ∈ ds.head?, isBlank c = false) → ds.dropWhile isBlank = ds := by
    intro ds h
    cases ds <;> simp_all
  unfold trim
  rw [hdrop hfront, hdrop (by simpa using hback), List.reverse_reverse]

end Text

namespace Style

/-- A value keeps its tokens in its text: they stay apart, and nothing of them is cut off with the spaces. -/
structure Sturdy (ts : List Token) : Prop where
  parted : Parted ts
  front : ∀ c ∈ (spelling ts).head?, Text.isBlank c = false
  back : ∀ c ∈ (spelling ts).getLast?, Text.isBlank c = false

/-- A declaration as it is written: a name, a colon and a value, with spaces and comments around them. -/
structure DeclarationSource (property : String) where
  name : Token
  beforeColon : List Token
  colon : Token
  behindColon : List Token
  value : List Token
  behindValue : List Token
  named : name.name?.map String.toLower = some property
  colon_kind : colon.kind = .punct .colon
  blank : ∀ t ∈ beforeColon ++ (behindColon ++ behindValue), t.kind.counts = false
  undivided : ∀ t ∈ value, t.kind.endsDeclaration = false
  edges : ∀ t, t ∈ value.head? ∨ t ∈ value.getLast? → t.kind.counts = true

namespace DeclarationSource

variable {property : String}

def tokens (s : DeclarationSource property) : List Token :=
  s.name :: (s.beforeColon ++ s.colon :: (s.behindColon ++ (s.value ++ s.behindValue)))

/-- The declaration stands in a text and ends there. -/
def In (s : DeclarationSource property) (text : String) : Prop :=
  ∃ front back, (Cursor.start text).items = front ++ (s.tokens.map Item.token ++ back) ∧
    (Stream.kind back).endsDeclaration = true

/-- The text of the value. -/
def text (s : DeclarationSource property) : String := .ofList (Text.trim (spelling s.value))

end DeclarationSource

/-! ## Tokens without comments -/

section Tokens

variable {ts : List Token}

theorem exists_eq_map_token {is : List Item} (h : Stream.Whole is) : ∃ ts : List Token, is = ts.map .token := by
  have hmem : is ∈ Set.range (List.map Item.token) := by
    rw [Set.range_list_map]
    intro i hi
    obtain ⟨t, rfl⟩ := h i hi
    exact ⟨t, rfl⟩
  obtain ⟨ts, rfl⟩ := hmem
  exact ⟨ts, rfl⟩

theorem isBlank_of_mem_spelling (h : ∀ t ∈ ts, t.kind.counts = false) : ∀ c ∈ spelling ts, Text.isBlank c = true := by
  intro c hc
  obtain ⟨t, ht, hc⟩ := List.mem_flatMap.mp hc
  rcases TokenKind.counts_eq_false.mp (h t ht) with hspace | hcomment
  · rw [Token.spelling_of_space hspace] at hc
    obtain rfl := List.mem_singleton.mp hc
    exact Text.isBlank_space
  · rw [Token.spelling_of_comment hcomment] at hc
    cases hc

theorem Item.valueText_token {t : Token} (hcomment : t.kind ≠ .comment) : (Item.token t).valueText = t.spelling := by
  unfold Item.valueText
  by_cases hspace : t.kind = .space
  · rw [Token.spelling_of_space hspace, if_pos (by exact hspace)]
  · have hcounts : t.kind.counts := TokenKind.counts_eq_true.mpr ⟨hspace, hcomment⟩
    rw [Token.spelling_of_counts hcounts, if_neg (by exact hspace)]
    rfl

theorem flatMap_valueText_uncommented (ts : List Token) :
    ((ts.map Item.token).filter (!·.isComment)).flatMap Item.valueText = spelling ts := by
  induction ts with
  | nil => rfl
  | cons t ts ih =>
    rw [List.map_cons, spelling_cons, ← ih, List.filter_cons]
    by_cases hcomment : t.kind = .comment
    · simp [Item.isComment, hcomment, Token.spelling_of_comment hcomment]
    · simp [Item.isComment, hcomment, Item.valueText_token hcomment]

theorem kindsOf_append (ts us : List Token) : kindsOf (ts ++ us) = kindsOf ts ++ kindsOf us := by
  simp [kindsOf]

theorem kindsOf_eq_nil (h : ∀ t ∈ ts, t.kind.counts = false) : kindsOf ts = [] := by
  simpa [kindsOf] using h

theorem spelling_append (ts us : List Token) : spelling (ts ++ us) = spelling ts ++ spelling us := by
  simp [spelling]

/-- Up to the end of the declaration the kinds of the items are those of the tokens. -/
theorem valueKinds_uncommented (h : ∀ t ∈ ts, t.kind.endsDeclaration = false) :
    Stream.valueKinds ((ts.map Item.token).filter (!·.isComment)) = kindsOf ts := by
  induction ts with
  | nil => rfl
  | cons t ts ih =>
    obtain ⟨ht, hts⟩ := List.forall_mem_cons.mp h
    rw [List.map_cons, kindsOf_cons, ← ih hts, List.filter_cons]
    by_cases hcomment : t.kind = .comment
    · simp [Item.isComment, hcomment, TokenKind.counts]
    · by_cases hspace : t.kind = .space
      · simp [Item.isComment, hspace, TokenKind.counts, Stream.valueKinds_cons_of_space (i := .token t) hspace]
      · have hcounts : t.kind.counts := TokenKind.counts_eq_true.mpr ⟨hspace, hcomment⟩
        simp [Item.isComment, hcomment, hcounts, Stream.valueKinds_cons (i := .token t) ht hspace, Item.kind]

/-- Spaces and comments at the ends of a stretch are cut off. -/
theorem exists_edges (us : List Token) : ∃ before ts behind, us = before ++ (ts ++ behind) ∧
    (∀ t ∈ before, t.kind.counts = false) ∧ (∀ t ∈ behind, t.kind.counts = false) ∧
    ∀ t, t ∈ ts.head? ∨ t ∈ ts.getLast? → t.kind.counts = true := by
  induction us using List.reverseRecOn with
  | nil => exact ⟨[], [], [], rfl, nofun, nofun, by simp⟩
  | append_singleton us u ih =>
    by_cases hu : u.kind.counts
    · refine ⟨(us ++ [u]).takeWhile (!·.kind.counts), (us ++ [u]).dropWhile (!·.kind.counts), [],
        by rw [List.append_nil, List.takeWhile_append_dropWhile], ?_, nofun, ?_⟩
      · intro t ht
        simpa using List.mem_takeWhile_imp ht
      · rintro t (ht | ht)
        · have hhead := List.head?_dropWhile_not (fun t : Token => !t.kind.counts) (us ++ [u])
          rw [Option.mem_def.mp ht] at hhead
          simpa using hhead
        · obtain ⟨ds, hds⟩ : ∃ ds, (us ++ [u]).dropWhile (!·.kind.counts) = ds ++ [u] := by
            rw [List.dropWhile_append]
            split_ifs
            · exact ⟨[], by simp [hu]⟩
            · exact ⟨_, rfl⟩
          rw [hds, List.getLast?_concat] at ht
          exact Option.some.inj ht ▸ hu
    · obtain ⟨before, ts, behind, rfl, hbefore, hbehind, hedges⟩ := ih
      refine ⟨before, ts, behind ++ [u], by simp, hbefore, ?_, hedges⟩
      exact List.forall_mem_append.mpr ⟨hbehind, List.forall_mem_singleton.mpr (by simpa using hu)⟩

theorem tokens?_of_items {text : String} (h : (Cursor.start text).items = ts.map .token) : tokens? text = .ok ts := by
  unfold tokens?
  rw [h]
  clear h
  induction ts with
  | nil => rfl
  | cons t ts ih =>
    rw [List.map_cons, List.mapM_cons, ih]
    rfl

end Tokens

/-! ## What a declaration has passed -/

namespace Progress

variable {p q r : Progress}

/-- Tokens only have been passed, and the next item is one too. -/
structure PassedTokens (p q : Progress) : Prop where
  opensAddress : q.stream.opensAddress = false
  passed : ∃ is, Stream.Whole is ∧ is ++ q.stream = p.stream

theorem PassedTokens.refl (h : p.stream.opensAddress = false) : p.PassedTokens p := ⟨h, [], nofun, rfl⟩

theorem PassedTokens.trans (h : p.PassedTokens q) (h' : q.PassedTokens r) : p.PassedTokens r := by
  obtain ⟨is, his, hsplit⟩ := h.passed
  obtain ⟨js, hjs, hsplit'⟩ := h'.passed
  exact ⟨h'.opensAddress, is ++ js, List.forall_mem_append.mpr ⟨his, hjs⟩, by rw [List.append_assoc, hsplit', hsplit]⟩

end Progress

namespace Reader

open Progress

variable {α : Type} {p q : Progress}

/-- A plain reader that has not failed has passed tokens only. -/
theorem Plain.passedTokens {P : Option Item → Prop} {r : Reader α} (hr : Plain P r) {a : α} (hp : P p.stream.head?)
    (hopens : p.stream.opensAddress = false) (h : r p = .ok a q) : p.PassedTokens q := by
  induction hr generalizing p q with
  | pure a =>
    cases h
    exact .refl hopens
  | fail hfail =>
    obtain ⟨e, he⟩ := hfail p
    rw [he] at h
    cases h
  | look hf hr ih => exact ih _ ⟨hp, rfl⟩ hopens h
  | write text hr ih =>
    obtain ⟨hopens', hpassed⟩ := ih (p := { p with selector := p.selector ++ text }) hp hopens h
    exact ⟨hopens', hpassed⟩
  | advance hadvance =>
    obtain ⟨rfl, htail⟩ := advance_eq_ok.mp h
    refine ⟨htail, ?_⟩
    rcases hs : p.stream with _ | ⟨_ | _, s⟩
    · exact ⟨[], nofun, rfl⟩
    · exact ⟨[_], List.forall_mem_singleton.mpr ⟨_, rfl⟩, rfl⟩
    · rw [hs] at hopens
      cases hopens
  | bind hr hs ih ihs =>
    obtain ⟨b, p', hb, h⟩ := bind_eq_ok.mp h
    have hpassed := ih hp hopens hb
    exact hpassed.trans (ihs b trivial hpassed.opensAddress h)
  | collect hr ih =>
    refine @collect_of_ok _ _ _ _ (fun _ => p.PassedTokens) ?_ ?_ [] _ h (.refl hopens)
    · intro _ p' a q' hpassed h
      exact hpassed.trans (ih trivial hpassed.opensAddress h)
    · intro _ p' q' hpassed h
      exact hpassed.trans (ih trivial hpassed.opensAddress h)

theorem passedTokens_property {name : String} (h : property p = .ok name q) : p.PassedTokens q := by
  refine plain_property.passedTokens (P := fun _ => True) trivial ?_ h
  obtain ⟨i, before, colon, behind, hname, -, -, -, hs⟩ := property_eq_ok h
  rw [hs]
  cases i with
  | token t => rfl
  | openAddress => cases hname

theorem toLower_of_property {name : String} (h : property p = .ok name q) : name.toLower = name := by
  obtain ⟨i, before, colon, behind, hname, -⟩ := property_eq_ok h
  obtain ⟨raw, -, rfl⟩ := Option.map_eq_some_iff.mp hname
  apply String.toList_injective
  simp [String.toLower, Char.toLower_toLower_eq_toLower]

/-- A value that is read is made of tokens. -/
theorem whole_of_value {items : List Item} (hopens : p.stream.opensAddress = false) (h : value p = .ok items q) :
    Stream.Whole p.stream.declarationItems := by
  obtain ⟨_, p', hget, h⟩ := bind_eq_ok.mp h
  cases hget
  obtain ⟨_, q', hloop, h⟩ := bind_eq_ok.mp h
  cases h
  obtain ⟨-, is, his, hsplit⟩ := (plain_loop plain_valueItem).passedTokens (P := fun _ => True) trivial hopens hloop
  rw [← declarationItems_append_of_value hloop] at hsplit
  rwa [← List.append_cancel_right hsplit]

/-- A definition that is read is made of tokens. -/
theorem whole_of_templateDefinition {d : List Row × List Width} (hopens : p.stream.opensAddress = false)
    (hspace : p.stream.kind ≠ .space) (h : templateDefinition p = .ok d q) :
    Stream.Whole p.stream.declarationItems := by
  obtain ⟨rows, widths⟩ := d
  obtain ⟨hends, -⟩ := derives_of_templateDefinition hspace h
  obtain ⟨-, is, his, hsplit⟩ := plain_templateDefinition.passedTokens (P := fun _ => True) trivial hopens h
  obtain ⟨js, hjs, hsplit'⟩ := (plain_templateDefinition.of_ok (R := Wrote) h).passed
  obtain rfl := List.append_cancel_right (hsplit.trans hsplit'.symm)
  refine fun i hi => his i ?_
  rw [← hsplit] at hi
  unfold Stream.declarationItems at hi
  rw [List.takeWhile_append] at hi
  split_ifs at hi
  · rcases List.mem_append.mp hi with hi | hi
    · exact hi
    · cases hs : q.stream with
      | nil =>
        rw [hs] at hi
        cases hi
      | cons j s =>
        rw [hs] at hi hends
        rw [List.takeWhile_cons_of_neg (by simpa using hends)] at hi
        cases hi
  · exact (List.takeWhile_prefix _).subset hi

end Reader

/-! ## The source of a declaration -/

section Sources

variable {l : List Item}

theorem whole_of_uncommented (h : Stream.Whole (l.filter (!·.isComment))) : Stream.Whole l := by
  intro i hi
  cases i with
  | token t => exact ⟨t, rfl⟩
  | openAddress cs n => exact h _ (List.mem_filter.mpr ⟨hi, rfl⟩)

theorem kind_of_isComment {i : Item} (h : i.isComment = true) : i.kind = .comment := by
  cases i with
  | token t => exact of_decide_eq_true h
  | openAddress => cases h

theorem counts_of_uncommented (h : Spaces (l.filter (!·.isComment))) : ∀ i ∈ l, i.kind.counts = false := by
  intro i hi
  rw [TokenKind.counts_eq_false]
  by_cases hcomment : i.isComment
  · exact .inr (kind_of_isComment hcomment)
  · exact .inl (h i (List.mem_filter.mpr ⟨hi, by simpa using hcomment⟩))

theorem kind_dropWhile_comment (l : List Item) :
    Stream.kind (l.dropWhile Item.isComment) = Stream.kind (l.filter (!·.isComment)) := by
  induction l with
  | nil => rfl
  | cons i l ih =>
    by_cases hi : i.isComment
    · rw [List.dropWhile_cons_of_pos hi, List.filter_cons_of_neg (by simpa using hi), ih]
    · rw [List.dropWhile_cons_of_neg hi, List.filter_cons_of_pos (by simpa using hi)]
      rfl

theorem Stream.ends_skipDeclaration (s : Stream) : s.skipDeclaration.kind.endsDeclaration = true := by
  have hhead := List.head?_dropWhile_not (fun i : Item => !i.kind.endsDeclaration) s
  unfold skipDeclaration
  cases hs : s.dropWhile (!·.kind.endsDeclaration) with
  | nil => rfl
  | cons i t =>
    rw [hs] at hhead
    simpa using hhead

theorem Stream.valueKinds_declarationItems (s : Stream) : valueKinds s.declarationItems = s.valueKinds := by
  unfold valueKinds declarationItems
  rw [List.takeWhile_idem]

/-- The tokens that items are made of. -/
theorem exists_blank_tokens (h : Stream.Whole l) (hcounts : ∀ i ∈ l, i.kind.counts = false) :
    ∃ ts : List Token, l = ts.map .token ∧ ∀ t ∈ ts, t.kind.counts = false := by
  obtain ⟨ts, rfl⟩ := exists_eq_map_token h
  exact ⟨ts, rfl, fun t ht => hcounts _ (List.mem_map_of_mem ht)⟩

/-- What stands before a value, its tokens, and where they end. -/
theorem exists_source_of_value {v : List Item} (hwhole : Stream.Whole v)
    (hends : ∀ i ∈ v, i.kind.endsDeclaration = false) :
    ∃ before ts behind : List Token, v = (before ++ (ts ++ behind)).map .token ∧
      (∀ t ∈ before ++ behind, t.kind.counts = false) ∧ (∀ t ∈ ts, t.kind.endsDeclaration = false) ∧
      (∀ t, t ∈ ts.head? ∨ t ∈ ts.getLast? → t.kind.counts = true) ∧
      valueText (v.filter (!·.isComment)) = .ofList (Text.trim (spelling ts)) ∧
      Stream.valueKinds (v.filter (!·.isComment)) = kindsOf ts := by
  obtain ⟨us, rfl⟩ := exists_eq_map_token hwhole
  obtain ⟨before, ts, behind, rfl, hbefore, hbehind, hedges⟩ := exists_edges us
  have hends' : ∀ t ∈ before ++ (ts ++ behind), t.kind.endsDeclaration = false :=
    fun t ht => hends _ (List.mem_map_of_mem ht)
  refine ⟨before, ts, behind, rfl, List.forall_mem_append.mpr ⟨hbefore, hbehind⟩, ?_, hedges, ?_, ?_⟩
  · intro t ht
    exact hends' t (by simp [ht])
  · unfold valueText
    rw [flatMap_valueText_uncommented, spelling_append, spelling_append,
      Text.trim_append (isBlank_of_mem_spelling hbefore) (isBlank_of_mem_spelling hbehind)]
  · rw [valueKinds_uncommented hends', kindsOf_append, kindsOf_append, kindsOf_eq_nil hbefore, kindsOf_eq_nil hbehind,
      List.nil_append, List.append_nil]

theorem exists_cons_of_uncommented {pre s : List Item} {i : Item}
    (h : l.filter (!·.isComment) = pre ++ i :: s) :
    ∃ front l', l = front ++ i :: l' ∧ front.filter (!·.isComment) = pre ∧ l'.filter (!·.isComment) = s := by
  obtain ⟨l₁, l₂, rfl, h₁, h₂⟩ := List.filter_eq_append_iff.mp h
  obtain ⟨c, l₃, rfl, hc, -, h₃⟩ := List.filter_eq_cons_iff.mp h₂
  refine ⟨l₁ ++ c, l₃, (List.append_assoc _ _ _).symm, ?_, h₃⟩
  rw [List.filter_append, h₁, List.filter_eq_nil_iff.mpr hc, List.append_nil]

theorem exists_blank_tokens_of_uncommented (hwhole : Stream.Whole (l.filter (!·.isComment)))
    (hspaces : Spaces (l.filter (!·.isComment))) :
    ∃ ts : List Token, l = ts.map .token ∧ ∀ t ∈ ts, t.kind.counts = false :=
  exists_blank_tokens (whole_of_uncommented hwhole) (counts_of_uncommented hspaces)

/-- The comments in front of what goes on. -/
theorem exists_comments (l : List Item) : ∃ (ts : List Token) (back : List Item), l = ts.map .token ++ back ∧
    (∀ t ∈ ts, t.kind.counts = false) ∧ Stream.kind back = Stream.kind (l.filter (!·.isComment)) := by
  have hcomments : ∀ i ∈ l.takeWhile Item.isComment, i.isComment = true := fun i => List.mem_takeWhile_imp
  have hnone : (l.takeWhile Item.isComment).filter (!·.isComment) = [] :=
    List.filter_eq_nil_iff.mpr fun i hi => by simp [hcomments i hi]
  obtain ⟨ts, hts, hblank⟩ := exists_blank_tokens_of_uncommented (l := l.takeWhile Item.isComment)
    (by rw [hnone]; nofun) (by rw [hnone]; nofun)
  refine ⟨ts, l.dropWhile Item.isComment, ?_, hblank, kind_dropWhile_comment l⟩
  rw [← hts, List.takeWhile_append_dropWhile]

end Sources

namespace Reader

/-- The property that is read stands in the text with its comments, in front of what is read next. -/
theorem exists_items_of_property {text name : String} {p q : Progress} (hp : p.stream <:+ Stream.ofText text)
    (hproperty : property p = .ok name q) :
    ∃ (front rest : List Item) (i colon : Token) (before behind : List Token),
      (Cursor.start text).items =
          front ++ .token i :: (before.map .token ++ .token colon :: (behind.map .token ++ rest)) ∧
        (Item.token i).name?.map String.toLower = some name ∧ (Item.token colon).kind = .punct .colon ∧
        (∀ t ∈ before, t.kind.counts = false) ∧ (∀ t ∈ behind, t.kind.counts = false) ∧
        rest.filter (!·.isComment) = q.stream := by
  obtain ⟨i, before, colon, behind, hname, hbefore, hcolon, hbehind, hs⟩ := property_eq_ok hproperty
  obtain ⟨-, is, his, hsplit⟩ := passedTokens_property hproperty
  obtain rfl : is = i :: (before ++ colon :: behind) := by
    refine List.append_cancel_right (hsplit.trans ?_)
    rw [hs]
    simp
  simp only [List.forall_mem_cons, List.forall_mem_append, Stream.Whole] at his
  obtain ⟨⟨i, rfl⟩, hbefore', ⟨colon, rfl⟩, hbehind'⟩ := his
  obtain ⟨pre, hpre⟩ : p.stream <:+ (Cursor.start text).items.filter (!·.isComment) := by
    refine (List.suffix_cons_iff.mp hp).resolve_left fun hstart => ?_
    rw [hs] at hstart
    cases (List.cons.inj hstart).1
    cases hname
  rw [hs] at hpre
  obtain ⟨front, l₁, hitems, -, h₁⟩ := exists_cons_of_uncommented hpre.symm
  obtain ⟨b₁, l₂, rfl, hb₁, h₂⟩ := exists_cons_of_uncommented h₁
  obtain ⟨b₂, rest, rfl, hb₂, hrest⟩ := List.filter_eq_append_iff.mp h₂
  subst hb₁ hb₂
  obtain ⟨beforeColon, rfl, hblank₁⟩ := exists_blank_tokens_of_uncommented hbefore' hbefore
  obtain ⟨behindColon, rfl, hblank₂⟩ := exists_blank_tokens_of_uncommented hbehind' hbehind
  exact ⟨front, rest, i, colon, beforeColon, behindColon, hitems, hname, hcolon, hblank₁, hblank₂, hrest⟩

/-- The declaration that is read stands in the text. -/
theorem exists_source {text name : String} {p q : Progress} (hp : p.stream <:+ Stream.ofText text)
    (hproperty : property p = .ok name q) (hwhole : Stream.Whole q.stream.declarationItems) :
    ∃ s : DeclarationSource name, s.In text ∧ valueText q.stream.declarationItems = s.text ∧
      q.stream.valueKinds = kindsOf s.value := by
  obtain ⟨front, rest, i, colon, beforeColon, behindColon, hitems, hname, hcolon, hblank₁, hblank₂, hrest⟩ :=
    exists_items_of_property hp hproperty
  have hvalue : q.stream = q.stream.declarationItems ++ q.stream.skipDeclaration :=
    List.takeWhile_append_dropWhile.symm
  rw [hvalue] at hrest
  obtain ⟨v, l, rfl, hv, hl⟩ := List.filter_eq_append_iff.mp hrest
  have hends : ∀ i ∈ v, i.kind.endsDeclaration = false := by
    intro i hi
    by_cases hcomment : i.isComment
    · rw [kind_of_isComment hcomment]
      rfl
    · have hmem : i ∈ q.stream.declarationItems := hv ▸ List.mem_filter.mpr ⟨hi, by simpa using hcomment⟩
      simpa using List.mem_takeWhile_imp hmem
  obtain ⟨x, ts, y, rfl, hblank₃, hgoesOn, hedges, htext, hkinds⟩ :=
    exists_source_of_value (whole_of_uncommented (hv ▸ hwhole)) hends
  obtain ⟨z, back, rfl, hblank₄, hback⟩ := exists_comments l
  rw [hv] at htext hkinds
  rw [Stream.valueKinds_declarationItems] at hkinds
  refine ⟨⟨i, beforeColon, colon, behindColon ++ x, ts, y ++ z, hname, hcolon, ?_, hgoesOn, hedges⟩, ?_, htext, hkinds⟩
  · simp only [List.forall_mem_append] at hblank₃ ⊢
    exact ⟨hblank₁, ⟨hblank₂, hblank₃.1⟩, hblank₃.2, hblank₄⟩
  · refine ⟨front, back, ?_, ?_⟩
    · rw [hitems]
      simp [DeclarationSource.tokens]
    · rw [hback, hl]
      exact q.stream.ends_skipDeclaration

theorem kind_ne_space_of_property {name : String} (h : property p = .ok name q) : q.stream.kind ≠ .space := by
  unfold property at h
  obtain ⟨_, p₁, -, h⟩ := bind_eq_ok.mp h
  obtain ⟨_, p₂, -, h⟩ := bind_eq_ok.mp h
  obtain ⟨_, p₃, -, h⟩ := bind_eq_ok.mp h
  obtain ⟨_, p₄, hskip, h⟩ := bind_eq_ok.mp h
  cases h
  exact (kinds_of_skipSpace hskip).2

end Reader

/-! ## The declarations that are kept -/

/-- The value of a declaration is the text of its source, and the template that carries its number is the one that the
source defines: templates `ts` are numbered from `registered` on. -/
def Declaration.Stored (text : String) (registered : ℕ) (ts : List Template) (d : Declaration) : Prop :=
  ∃ s : DeclarationSource d.property, s.In text ∧ d.value = s.text ∧
    ∀ i, d.template = some i → ∃ k t rows widths, i = registered + k ∧ ts[k]? = some t ∧ t.css = d.value ∧
      Template.ofRows t.selector t.css rows widths = .ok t ∧ DerivesDefinition rows widths (kindsOf s.value)

theorem Declaration.Stored.mono {text : String} {registered : ℕ} {ts ts' : List Template} {d : Declaration}
    (h : d.Stored text registered ts) (hts : ts <+: ts') : d.Stored text registered ts' := by
  obtain ⟨s, hs, hvalue, htemplate⟩ := h
  refine ⟨s, hs, hvalue, fun i hi => ?_⟩
  obtain ⟨k, t, rows, widths, hk, ht, hbuilt⟩ := htemplate i hi
  obtain ⟨us, rfl⟩ := hts
  refine ⟨k, t, rows, widths, hk, ?_, hbuilt⟩
  rw [List.getElem?_append_left (List.getElem?_eq_some_iff.mp ht).1]
  exact ht

namespace Progress

open Reader

variable {text : String} {registered : ℕ} {p q : Progress}

/-- All declarations of the rule that is being read are stored as their sources say. -/
structure StoresIn (text : String) (registered : ℕ) (p : Progress) : Prop where
  stream : p.stream <:+ Stream.ofText text
  stored : ∀ d ∈ p.declarations.toList, d.Stored text registered p.templates

theorem StoresIn.of_moved (h : p.StoresIn text registered) (hmoved : p.Moved q) (hs : q.stream <:+ p.stream) :
    q.StoresIn text registered := by
  refine ⟨hs.trans h.stream, ?_⟩
  unfold Moved at hmoved
  rw [hmoved]
  exact h.stored

theorem StoresIn.declare (h : p.StoresIn text registered) {d : Declaration}
    (hd : d.Stored text registered p.templates) : (p.declare d).StoresIn text registered where
  stream := h.stream
  stored d' hd' := by
    rcases Keyed.eq_or_mem_of_mem_put Declaration.property hd' with rfl | hd'
    · exact hd
    · exact h.stored d' hd'

theorem StoresIn.register (h : p.StoresIn text registered) (t : Template) :
    StoresIn text registered { p with templates := p.templates ++ [t] } where
  stream := h.stream
  stored d hd := (h.stored d hd).mono (List.prefix_append _ _)

theorem StoresIn.place (h : p.StoresIn text registered) (items : List Item) :
    (p.place items).StoresIn text registered := by
  unfold Progress.place
  split
  · split
    · exact ⟨h.stream, h.stored⟩
    · exact h
  · exact h

def KeepsStored (text : String) (registered : ℕ) (p q : Progress) : Prop :=
  p.StoresIn text registered → q.StoresIn text registered

instance : IsPreorder Progress (KeepsStored text registered) where
  refl _ := id
  trans _ _ _ h h' := h' ∘ h

instance : BlockFrame registered (KeepsStored text registered) where
  of_advanced h hp := hp.of_moved h.moved h.suffix
  of_report _ _ hp := ⟨hp.stream, hp.stored⟩
  of_declare := by
    intro p p' q q' name items hproperty hvalue hq' hp
    have hopens := (passedTokens_property hproperty).opensAddress
    have hlower := toLower_of_property hproperty
    obtain ⟨s, hs, htext, -⟩ := exists_source hp.stream hproperty (whole_of_value hopens hvalue)
    have hmoved := trans_of Advanced (advanced_property.of_ok hproperty) (advanced_value.of_ok hvalue)
    have hq := hp.of_moved hmoved.moved hmoved.suffix
    have hq' : q'.StoresIn text registered := by
      rcases hq' with rfl | rfl
      · exact hq
      · exact hq.place items
    refine hq'.declare ?_
    rw [(value_eq_ok_items hvalue).1, htext]
    unfold Declaration.of
    rw [hlower]
    exact ⟨s, hs, rfl, nofun⟩
  of_define := by
    intro p p' q rows widths t hproperty hdefinition ht hp
    have hopens := (passedTokens_property hproperty).opensAddress
    have hspace := kind_ne_space_of_property hproperty
    obtain ⟨s, hs, htext, hkinds⟩ :=
      exists_source hp.stream hproperty (whole_of_templateDefinition hopens hspace hdefinition)
    have hderives := (derives_of_templateDefinition hspace hdefinition).2
    have hmoved := trans_of Advanced (advanced_property.of_ok hproperty) (advanced_templateDefinition.of_ok hdefinition)
    have htemplates : q.templates = p'.templates :=
      (advanced_templateDefinition.of_ok hdefinition).moved.unregistered.templates
    have hq := (hp.of_moved hmoved.moved hmoved.suffix).register t
    obtain ⟨-, slots, rfl, -⟩ := Template.ofRows_eq_ok.mp ht
    refine hq.declare ?_
    rw [htext] at ht ⊢
    unfold Declaration.of
    rw [toLower_of_property hproperty]
    refine ⟨s, hs, rfl, ?_⟩
    rintro i ⟨⟩
    refine ⟨p'.templates.length, .filled q.selector s.text rows widths slots, rows, widths, rfl, ?_, rfl, ht, ?_⟩
    · simp [htemplates]
    · exact hkinds ▸ hderives

end Progress

/-- The rules that are kept are read from the text, and the templates that they register are there in the end. -/
theorem exists_read_of_mem_rules {registered : ℕ} {text : String} {r : Rule}
    (hr : r ∈ (parse registered text).sheet.rules) :
    ∃ p q : Progress, p.stream <:+ Stream.ofText text ∧ Reader.rule? registered p.fresh = .ok (some r) q ∧
      q.templates <+: (parse registered text).templates := by
  rw [rules_parse] at hr
  obtain ⟨p, hp, hkept⟩ := List.mem_filterMap.mp hr
  obtain ⟨q, hq⟩ := Progress.kept?_eq_some.mp hkept
  have hfurther : Progress.Further (.start (.ofText text)) p := Progress.keeps_starts hp
  refine ⟨p, q, hfurther, hq, ?_⟩
  have hprefix := Progress.templates_step_prefix hp
  rwa [Progress.step_of_rule hq] at hprefix

theorem stored_of_parse {registered : ℕ} {text : String} {r : Rule} {d : Declaration}
    (hr : r ∈ (parse registered text).sheet.rules) (hd : d ∈ r.declarations.toList) :
    d.Stored text registered (parse registered text).templates := by
  obtain ⟨p, q, hp, hrule, htemplates⟩ := exists_read_of_mem_rules hr
  obtain ⟨p', hopened, rfl, hframe⟩ := Reader.exists_block_of_rule? hrule
  have hstart : p'.StoresIn text registered := by
    refine ⟨hopened.suffix.trans hp, ?_⟩
    rw [hopened.declarations]
    nofun
  have hend : q.StoresIn text registered := (hframe : Progress.KeepsStored text registered p' q) hstart
  exact (hend.stored d hd).mono htemplates

/-! ## Values that are read again -/

/-- The definition that a text gives as a value of `display`. -/
def definition? (css : String) : Except SyntaxError (List Row × List Width) :=
  match (do discard Reader.skipSpace; Reader.templateDefinition : Reader _) (.start (.ofText css)) with
  | .ok d _ => .ok d
  | .error e _ => .error e

theorem exists_items_eq {front is : List Item} {n : ℕ} {cs : List Char} (h : Cursor.items ⟨n, cs⟩ = front ++ is) :
    ∃ m ds, Cursor.items ⟨m, ds⟩ = is := by
  induction front generalizing n cs with
  | nil => exact ⟨n, cs, h⟩
  | cons i front ih =>
    cases cs with
    | nil =>
      rw [Cursor.items_nil] at h
      cases h
    | cons c cs =>
      rw [Cursor.items_cons] at h
      exact ih (List.cons.inj h).2

/-- A sturdy value has the same tokens in its text as in the source. -/
theorem DeclarationSource.exists_tokens {property : String} {s : DeclarationSource property} {text : String}
    (hs : s.In text) (hsturdy : Sturdy s.value) :
    ∃ us : List Token, (Cursor.start s.text).items = us.map .token ∧ kindsOf us = kindsOf s.value := by
  obtain ⟨front, back, hitems, -⟩ := hs
  obtain ⟨n, cs, hcs⟩ : ∃ n cs, Cursor.items ⟨n, cs⟩ = s.value.map .token ++ (s.behindValue.map .token ++ back) := by
    refine @exists_items_eq (front ++ (s.name :: (s.beforeColon ++ s.colon :: s.behindColon)).map .token) _ 0
      text.toList (hitems.trans ?_)
    simp [DeclarationSource.tokens]
  unfold DeclarationSource.text Cursor.start
  rw [Text.trim_eq_self hsturdy.front hsturdy.back, String.toList_ofList]
  exact readsAs_spelling hcs hsturdy.parted

theorem definition?_eq_ok {css : String} {us : List Token} {rows : List Row} {widths : List Width}
    (hitems : (Cursor.start css).items = us.map .token) (hends : ∀ t ∈ us, t.kind.endsDeclaration = false)
    (h : DerivesDefinition rows widths (kindsOf us)) : definition? css = .ok (rows, widths) := by
  have hbefore : Reader.Before (kindsOf us) (.start (.ofText css)) := by
    have hstream : Stream.ofText css = .token ⟨.space, [], 0⟩ :: (us.map Item.token).filter (!·.isComment) := by
      rw [← hitems]
      rfl
    constructor
    · intro i hi
      change i ∈ Stream.ofText css at hi
      rw [hstream] at hi
      rcases List.mem_cons.mp hi with rfl | hi
      · exact ⟨_, rfl⟩
      · obtain ⟨t, -, rfl⟩ := List.mem_map.mp (List.mem_filter.mp hi).1
        exact ⟨t, rfl⟩
    · change Stream.valueKinds (Stream.ofText css) = _
      rw [hstream, Stream.valueKinds_cons_of_space rfl, valueKinds_uncommented hends]
  have hread : Reader.Yields (do discard Reader.skipSpace; Reader.templateDefinition) (.start (.ofText css))
      (rows, widths) (Reader.At []) :=
    (Reader.yields_skipSpace hbefore).bind fun hat => Reader.yields_templateDefinition hat h
  obtain ⟨q, hq, -⟩ := hread
  unfold definition?
  rw [hq]

theorem endsDeclaration_of_counts {ts : List Token} (h : ∀ k ∈ kindsOf ts, k.endsDeclaration = false) :
    ∀ t ∈ ts, t.kind.endsDeclaration = false := by
  intro t ht
  by_cases hcounts : t.kind.counts
  · exact h t.kind (List.mem_filter.mpr ⟨List.mem_map_of_mem ht, hcounts⟩)
  · rcases TokenKind.counts_eq_false.mp (by simpa using hcounts) with hk | hk
    all_goals
      rw [hk]
      rfl

theorem endsDeclaration_of_kindsOf {ts us : List Token} (h : kindsOf us = kindsOf ts)
    (hts : ∀ t ∈ ts, t.kind.endsDeclaration = false) : ∀ t ∈ us, t.kind.endsDeclaration = false := by
  refine endsDeclaration_of_counts fun k hk => ?_
  obtain ⟨u, hu, rfl⟩ := List.mem_map.mp (List.mem_filter.mp (h ▸ hk)).1
  exact hts u hu

/-- Every declaration that is kept stands in the text, and its value is the text of its source. Unless the value loses
its shape, its tokens are those of the source, and a definition of a template is read from it again. -/
theorem stored_value_reads_as_source {registered : ℕ} {text : String} {r : Rule} {d : Declaration}
    (hr : r ∈ (parse registered text).sheet.rules) (hd : d ∈ r.declarations.toList) :
    ∃ s : DeclarationSource d.property, s.In text ∧ d.value = s.text ∧ (Sturdy s.value →
      (∃ us, tokens? d.value = .ok us ∧ kindsOf us = kindsOf s.value) ∧
        ∀ i, d.template = some i → ∃ k t rows widths, i = registered + k ∧
          (parse registered text).templates[k]? = some t ∧ t.css = d.value ∧
            Template.ofRows t.selector t.css rows widths = .ok t ∧ definition? t.css = .ok (rows, widths)) := by
  obtain ⟨s, hs, hvalue, htemplate⟩ := stored_of_parse hr hd
  refine ⟨s, hs, hvalue, fun hsturdy => ?_⟩
  obtain ⟨us, hitems, hkinds⟩ := s.exists_tokens hs hsturdy
  rw [← hvalue] at hitems
  refine ⟨⟨us, tokens?_of_items hitems, hkinds⟩, fun i hi => ?_⟩
  obtain ⟨k, t, rows, widths, hk, ht, hcss, hbuilt, hderives⟩ := htemplate i hi
  refine ⟨k, t, rows, widths, hk, ht, hcss, hbuilt, ?_⟩
  rw [← hcss] at hitems
  exact definition?_eq_ok hitems (endsDeclaration_of_kindsOf hkinds s.undivided) (hkinds ▸ hderives)

/-- A token that spaces do not change, and that is no comment. -/
structure Token.Tidy (t : Token) : Prop where
  comment : t.kind ≠ .comment
  quote : ¬ OpenQuote t.lexeme
  stroke : t.lexeme.getLast? ≠ some '\\'
  front : t.kind.counts → ∃ c, t.lexeme.head? = some c ∧ Text.isBlank c = false
  back : t.kind.counts → ∃ c, t.lexeme.getLast? = some c ∧ Text.isBlank c = false

theorem parted_of_tidy {ts : List Token} (h : ∀ t ∈ ts, t.Tidy) : Parted ts := by
  induction ts with
  | nil => trivial
  | cons t ts ih =>
    obtain ⟨ht, hts⟩ := List.forall_mem_cons.mp h
    refine ⟨fun _ => ?_, ih hts⟩
    cases ts with
    | nil => trivial
    | cons u ts =>
      simp only [Token.PartsFrom]
      split
      · exact ⟨ht.quote, fun hstroke => absurd hstroke ht.stroke⟩
      · rename_i hcomment
        exact absurd hcomment (hts u List.mem_cons_self).comment
      · trivial

/-- A value of tidy tokens keeps them in its text. -/
theorem DeclarationSource.sturdy_of_tidy {property : String} (s : DeclarationSource property)
    (h : ∀ t ∈ s.value, t.Tidy) : Sturdy s.value := by
  refine ⟨parted_of_tidy h, ?_, ?_⟩
  · have hedge := fun t ht => s.edges t (.inl ht)
    cases hvalue : s.value with
    | nil => nofun
    | cons t ts =>
      rw [hvalue] at h hedge
      have hcounts := hedge t rfl
      obtain ⟨c, hc, hblank⟩ := (h t List.mem_cons_self).front hcounts
      rw [spelling_cons, Token.spelling_of_counts hcounts, List.head?_append, hc]
      simpa using hblank
  · have hedge := fun t ht => s.edges t (.inr ht)
    rcases s.value.eq_nil_or_concat' with hvalue | ⟨ts, t, hvalue⟩
    · rw [hvalue]
      nofun
    · rw [hvalue] at h hedge ⊢
      have hcounts := hedge t List.getLast?_concat
      obtain ⟨c, hc, hblank⟩ := (h t (by simp)).back hcounts
      have hlast : spelling [t] = t.lexeme := by
        rw [spelling_cons, Token.spelling_of_counts hcounts]
        exact List.append_nil _
      rw [spelling_append, hlast, List.getLast?_append, hc]
      simpa using hblank

/-- A token that is shown at both ends, and quotes nothing. -/
theorem Token.tidy_of_printable {t : Token} {c d : Char} (hcomment : t.kind ≠ .comment)
    (hfront : t.lexeme.head? = some c) (hback : t.lexeme.getLast? = some d)
    (hc : 0x21 ≤ c.toNat ∧ c.toNat ≤ 0x7e) (hd : 0x21 ≤ d.toNat ∧ d.toNat ≤ 0x7e)
    (hstroke : d ≠ '\\') (hquote : ¬ OpenQuote t.lexeme) : t.Tidy where
  comment := hcomment
  quote := hquote
  stroke := by
    rw [hback]
    simpa using hstroke
  front _ := ⟨c, hfront, Text.not_blank_of_printable hc⟩
  back _ := ⟨d, hback, Text.not_blank_of_printable hd⟩

theorem stored_value_reads_as_source_template :
    ∃ s : DeclarationSource "display", s.In "a\x7bdisplay:\"xy\" *\x7d" ∧ Sturdy s.value ∧
      kindsOf s.value = [.string "xy", .punct .asterisk] ∧
        ∃ t rows widths, (parse 0 "a\x7bdisplay:\"xy\" *\x7d").templates[0]? = some t ∧ t.css = "\"xy\" *" ∧
          Template.ofRows t.selector t.css rows widths = .ok t ∧ definition? t.css = .ok (rows, widths) := by
  have hrules : (parse 0 "a\x7bdisplay:\"xy\" *\x7d").sheet.rules =
      [⟨"a", ⟨[⟨"display", "\"xy\" *", some 0⟩]⟩⟩] := by decide +kernel
  have hitems : (Cursor.start "a\x7bdisplay:\"xy\" *\x7d").items = List.map Item.token [
      ⟨.ident "a", ['a'], 0⟩, ⟨.punct .leftBrace, ['\x7b'], 1⟩, ⟨.ident "display", "display".toList, 2⟩,
      ⟨.punct .colon, [':'], 9⟩, ⟨.string "xy", ['"', 'x', 'y', '"'], 10⟩, ⟨.space, [' '], 14⟩,
      ⟨.punct .asterisk, ['*'], 15⟩, ⟨.punct .rightBrace, ['\x7d'], 16⟩] := by decide +kernel
  have htokens : tokens? "\"xy\" *" = .ok [⟨.string "xy", ['"', 'x', 'y', '"'], 0⟩, ⟨.space, [' '], 4⟩,
      ⟨.punct .asterisk, ['*'], 5⟩] := by decide +kernel
  have hquoted : ((quotedReader '"').run ['x', 'y', '"']).2 = ['"'] := by decide +kernel
  obtain ⟨s, hs, -, hread⟩ := stored_value_reads_as_source (hrules ▸ List.mem_singleton_self _)
    (List.mem_singleton_self (⟨"display", "\"xy\" *", some 0⟩ : Declaration))
  have hsturdy : Sturdy s.value := by
    refine s.sturdy_of_tidy fun t ht => ?_
    obtain ⟨front, back, hsplit, -⟩ := hs
    have hmem : Item.token t ∈ (Cursor.start "a\x7bdisplay:\"xy\" *\x7d").items := by
      rw [hsplit]
      simp [DeclarationSource.tokens, ht]
    rw [hitems, List.mem_map_of_injective (fun _ _ => Item.token.inj)] at hmem
    simp only [List.mem_cons, List.not_mem_nil, or_false] at hmem
    rcases hmem with rfl | rfl | rfl | rfl | rfl | rfl | rfl | rfl
    case inr.inr.inr.inr.inr.inl => exact ⟨by simp, by simp [OpenQuote], by decide, by simp [TokenKind.counts], by simp [TokenKind.counts]⟩
    all_goals
      refine Token.tidy_of_printable (by simp) rfl rfl (by decide) (by decide) (by decide) ?_
      simp [OpenQuote, hquoted]
  obtain ⟨⟨us, hus, hkinds⟩, htemplate⟩ := hread hsturdy
  obtain ⟨k, t, rows, widths, hk, ht, hcss, hbuilt, hdefinition⟩ := htemplate 0 rfl
  rw [htokens] at hus
  cases hus
  obtain rfl : k = 0 := by omega
  exact ⟨s, hs, hsturdy, hkinds.symm, t, rows, widths, ht, hcss, hbuilt, hdefinition⟩

/-- The comment between the two words is not stored, and their characters make one word. -/
theorem not_stored_value_reads_as_source :
    ¬ ∀ (registered : ℕ) (text : String), ∀ r ∈ (parse registered text).sheet.rules, ∀ d ∈ r.declarations.toList,
      ∃ s : DeclarationSource d.property, s.In text ∧ d.value = s.text ∧
        ∃ us, tokens? d.value = .ok us ∧ kindsOf us = kindsOf s.value := by
  intro h
  have hrules : (parse 0 "a\x7bb:c/**/d\x7d").sheet.rules = [⟨"a", ⟨[⟨"b", "cd", none⟩]⟩⟩] := by decide +kernel
  have hitems : (Cursor.start "a\x7bb:c/**/d\x7d").items = List.map Item.token [
      ⟨.ident "a", ['a'], 0⟩, ⟨.punct .leftBrace, ['\x7b'], 1⟩, ⟨.ident "b", ['b'], 2⟩, ⟨.punct .colon, [':'], 3⟩,
      ⟨.ident "c", ['c'], 4⟩, ⟨.comment, ['/', '*', '*', '/'], 5⟩, ⟨.ident "d", ['d'], 9⟩,
      ⟨.punct .rightBrace, ['\x7d'], 10⟩] := by decide +kernel
  have htokens : tokens? "cd" = .ok [⟨.ident "cd", ['c', 'd'], 0⟩] := by decide +kernel
  obtain ⟨s, ⟨front, back, hsplit, -⟩, -, us, hus, hkinds⟩ := h 0 "a\x7bb:c/**/d\x7d" _
    (hrules ▸ List.mem_singleton_self _) _ (List.mem_singleton_self (⟨"b", "cd", none⟩ : Declaration))
  rw [htokens] at hus
  cases hus
  have hword : TokenKind.ident "cd" ∈ kindsOf s.value := by
    rw [← hkinds]
    decide
  obtain ⟨t, ht, hk⟩ := List.mem_map.mp (List.mem_filter.mp hword).1
  have hmem : Item.token t ∈ (Cursor.start "a\x7bb:c/**/d\x7d").items := by
    rw [hsplit]
    simp [DeclarationSource.tokens, ht]
  rw [hitems, List.mem_map_of_injective (fun _ _ => Item.token.inj)] at hmem
  simp only [List.mem_cons, List.not_mem_nil, or_false] at hmem
  rcases hmem with rfl | rfl | rfl | rfl | rfl | rfl | rfl | rfl
  all_goals simp at hk

end Style

end SlotGrid
