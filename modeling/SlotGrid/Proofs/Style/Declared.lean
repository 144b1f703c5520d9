import SlotGrid.Proofs.Style.SelectorText

/-! # What a block declares

The block of a rule grows by one declaration at a time. Its value is the text of the items that it stands in front of,
and if a template is defined by it, the template is registered in the same step.
-/

namespace SlotGrid.Style

open Reader

namespace Progress

/-- The stream has been read further, and nothing else has changed. -/
structure Advanced (p q : Progress) : Prop where
  moved : p.Moved q
  suffix : q.stream <:+ p.stream

instance : IsPreorder Progress Advanced where
  refl p := ⟨refl_of Moved p, List.suffix_rfl⟩
  trans _ _ _ h h' := ⟨trans_of Moved h.moved h'.moved, h'.suffix.trans h.suffix⟩

/-- Nothing was declared and nothing registered. -/
structure Opened (p q : Progress) : Prop where
  suffix : q.stream <:+ p.stream
  declarations : q.declarations = p.declarations
  templates : q.templates = p.templates

instance : IsPreorder Progress Opened where
  refl _ := ⟨List.suffix_rfl, rfl, rfl⟩
  trans _ _ _ h h' := ⟨h'.suffix.trans h.suffix, h'.declarations.trans h.declarations, h'.templates.trans h.templates⟩

instance : WritingFrame Opened where
  of_wrote h := ⟨h.suffix, by rw [h.eq], by rw [h.eq]⟩

/-- The progress with a template that the value in front of `p` defines, and the declaration that carries its number. -/
def define (registered : ℕ) (p q : Progress) (t : Template) : Progress :=
  { q with templates := q.templates ++ [t] }.declare
    { Declaration.of "display" (valueText p.stream.declarationItems) with
      template := some (registered + p.templates.length) }

end Progress

/-- A relation that allows what happens in a block: moving on, reporting, and the two kinds of declarations. -/
class BlockFrame (registered : ℕ) (R : Progress → Progress → Prop) : Prop extends IsPreorder Progress R where
  of_advanced : ∀ {p q}, p.Advanced q → R p q
  of_report : ∀ (p : Progress) (e : SyntaxError), R p (p.report e)
  of_declare : ∀ {p p' q q' : Progress} {name : String} {items : List Item}, property p = .ok name p' →
    value p' = .ok items q → q' = q ∨ q' = q.place items → R p (q'.declare (.of name (valueText items)))
  of_define : ∀ {p p' q : Progress} {rows : List Row} {widths : List Width} {t : Template},
    property p = .ok "display" p' → templateDefinition p' = .ok (rows, widths) q →
    Template.ofRows q.selector (valueText p'.stream.declarationItems) rows widths = .ok t →
    R p (p'.define registered q t)

namespace Reader

open Progress

variable {α β : Type} {p q : Progress} {registered : ℕ}

theorem Within.advanced {r : Reader α} (h : Within Moved r) (hr : Within Wrote r) : Within Advanced r :=
  fun p => ⟨h p, (hr p).suffix⟩

theorem advanced_advance : Within Advanced advance := by
  intro p
  rw [after_advance]
  exact ⟨rfl, List.tail_suffix _⟩

theorem advanced_property : Within Advanced property := moved_property.advanced plain_property.within

theorem advanced_skipSpace : Within Advanced (discard skipSpace) :=
  moved_skipSpace.advanced (plain_discard plain_skipSpace).within

theorem advanced_value : Within Advanced value := by
  refine moved_value.advanced ?_
  exact within_bind within_get fun _ => within_bind (plain_loop plain_valueItem).within fun _ => within_pure _

theorem advanced_templateDefinition : Within Advanced templateDefinition :=
  moved_templateDefinition.advanced plain_templateDefinition.within

section Frame

variable {R : Progress → Progress → Prop} [BlockFrame registered R]

theorem Within.ofAdvanced {r : Reader α} (registered : ℕ) {R : Progress → Progress → Prop} [BlockFrame registered R]
    (h : Within Advanced r) : Within R r := fun p => BlockFrame.of_advanced registered (h p)

theorem allowed_templateDeclaration {p' : Progress} (h : property p = .ok "display" p') :
    R p (after (templateDeclaration registered) p') := by
  have hproperty : R p p' := BlockFrame.of_advanced registered (advanced_property.of_ok h)
  have hdef : R p' (after templateDefinition p') := advanced_templateDefinition.ofAdvanced registered p'
  unfold after at hdef ⊢
  unfold templateDeclaration
  cases hread : templateDefinition p' with
  | error e q =>
    rw [hread] at hdef
    have hskip : (q.report e).Advanced { q.report e with stream := q.stream.skipDeclaration } :=
      ⟨rfl, List.dropWhile_suffix _⟩
    have hreport := trans_of R hdef (BlockFrame.of_report registered q e)
    exact trans_of R hproperty (trans_of R hreport (BlockFrame.of_advanced registered hskip))
  | ok d q =>
    obtain ⟨rows, widths⟩ := d
    rw [hread] at hdef
    simp only
    cases ht : Template.ofRows q.selector (valueText p'.stream.declarationItems) rows widths with
    | error e => exact trans_of R hproperty (trans_of R hdef (BlockFrame.of_report registered q _))
    | ok t => exact BlockFrame.of_define h hread ht

theorem allowed_declaration : Within R (declaration registered) := by
  intro p
  unfold declaration
  cases hproperty : property p with
  | error e p' =>
    rw [after_bind_of_error hproperty]
    exact BlockFrame.of_advanced registered (advanced_property.of_error hproperty)
  | ok name p' =>
    rw [after_bind_of_ok hproperty, after_bind_of_ok (r := kind) (a := p'.stream.kind) rfl]
    generalize p'.stream.kind = k
    split
    · exact allowed_templateDeclaration hproperty
    · cases hvalue : value p' with
      | error e q =>
        rw [after_bind_of_error hvalue]
        have hmoved := trans_of Advanced (advanced_property.of_ok hproperty) (advanced_value.of_error hvalue)
        exact BlockFrame.of_advanced registered hmoved
      | ok items q =>
        rw [after_bind_of_ok hvalue]
        simp only
        split_ifs
        · exact BlockFrame.of_declare registered hproperty hvalue (.inr rfl)
        · exact BlockFrame.of_declare registered hproperty hvalue (.inl rfl)

theorem allowed_blockItem : Within R (blockItem registered) := by
  refine within_bind (advanced_skipSpace.ofAdvanced registered) fun _ => within_bind within_kind fun k => ?_
  split
  · exact within_bind (advanced_advance.ofAdvanced registered) fun _ => within_pure _
  · exact within_bind (advanced_advance.ofAdvanced registered) fun _ => within_pure _
  · exact within_pure _
  · exact within_bind allowed_declaration fun _ => within_pure _

end Frame

/-! ## The block of a rule -/

theorem opened_header : Within Opened header := by
  refine within_bind plain_selectors.within fun _ p => ?_
  have hmoved := moved_expect (.punct .leftBrace) "'\x7b'" p
  have hnoted := kept_expect (R := Noted) (.punct .leftBrace) "'\x7b'" p
  unfold Moved at hmoved
  exact ⟨hnoted.suffix, by rw [hmoved], by rw [hmoved]⟩

/-- The declarations of a rule are those that its block has added. -/
theorem exists_block_of_rule? {r : Rule} (h : rule? registered p = .ok (some r) q) :
    ∃ p', p.Opened p' ∧ r = ⟨q.selector, q.declarations⟩ ∧
      ∀ {R : Progress → Progress → Prop} [BlockFrame registered R], R p' q := by
  unfold rule? at h
  obtain ⟨_, p₁, hnoise, h⟩ := bind_eq_ok.mp h
  obtain ⟨k, p₂, hkind, h⟩ := bind_eq_ok.mp h
  cases hkind
  generalize p₁.stream.kind = k at h
  split at h
  · cases h
  · obtain ⟨_, p₂, -, h⟩ := bind_eq_ok.mp h
    cases h
  · obtain ⟨r', p₂, hrule, h⟩ := bind_eq_ok.mp h
    cases h
    rw [rule_eq_header] at hrule
    obtain ⟨_, p₃, hheader, hrule⟩ := bind_eq_ok.mp hrule
    obtain ⟨_, p₄, hmodify, hrule⟩ := bind_eq_ok.mp hrule
    cases hmodify
    obtain ⟨_, p₅, hblock, hrule⟩ := bind_eq_ok.mp hrule
    cases hrule
    have hopened : p.Opened p₃ := trans_of Opened (plain_skipNoise.of_ok hnoise) (opened_header.of_ok hheader)
    refine ⟨{ p₃ with depth := 1 }, ⟨hopened.suffix, hopened.declarations, hopened.templates⟩, rfl, ?_⟩
    intro R _
    exact (within_loop (allowed_blockItem (R := R))).of_ok hblock

end Reader

end SlotGrid.Style
