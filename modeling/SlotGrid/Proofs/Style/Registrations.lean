import SlotGrid.Proofs.Style.Blocks
import SlotGrid.Proofs.Style.Starts
import SlotGrid.Proofs.Template.Partition

/-! # What a rule registers

Templates and positions are registered while the block of a rule is read, one declaration at a time and always for
the selector of the rule. A declaration that cannot be read registers nothing, but what the declarations before it
have registered is not taken back when the rule is dropped.
-/

namespace SlotGrid.Style

/-- The start of a declaration that places elements in a slot, up to the name of the slot. -/
def PositionStart (is : List Item) : Prop :=
  ∃ name before colon behind slot, is = name :: (before ++ colon :: (behind ++ [slot])) ∧
    name.name?.map String.toLower = some "position" ∧ Spaces before ∧ colon.kind = .punct .colon ∧ Spaces behind ∧
    ∃ c, slot.name?.map String.toList = some [c]

/-- Whether somewhere in a stretch a declaration defines a template or places elements in a slot. -/
def Registers (is : List Item) : Prop := ∃ start, (TemplateStart start ∨ PositionStart start) ∧ start <:+: is

theorem Registers.mono {is js : List Item} (h : Registers is) (hs : is <:+: js) : Registers js := by
  obtain ⟨start, hstart, hinfix⟩ := h
  exact ⟨start, hstart, hinfix.trans hs⟩

namespace Progress

/-! ## Relations between what is registered before and after -/

/-- Nothing but the stream has changed. -/
def Moved (p q : Progress) : Prop := q = { p with stream := q.stream }

instance : IsPreorder Progress Moved where
  refl _ := rfl
  trans p q r h h' := by
    unfold Moved at *
    rw [h', h]

/-- All that was registered is for the selector that has been read by now. -/
structure Gained (p q : Progress) : Prop where
  templates : ∃ ts, q.templates = p.templates ++ ts ∧ ∀ t ∈ ts, t.selector = q.selector
  positions : ∃ ps, q.positions = p.positions ++ ps ∧ ∀ x ∈ ps, x.selector = q.selector

/-- Nothing was registered. -/
structure Unregistered (p q : Progress) : Prop where
  templates : q.templates = p.templates
  positions : q.positions = p.positions

/-- All that was registered is for the selector of the rule, which has been read before. -/
structure Collected (p q : Progress) : Prop extends p.Gained q where
  selector : q.selector = p.selector

instance : IsPreorder Progress Unregistered where
  refl _ := ⟨rfl, rfl⟩
  trans _ _ _ h h' := ⟨h'.templates.trans h.templates, h'.positions.trans h.positions⟩

instance : WritingFrame Unregistered where
  of_wrote h := ⟨by rw [h.eq], by rw [h.eq]⟩

theorem Moved.unregistered {p q : Progress} (h : p.Moved q) : p.Unregistered q := by
  unfold Moved at h
  rw [h]
  exact ⟨rfl, rfl⟩

theorem Unregistered.gained {p q : Progress} (h : p.Unregistered q) : p.Gained q :=
  ⟨⟨[], by rw [h.templates, List.append_nil], nofun⟩, [], by rw [h.positions, List.append_nil], nofun⟩

theorem Unregistered.trans_gained {p q r : Progress} (h : p.Unregistered q) (h' : q.Gained r) : p.Gained r := by
  obtain ⟨ht, hp⟩ := h'
  rw [h.templates] at ht
  rw [h.positions] at hp
  exact ⟨ht, hp⟩

theorem Unregistered.collected {p q : Progress} (h : p.Unregistered q) (hs : q.selector = p.selector) :
    p.Collected q := ⟨h.gained, hs⟩

theorem Gained.trans_collected {p q r : Progress} (h : p.Gained q) (h' : q.Collected r) : p.Gained r := by
  obtain ⟨⟨ts, hts, hselectors⟩, ps, hps, hselectors'⟩ := h
  obtain ⟨⟨⟨ts', hts', htselectors⟩, ps', hps', hpselectors⟩, hselector⟩ := h'
  refine ⟨⟨ts ++ ts', by rw [hts', hts, List.append_assoc], List.forall_mem_append.mpr ⟨fun t ht => ?_, htselectors⟩⟩,
    ps ++ ps', by rw [hps', hps, List.append_assoc], List.forall_mem_append.mpr ⟨fun x hx => ?_, hpselectors⟩⟩
  · exact (hselectors t ht).trans hselector.symm
  · exact (hselectors' x hx).trans hselector.symm

instance : IsPreorder Progress Collected where
  refl _ := Unregistered.collected ⟨rfl, rfl⟩ rfl
  trans _ _ _ h h' := ⟨h.toGained.trans_collected h', h'.selector.trans h.selector⟩

theorem Moved.collected {p q : Progress} (h : p.Moved q) : p.Collected q := by
  refine h.unregistered.collected ?_
  unfold Moved at h
  rw [h]

/-- Nothing was registered, or a declaration has been passed that registers something. -/
structure Noted (p q : Progress) : Prop where
  suffix : q.stream <:+ p.stream
  registered : p.Unregistered q ∨ ∃ is, is ++ q.stream = p.stream ∧ Registers is

instance : IsPreorder Progress Noted where
  refl _ := ⟨List.suffix_rfl, .inl ⟨rfl, rfl⟩⟩
  trans p q r h h' := by
    refine ⟨h'.suffix.trans h.suffix, ?_⟩
    obtain ⟨is, his⟩ := h.suffix
    obtain ⟨js, hjs⟩ := h'.suffix
    rcases h.registered with hnone | ⟨ks, hks, hregisters⟩
    · rcases h'.registered with hnone' | ⟨ks, hks, hregisters⟩
      · exact .inl (trans_of Unregistered hnone hnone')
      · exact .inr ⟨is ++ ks, by rw [List.append_assoc, hks, his], hregisters.mono (List.suffix_append is ks).isInfix⟩
    · exact .inr ⟨ks ++ js, by rw [List.append_assoc, hjs, hks], hregisters.mono (List.prefix_append ks js).isInfix⟩

/-- A relation that allows everything that registers nothing. -/
class RegistryFrame (R : Progress → Progress → Prop) : Prop extends IsPreorder Progress R where
  of_unregistered : ∀ {p q : Progress}, q.stream <:+ p.stream → p.Unregistered q → R p q

instance {R : Progress → Progress → Prop} [RegistryFrame R] : WritingFrame R where
  of_wrote h := RegistryFrame.of_unregistered h.suffix (WritingFrame.of_wrote h)

instance : RegistryFrame Noted := ⟨fun hs h => ⟨hs, .inl h⟩⟩

end Progress

namespace Reader

open Progress

variable {α : Type} {p q : Progress} {registered : ℕ}

/-! ## Readers that only move on -/

theorem moved_advance : Within Moved advance := fun p => by
  rw [after_advance]
  rfl

theorem moved_unexpected (expected : String) : Within Moved (unexpected expected : Reader α) := fun p => by
  obtain ⟨e, he⟩ := exists_unexpected (α := α) expected p
  unfold after
  rw [he]
  exact refl_of Moved p

theorem moved_throw (e : SyntaxError) : Within Moved (throw e : Reader α) := fun p => refl_of Moved p

theorem moved_expect (k : TokenKind) (expected : String) : Within Moved (expect k expected) := by
  refine within_bind within_kind fun k' => ?_
  split_ifs
  · exact moved_advance
  · exact moved_unexpected _

theorem moved_expectName (expected : String) : Within Moved (expectName expected) := by
  refine within_bind (within_bind within_get fun _ => within_pure _) fun name => ?_
  split
  · exact within_bind moved_advance fun _ => within_pure _
  · exact moved_unexpected _

theorem moved_skipSpace : Within Moved (discard skipSpace) := by
  refine within_map _ (within_bind (within_collect (within_bind within_kind fun k => ?_)) fun _ => within_pure _)
  split_ifs
  · exact within_bind moved_advance fun _ => within_pure _
  · exact within_pure _

theorem moved_property : Within Moved property :=
  within_bind (moved_expectName _) fun _ => within_bind moved_skipSpace fun _ =>
    within_bind (moved_expect _ _) fun _ => within_bind moved_skipSpace fun _ => within_pure _

theorem moved_valueItem : Within Moved valueItem := by
  refine within_bind within_kind fun k => ?_
  split
  · exact moved_unexpected _
  · split_ifs
    · exact within_pure _
    · exact within_bind moved_advance fun _ => within_pure _

theorem moved_value : Within Moved value :=
  within_bind within_get fun _ => within_bind (within_loop moved_valueItem) fun _ => within_pure _

theorem moved_length (expected : String) : Within Moved (length expected) := by
  refine within_bind within_kind fun k => ?_
  split
  · exact within_bind moved_advance fun _ => within_pure _
  · exact moved_throw _
  · exact moved_unexpected _

theorem moved_rowHeight : Within Moved rowHeight := by
  refine within_bind within_kind fun k => ?_
  split
  · exact within_bind moved_advance fun _ => within_pure _
  · exact within_bind moved_advance fun _ => within_pure _
  · exact within_bind (moved_length _) fun _ => within_pure _

theorem moved_minMaxLengths : Within Moved minMaxLengths :=
  within_bind moved_skipSpace fun _ => within_bind (moved_length _) fun _ =>
    within_bind moved_skipSpace fun _ => within_bind (moved_expect _ _) fun _ =>
      within_bind moved_skipSpace fun _ => within_bind (moved_length _) fun _ =>
        within_bind moved_skipSpace fun _ => within_bind (moved_expect _ _) fun _ => within_pure _

theorem moved_columnWidth : Within Moved columnWidth := by
  refine within_bind within_kind fun k => ?_
  split
  · exact within_bind moved_advance fun _ => within_pure _
  · exact within_bind moved_advance fun _ => within_pure _
  · exact within_bind moved_advance fun _ => within_pure _
  · exact within_bind moved_advance fun _ => within_pure _
  · exact within_bind moved_advance fun _ => within_bind moved_skipSpace fun _ =>
      within_bind (moved_expect _ _) fun _ => moved_minMaxLengths
  · split_ifs
    · exact within_bind moved_advance fun _ => moved_minMaxLengths
    · exact within_bind (moved_length _) fun _ => within_pure _
  · exact within_bind (moved_length _) fun _ => within_pure _

theorem moved_row? : Within Moved row? := by
  refine within_bind within_kind fun k => ?_
  split
  · refine within_bind moved_advance fun _ => within_bind moved_skipSpace fun _ => within_bind within_kind fun k => ?_
    split_ifs
    · exact within_bind moved_advance fun _ => within_bind moved_skipSpace fun _ =>
        within_bind moved_rowHeight fun _ => within_bind moved_skipSpace fun _ => within_pure _
    · exact within_pure _
  · exact within_pure _

theorem moved_columnWidth? : Within Moved columnWidth? := by
  refine within_bind within_kind fun k => ?_
  split_ifs
  · exact within_pure _
  · exact within_bind moved_columnWidth fun _ => within_bind moved_skipSpace fun _ => within_pure _

theorem moved_templateDefinition : Within Moved templateDefinition :=
  within_bind (within_collect moved_row?) fun _ => within_bind (within_collect moved_columnWidth?) fun _ =>
    within_pure _

/-! ## Whose registrations they are -/

theorem Within.collected {r : Reader α} (h : Within Moved r) : Within Collected r := fun p => (h p).collected

theorem collected_modify {f : Progress → Progress} (h : ∀ p, Collected p (f p)) :
    Within Collected (modify f : Reader Unit) := h

theorem collected_place (p : Progress) (items : List Item) : p.Collected (p.place items) := by
  unfold Progress.place
  split
  · split
    · refine ⟨⟨⟨[], (List.append_nil _).symm, nofun⟩, [_], rfl, ?_⟩, rfl⟩
      exact List.forall_mem_singleton.mpr rfl
    · exact refl_of Collected p
  · exact refl_of Collected p

theorem collected_templateDeclaration : Within Collected (templateDeclaration registered) := by
  intro p
  unfold after templateDeclaration
  cases h : templateDefinition p with
  | error e q =>
    have hdef := (moved_templateDefinition.of_error h).collected
    refine trans_of Collected hdef ?_
    exact Unregistered.collected ⟨rfl, rfl⟩ rfl
  | ok d q =>
    have hdef := (moved_templateDefinition.of_ok h).collected
    refine trans_of Collected hdef ?_
    simp only
    cases ht : Template.ofRows q.selector (valueText p.stream.declarationItems) d.1 d.2 with
    | error e => exact Unregistered.collected ⟨rfl, rfl⟩ rfl
    | ok t =>
      obtain ⟨-, slots, rfl, -⟩ := Template.ofRows_eq_ok.mp ht
      refine ⟨⟨⟨[_], rfl, ?_⟩, [], (List.append_nil _).symm, nofun⟩, rfl⟩
      exact List.forall_mem_singleton.mpr rfl

theorem collected_declaration : Within Collected (declaration registered) := by
  refine within_bind moved_property.collected fun name => within_bind within_kind fun k => ?_
  have hdeclare : ∀ items, Within Collected (modify (·.declare (.of name (valueText items))) : Reader Unit) :=
    fun items => collected_modify fun _ => Unregistered.collected ⟨rfl, rfl⟩ rfl
  split
  · exact collected_templateDeclaration
  · refine within_bind moved_value.collected fun items => ?_
    simp only
    split_ifs
    · exact within_bind (collected_modify (collected_place · items)) fun _ => hdeclare items
    · exact hdeclare items

theorem collected_blockItem : Within Collected (blockItem registered) := by
  refine within_bind moved_skipSpace.collected fun _ => within_bind within_kind fun k => ?_
  split
  · exact within_bind moved_advance.collected fun _ => within_pure _
  · exact within_bind moved_advance.collected fun _ => within_pure _
  · exact within_pure _
  · exact within_bind collected_declaration fun _ => within_pure _

theorem gained_bind {β : Type} {r : Reader α} {f : α → Reader β} (hr : p.Unregistered (after r p))
    (hf : ∀ a q, Gained q (after (f a) q)) : p.Gained (after (r >>= f) p) := by
  unfold after at hr ⊢
  cases h : r p with
  | ok a q =>
    rw [h] at hr
    rw [bind_of_ok h]
    exact hr.trans_gained (hf a q)
  | error e q =>
    rw [h] at hr
    rw [bind_of_error h]
    exact hr.gained

/-- All that a rule registers is for its selector. -/
theorem gained_rule (registered : ℕ) (p : Progress) : p.Gained (after (rule registered) p) := by
  refine gained_bind (plain_selectors.within p) fun _ p => ?_
  refine gained_bind (moved_expect _ _ p).unregistered fun _ p => ?_
  refine gained_bind ⟨rfl, rfl⟩ fun _ p => ?_
  have hblock : Within Collected (do
      loop (blockItem registered)
      return ⟨(← get).selector, (← get).declarations⟩ : Reader Rule) :=
    within_bind (within_loop collected_blockItem) fun _ => within_bind within_get fun _ =>
      within_bind within_get fun _ => within_pure _
  exact (hblock p).toGained

theorem gained_rule? (registered : ℕ) (p : Progress) : p.Gained (after (rule? registered) p) := by
  refine gained_bind (plain_skipNoise.within p) fun _ p => gained_bind (within_kind p) fun k p => ?_
  split
  · exact (refl_of Unregistered p).gained
  · exact Unregistered.gained ⟨rfl, rfl⟩
  · have hrule := gained_rule registered p
    unfold after at hrule ⊢
    cases h : rule registered p with
    | ok r q =>
      rw [h] at hrule
      rwa [bind_of_ok h]
    | error e q =>
      rw [h] at hrule
      rwa [bind_of_error h]

/-! ## What has to be passed to register something -/

theorem after_bind_of_ok {β : Type} {r : Reader α} {f : α → Reader β} {a : α} (h : r p = .ok a q) :
    after (r >>= f) p = after (f a) q := by
  unfold after
  rw [bind_of_ok h]

theorem after_bind_of_error {β : Type} {r : Reader α} {f : α → Reader β} {e : SyntaxError} (h : r p = .error e q) :
    after (r >>= f) p = q := by
  unfold after
  rw [bind_of_error h]

/-- A row that is there is passed. -/
theorem row?_suffix {text : String} (hk : p.stream.kind = .string text) {row : Option Row} (h : row? p = .ok row q) :
    q.stream <:+ p.stream.tail := by
  unfold row? at h
  rw [bind_of_ok (r := kind) (a := p.stream.kind) rfl, hk] at h
  obtain ⟨_, p₁, hadvance, h⟩ := bind_eq_ok.mp h
  have htail : p₁.stream = p.stream.tail := by rw [(advance_eq_ok.mp hadvance).1]
  rw [← htail]
  refine (Plain.of_ok (R := Wrote) ?_ h).suffix
  refine .bind (plain_discard plain_skipSpace) fun _ => plain_kind fun k => ?_
  split_ifs with hk
  · subst hk
    exact .bind (plain_advance rfl) fun _ => .bind (plain_discard plain_skipSpace) fun _ =>
      .bind plain_rowHeight fun _ => .bind (plain_discard plain_skipSpace) fun _ => .pure _
  · exact .pure _

theorem templateDefinition_suffix {text : String} (hk : p.stream.kind = .string text) {d : List Row × List Width}
    (h : templateDefinition p = .ok d q) : q.stream <:+ p.stream.tail := by
  obtain ⟨rows, p₁, hrows, h⟩ := bind_eq_ok.mp h
  refine (Plain.of_ok (R := Wrote) (.bind (.collect plain_columnWidth?) fun _ => .pure _) h).suffix.trans ?_
  rw [collect] at hrows
  cases hrow : row? p with
  | error e p₂ =>
    rw [hrow] at hrows
    cases hrows
  | ok row p₂ =>
    have hsuffix := row?_suffix hk hrow
    rw [hrow] at hrows
    cases row with
    | none =>
      cases hrows
      exact hsuffix
    | some row =>
      simp only at hrows
      split_ifs at hrows
      · cases hmore : collect row? p₂ with
        | error e p₃ =>
          rw [hmore] at hrows
          cases hrows
        | ok rows' p₃ =>
          rw [hmore] at hrows
          cases hrows
          exact ((Plain.collect (P := fun _ => True) plain_row?).of_ok (R := Wrote) hmore).suffix.trans hsuffix
      · cases hrows
        exact hsuffix

theorem valueItem_eq_ok {more : Bool} (h : valueItem p = .ok more q) :
    (more = false ∧ q = p ∧ p.stream.kind.endsDeclaration = true) ∨
      more = true ∧ ∃ i, p.stream = i :: q.stream ∧ i.kind.endsDeclaration = false := by
  unfold valueItem at h
  obtain ⟨k, p₁, hkind, h⟩ := bind_eq_ok.mp h
  cases hkind
  generalize hk : p.stream.kind = k at h
  split at h
  · exact absurd h unexpected_ne_ok
  · split_ifs at h with hends
    · cases h
      exact .inl ⟨rfl, rfl, hk ▸ hends⟩
    · obtain ⟨_, p₂, hadvance, h⟩ := bind_eq_ok.mp h
      cases h
      refine .inr ⟨rfl, ?_⟩
      rw [(advance_eq_ok.mp hadvance).1]
      cases hs : p.stream with
      | nil =>
        rw [hs] at hk
        exact absurd (hk ▸ rfl) hends
      | cons i s =>
        rw [hs] at hk
        exact ⟨i, rfl, by rw [show i.kind = k from hk]; simpa using hends⟩

/-- A value is passed up to the end of its declaration. -/
theorem declarationItems_append_of_value (h : loop valueItem p = .ok () q) :
    p.stream.declarationItems ++ q.stream = p.stream := by
  induction hn : p.stream.length using Nat.strong_induction_on generalizing p with
  | _ n ih =>
    rw [loop_eq] at h
    cases hitem : valueItem p with
    | error e p₁ =>
      rw [hitem] at h
      cases h
    | ok more p₁ =>
      rw [hitem] at h
      unfold Stream.declarationItems
      rcases valueItem_eq_ok hitem with ⟨rfl, rfl, hends⟩ | ⟨rfl, i, hs, hends⟩
      · cases h
        cases hs : q.stream with
        | nil => rfl
        | cons i s =>
          rw [hs] at hends
          have hi : i.kind.endsDeclaration = true := hends
          rw [List.takeWhile_cons_of_neg (by simpa using hi), List.nil_append]
      · have hlt : p₁.stream.length < p.stream.length := by rw [hs]; exact Nat.lt_succ_self _
        simp only [hlt, if_true] at h
        rw [hs, List.takeWhile_cons_of_pos (by simpa using hends), List.cons_append]
        exact congrArg (i :: ·) (ih _ (hn ▸ hlt) h rfl)

theorem value_eq_ok_items {is : List Item} (h : value p = .ok is q) :
    is = p.stream.declarationItems ∧ is ++ q.stream = p.stream := by
  obtain ⟨_, p₁, hget, h⟩ := bind_eq_ok.mp h
  cases hget
  obtain ⟨_, p₂, hloop, h⟩ := bind_eq_ok.mp h
  cases h
  exact ⟨rfl, declarationItems_append_of_value hloop⟩

section Frame

variable {R : Progress → Progress → Prop} [RegistryFrame R]

theorem kept_advance : Within R advance := fun p => by
  rw [after_advance]
  exact RegistryFrame.of_unregistered (List.tail_suffix _) ⟨rfl, rfl⟩

theorem kept_expect (k : TokenKind) (expected : String) : Within R (expect k expected) := by
  refine within_bind within_kind fun k' => ?_
  split_ifs
  · exact kept_advance
  · exact (plain_unexpected _).within

theorem kept_modify {f : Progress → Progress} (hs : ∀ p, (f p).stream <:+ p.stream) (h : ∀ p, Unregistered p (f p)) :
    Within R (modify f : Reader Unit) := fun p => RegistryFrame.of_unregistered (hs p) (h p)

/-- A declaration registers something only if it defines a template or has a position for its value. -/
theorem kept_declaration
    (hdisplay : ∀ {p q : Progress} {text : String}, property p = .ok "display" q → q.stream.kind = .string text →
      R p (after (templateDeclaration registered) q))
    (hposition : ∀ {p q p' : Progress} {items : List Item}, property p = .ok "position" q → value q = .ok items p' →
      R p (p'.place items)) : Within R (declaration registered) := by
  intro p
  unfold declaration
  cases hproperty : property p with
  | error e q =>
    rw [after_bind_of_error hproperty]
    exact plain_property.of_error hproperty
  | ok name q =>
    have hkept : R p q := plain_property.of_ok hproperty
    rw [after_bind_of_ok hproperty, after_bind_of_ok (r := kind) (a := q.stream.kind) rfl]
    generalize hk : q.stream.kind = k
    split
    · exact hdisplay hproperty hk
    · cases hvalue : value q with
      | error e q₁ =>
        rw [after_bind_of_error hvalue]
        have hpassed := (value_eq_error hvalue).suffix
        exact trans_of R hkept (RegistryFrame.of_unregistered hpassed (moved_value.of_error hvalue).unregistered)
      | ok items q₁ =>
        rw [after_bind_of_ok hvalue]
        have hdeclare : ∀ q₂ : Progress, R q₂ (q₂.declare (.of name (valueText items))) :=
          fun _ => RegistryFrame.of_unregistered List.suffix_rfl ⟨rfl, rfl⟩
        simp only
        split_ifs with hname
        · exact trans_of R (hposition (hname ▸ hproperty) hvalue) (hdeclare _)
        · have hitems : q₁.stream <:+ q.stream := ⟨items, (value_eq_ok_items hvalue).2⟩
          have hmoved : R q q₁ := RegistryFrame.of_unregistered hitems (moved_value.of_ok hvalue).unregistered
          exact trans_of R (trans_of R hkept hmoved) (hdeclare _)

theorem kept_blockItem (h : Within R (declaration registered)) : Within R (blockItem registered) := by
  refine within_bind (plain_discard plain_skipSpace).within fun _ => within_bind within_kind fun k => ?_
  split
  · exact within_bind kept_advance fun _ => within_pure _
  · exact within_bind kept_advance fun _ => within_pure _
  · exact within_pure _
  · exact within_bind h fun _ => within_pure _

theorem kept_rule (h : Within R (declaration registered)) : Within R (rule registered) := by
  refine within_bind plain_selectors.within fun _ => within_bind (kept_expect _ _) fun _ => ?_
  refine within_bind (kept_modify (fun _ => List.suffix_rfl) fun _ => ⟨rfl, rfl⟩) fun _ => ?_
  refine within_bind (within_loop (kept_blockItem h)) fun _ => ?_
  exact within_bind within_get fun _ => within_bind within_get fun _ => within_pure _

/-- What holds of declarations holds of rules, since nothing else registers anything. -/
theorem kept_rule? (h : Within R (declaration registered)) : Within R (rule? registered) := by
  refine within_bind plain_skipNoise.within fun _ => within_bind within_kind fun k => ?_
  split
  · exact within_pure _
  · refine within_bind (kept_modify (fun p => ?_) fun _ => ⟨rfl, rfl⟩) fun _ => within_pure _
    exact p.stream.skipAtRule_suffix 0
  · exact within_bind (kept_rule h) fun _ => within_pure _

end Frame

/-- A template is registered only behind its first row. -/
theorem noted_templateDeclaration (registered : ℕ) (p : Progress) {text : String} (hk : p.stream.kind = .string text) :
    (after (templateDeclaration registered) p).stream <:+ p.stream ∧
      (p.Unregistered (after (templateDeclaration registered) p) ∨
        (after (templateDeclaration registered) p).stream <:+ p.stream.tail) := by
  unfold after templateDeclaration
  cases h : templateDefinition p with
  | error e q =>
    have hwrote := plain_templateDefinition.of_error (R := Wrote) h
    have hnone := plain_templateDefinition.of_error (R := Unregistered) h
    exact ⟨(List.dropWhile_suffix _).trans hwrote.suffix, .inl ⟨hnone.templates, hnone.positions⟩⟩
  | ok d q =>
    have hsuffix := templateDefinition_suffix hk h
    simp only
    cases Template.ofRows q.selector (valueText p.stream.declarationItems) d.1 d.2 with
    | error e => exact ⟨hsuffix.trans (List.tail_suffix _), .inr hsuffix⟩
    | ok t => exact ⟨hsuffix.trans (List.tail_suffix _), .inr hsuffix⟩

/-- A value places elements in a slot if it is the name of the slot. -/
theorem place_cases (p : Progress) (items : List Item) : p.place items = p ∨
    ∃ before slot behind c, items = before ++ slot :: behind ∧ Spaces before ∧
      slot.name?.map String.toList = some [c] ∧
      p.place items = { p with positions := p.positions ++ [⟨p.selector, c⟩] } := by
  unfold Progress.place
  split
  · rename_i slot hslot
    split
    · rename_i c hc
      obtain ⟨before, behind, rfl, hbefore, -⟩ := List.filter_eq_cons_iff.mp hslot
      exact .inr ⟨before, slot, behind, c, rfl, fun i hi => by simpa using hbefore i hi, hc, rfl⟩
    · exact .inl rfl
  · exact .inl rfl

theorem stream_place (p : Progress) (items : List Item) : (p.place items).stream = p.stream := by
  rcases place_cases p items with h | ⟨_, _, _, _, -, -, -, h⟩
  all_goals rw [h]

theorem exists_passed_of_property {name : String} (h : property p = .ok name q) :
    ∃ is, is ++ q.stream = p.stream ∧
      (name = "display" → ∀ (row : Item) text, row.kind = .string text → TemplateStart (is ++ [row])) ∧
      (name = "position" → ∀ spaces slot, Spaces spaces → (∃ c, slot.name?.map String.toList = some [c]) →
        PositionStart (is ++ (spaces ++ [slot]))) := by
  obtain ⟨i, before, colon, behind, hname, hbefore, hcolon, hbehind, hs⟩ := property_eq_ok h
  refine ⟨i :: (before ++ colon :: behind), by rw [hs]; simp, ?_, ?_⟩
  · rintro rfl row text hrow
    exact ⟨i, before, colon, behind, row, by simp, hname, hbefore, hcolon, hbehind, text, hrow⟩
  · rintro rfl spaces slot hspaces hslot
    exact ⟨i, before, colon, behind ++ spaces, slot, by simp, hname, hbefore, hcolon,
      List.forall_mem_append.mpr ⟨hbehind, hspaces⟩, hslot⟩

theorem noted_display (registered : ℕ) {text : String} (h : property p = .ok "display" q)
    (hk : q.stream.kind = .string text) : p.Noted (after (templateDeclaration registered) q) := by
  have hnone : p.Unregistered q := plain_property.of_ok h
  obtain ⟨is, his, htemplate, -⟩ := exists_passed_of_property h
  obtain ⟨hsuffix, hregistered⟩ := noted_templateDeclaration registered q hk
  refine ⟨hsuffix.trans ⟨is, his⟩, ?_⟩
  rcases hregistered with hnone' | ⟨js, hjs⟩
  · exact .inl (trans_of Unregistered hnone hnone')
  · cases hrow : q.stream with
    | nil =>
      rw [hrow] at hk
      cases hk
    | cons row s =>
      rw [hrow] at hk hjs his
      refine .inr ⟨is ++ [row] ++ js, ?_, _, .inl (htemplate rfl row text hk), (List.prefix_append _ js).isInfix⟩
      rw [← his, ← show js ++ _ = s from hjs]
      simp

theorem noted_position {items : List Item} {p' : Progress} (h : property p = .ok "position" q)
    (hvalue : value q = .ok items p') : p.Noted (p'.place items) := by
  have hmoved : p.Unregistered p' :=
    trans_of Unregistered (plain_property.of_ok h) (moved_value.of_ok hvalue).unregistered
  obtain ⟨is, his, -, hposition⟩ := exists_passed_of_property h
  obtain ⟨-, hitems⟩ := value_eq_ok_items hvalue
  refine ⟨?_, ?_⟩
  · rw [stream_place]
    exact List.IsSuffix.trans ⟨items, hitems⟩ ⟨is, his⟩
  · rcases place_cases p' items with hplace | ⟨spaces, slot, more, c, rfl, hspaces, hslot, -⟩
    · rw [hplace]
      exact .inl hmoved
    · refine .inr ⟨is ++ (spaces ++ [slot]) ++ more, ?_, _, .inr (hposition rfl spaces slot hspaces ⟨c, hslot⟩),
        (List.prefix_append _ more).isInfix⟩
      rw [stream_place, ← his, ← hitems]
      simp

/-- A rule registers nothing unless it passes a declaration that does, whether it fails or not. -/
theorem noted_rule? : Within Noted (rule? registered) :=
  kept_rule? (kept_declaration (noted_display registered) noted_position)

/-- Nothing is registered between rules. -/
theorem unregistered_of_none (h : rule? registered p = .ok none q) : p.Unregistered q := by
  unfold rule? at h
  obtain ⟨_, p₁, hnoise, h⟩ := bind_eq_ok.mp h
  have hnone : p.Unregistered p₁ := plain_skipNoise.of_ok hnoise
  obtain ⟨k, p₂, hkind, h⟩ := bind_eq_ok.mp h
  cases hkind
  generalize p₁.stream.kind = k at h
  split at h
  · cases h
    exact hnone
  · cases h
    exact ⟨hnone.templates, hnone.positions⟩
  · obtain ⟨r, p₂, -, h⟩ := bind_eq_ok.mp h
    cases h

/-- The selector of a rule is the one that was read. -/
theorem selector_of_rule? {r : Rule} (h : rule? registered p = .ok (some r) q) : r.selector = q.selector := by
  unfold rule? at h
  obtain ⟨_, p₁, -, h⟩ := bind_eq_ok.mp h
  obtain ⟨k, p₂, -, h⟩ := bind_eq_ok.mp h
  split at h
  · cases h
  · obtain ⟨_, p₃, -, h⟩ := bind_eq_ok.mp h
    cases h
  · obtain ⟨r', p₃, hrule, h⟩ := bind_eq_ok.mp h
    cases h
    unfold rule at hrule
    obtain ⟨_, p₄, -, hrule⟩ := bind_eq_ok.mp hrule
    obtain ⟨_, p₅, -, hrule⟩ := bind_eq_ok.mp hrule
    obtain ⟨_, p₆, -, hrule⟩ := bind_eq_ok.mp hrule
    obtain ⟨_, p₇, -, hrule⟩ := bind_eq_ok.mp hrule
    cases hrule
    rfl

end Reader

/-! ## What a step registers -/

namespace Progress

variable {registered : ℕ} {p q : Progress} {ts : List Template} {ps : List Position}

def newTemplates (registered : ℕ) (p : Progress) : List Template :=
  (p.step registered).templates.drop p.templates.length

def newPositions (registered : ℕ) (p : Progress) : List Position :=
  (p.step registered).positions.drop p.positions.length

/-- Keeping or dropping a rule changes nothing in what it has registered. -/
theorem unregistered_step (registered : ℕ) (p : Progress) :
    (Reader.after (Reader.rule? registered) p.fresh).Unregistered (p.step registered) := by
  unfold Reader.after
  cases h : Reader.rule? registered p.fresh with
  | error e q =>
    rw [step_of_error h]
    exact ⟨rfl, rfl⟩
  | ok r q =>
    cases r with
    | none =>
      rw [step_of_none h]
      exact ⟨rfl, rfl⟩
    | some r =>
      rw [step_of_rule h]
      exact ⟨rfl, rfl⟩

theorem templates_step (registered : ℕ) (p : Progress) :
    (p.step registered).templates = p.templates ++ p.newTemplates registered ∧
      ∀ t ∈ p.newTemplates registered, t.selector = (Reader.after (Reader.rule? registered) p.fresh).selector := by
  obtain ⟨ts, hts, hselectors⟩ := (Reader.gained_rule? registered p.fresh).templates
  have hstep : (p.step registered).templates = p.templates ++ ts := (unregistered_step registered p).templates.trans hts
  unfold newTemplates
  rw [hstep, List.drop_left]
  exact ⟨rfl, hselectors⟩

theorem positions_step (registered : ℕ) (p : Progress) :
    (p.step registered).positions = p.positions ++ p.newPositions registered ∧
      ∀ x ∈ p.newPositions registered, x.selector = (Reader.after (Reader.rule? registered) p.fresh).selector := by
  obtain ⟨ps, hps, hselectors⟩ := (Reader.gained_rule? registered p.fresh).positions
  have hstep : (p.step registered).positions = p.positions ++ ps := (unregistered_step registered p).positions.trans hps
  unfold newPositions
  rw [hstep, List.drop_left]
  exact ⟨rfl, hselectors⟩

theorem templates_finish (registered : ℕ) (p : Progress) :
    (p.finish registered).templates = p.templates ++ (p.starts registered).flatMap (·.newTemplates registered) :=
  finish_eq_append_flatMap (f := Progress.templates) (fun p => (templates_step registered p).1) p

/-- What a step has registered is there in the end. -/
theorem templates_step_prefix (hq : q ∈ p.starts registered) :
    (q.step registered).templates <+: (p.finish registered).templates := by
  induction p using induction_step registered with
  | step p ih =>
    by_cases hlt : (p.step registered).stream.length < p.stream.length
    · rw [starts_of_lt hlt] at hq
      rw [finish_of_lt hlt]
      rcases List.mem_cons.mp hq with rfl | hq
      · exact ⟨_, (templates_finish registered _).symm⟩
      · exact ih hlt hq
    · rw [starts_of_not_lt hlt] at hq
      rw [finish_of_not_lt hlt, List.mem_singleton.mp hq]

theorem positions_finish (registered : ℕ) (p : Progress) :
    (p.finish registered).positions = p.positions ++ (p.starts registered).flatMap (·.newPositions registered) :=
  finish_eq_append_flatMap (f := Progress.positions) (fun p => (positions_step registered p).1) p

/-- Where nothing was registered by the reader of a rule the step registers nothing. -/
theorem new_eq_nil (h : p.fresh.Unregistered (Reader.after (Reader.rule? registered) p.fresh)) :
    p.newTemplates registered = [] ∧ p.newPositions registered = [] := by
  have hstep := trans_of Unregistered h (unregistered_step registered p)
  unfold newTemplates newPositions
  rw [hstep.templates, hstep.positions]
  exact ⟨List.drop_length, List.drop_length⟩

/-- A rule that fails registers nothing unless a declaration in front of the error does. -/
theorem new_eq_nil_of_error {e : SyntaxError} (h : Reader.rule? registered p.fresh = .error e q) {passed : List Item}
    (hpassed : passed ++ q.stream = p.stream) (hregisters : ¬ Registers passed) :
    p.newTemplates registered = [] ∧ p.newPositions registered = [] := by
  have hnoted : p.fresh.Noted (Reader.after (Reader.rule? registered) p.fresh) := Reader.noted_rule? _
  refine new_eq_nil (hnoted.registered.resolve_right ?_)
  unfold Reader.after
  rw [h]
  rintro ⟨is, his, hr⟩
  obtain rfl := List.append_cancel_right (his.trans hpassed.symm)
  exact hregisters hr

end Progress

end SlotGrid.Style
