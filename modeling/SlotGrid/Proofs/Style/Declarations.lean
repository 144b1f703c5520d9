import SlotGrid.Proofs.Style.Frames

/-! # What declarations pass

A declaration passes no semicolon and no brace, whether it can be read or not. The one that can is a definition of
a template that was dropped: its rest is skipped up to the next semicolon or closing brace, opening braces included.
-/

namespace SlotGrid.Style

/-- Nothing but spaces. -/
def Spaces (is : List Item) : Prop := ∀ i ∈ is, i.kind = .space

/-- The start of a declaration that defines a template, up to its first row. -/
def TemplateStart (is : List Item) : Prop :=
  ∃ name before colon behind row, is = name :: (before ++ colon :: (behind ++ [row])) ∧
    name.name?.map String.toLower = some "display" ∧ Spaces before ∧ colon.kind = .punct .colon ∧ Spaces behind ∧
    ∃ text, row.kind = .string text

/-- Whether somewhere in a stretch a brace opens in a declaration that defines a template. -/
def OpensInTemplate (is : List Item) : Prop :=
  ∃ start between opening, TemplateStart start ∧ Undivided between ∧ opening.kind = .punct .leftBrace ∧
    start ++ between ++ [opening] <:+: is

theorem OpensInTemplate.mono {is js : List Item} (h : OpensInTemplate is) (hs : is <:+: js) : OpensInTemplate js := by
  obtain ⟨start, between, opening, hstart, hbetween, hopening, hinfix⟩ := h
  exact ⟨start, between, opening, hstart, hbetween, hopening, hinfix.trans hs⟩

theorem Undivided.skipDeclaration_append {is : List Item} (h : Undivided is) (s : Stream) :
    Stream.skipDeclaration (is ++ s) = Stream.skipDeclaration s := by
  unfold Stream.skipDeclaration
  refine List.dropWhile_append_of_pos fun i hi => ?_
  have hdivides := h i hi
  unfold TokenKind.divides at hdivides
  split at hdivides
  · exact absurd rfl hdivides
  · simpa using hdivides

/-- What ends a declaration is skipped to, unless a brace opens before. -/
theorem Stream.undivided_skipDeclaration (s : Stream) :
    (∃ is, Undivided is ∧ is ++ s.skipDeclaration = s) ∨
      ∃ is opening t, Undivided is ∧ opening.kind = .punct .leftBrace ∧ s = is ++ opening :: t := by
  induction s with
  | nil => exact .inl ⟨[], undivided_nil, rfl⟩
  | cons i s ih =>
    unfold Stream.skipDeclaration
    rw [List.dropWhile_cons]
    split_ifs with hends
    · by_cases hopening : i.kind = .punct .leftBrace
      · exact .inr ⟨[], i, s, undivided_nil, hopening, rfl⟩
      · have hi : ¬ i.kind.divides := by
          unfold TokenKind.divides
          split
          · contradiction
          · simpa using hends
        rcases ih with ⟨is, his, hs⟩ | ⟨is, opening, t, his, hopening, rfl⟩
        · exact .inl ⟨i :: is, List.forall_mem_cons.mpr ⟨hi, his⟩, congrArg (i :: ·) hs⟩
        · exact .inr ⟨i :: is, opening, t, List.forall_mem_cons.mpr ⟨hi, his⟩, hopening, rfl⟩
    · exact .inl ⟨[], undivided_nil, rfl⟩

namespace Progress

/-- Items were passed that divide nothing, and as many braces are open. -/
structure Passed (p q : Progress) : Prop where
  depth : q.depth = p.depth
  passed : ∃ is, Undivided is ∧ is ++ q.stream = p.stream

instance : IsPreorder Progress Passed where
  refl _ := ⟨rfl, [], undivided_nil, rfl⟩
  trans p q r h h' := by
    obtain ⟨is, his, hs⟩ := h.passed
    obtain ⟨js, hjs, hs'⟩ := h'.passed
    exact ⟨h'.depth.trans h.depth, is ++ js, his.append hjs, by rw [List.append_assoc, hs', hs]⟩

instance : WritingFrame Passed where
  of_wrote h := ⟨by rw [h.eq], h.passed⟩

theorem Passed.trans {p q r : Progress} (h : p.Passed q) (h' : q.Passed r) : p.Passed r := trans_of Passed h h'

/-- Nothing but spaces was passed. -/
def PassedSpaces (p q : Progress) : Prop := ∃ is, Spaces is ∧ is ++ q.stream = p.stream

instance : IsPreorder Progress PassedSpaces where
  refl _ := ⟨[], fun _ h => absurd h List.not_mem_nil, rfl⟩
  trans p q r h h' := by
    obtain ⟨is, his, hs⟩ := h
    obtain ⟨js, hjs, hs'⟩ := h'
    exact ⟨is ++ js, List.forall_mem_append.mpr ⟨his, hjs⟩, by rw [List.append_assoc, hs', hs]⟩

end Progress

namespace Reader

open Progress

variable {p q : Progress} {registered : ℕ}

theorem within_skipSpace : Within PassedSpaces skipSpace := by
  refine within_bind (within_collect fun p => ?_) fun _ => within_pure _
  change PassedSpaces p (after (if p.stream.kind = .space then advance >>= fun _ => pure (some ()) else pure none) p)
  split_ifs with hspace
  · refine keeps_bind ?_ fun _ => within_pure _
    rw [after_advance]
    cases hs : p.stream with
    | nil =>
      rw [hs] at hspace
      cases hspace
    | cons i s =>
      rw [hs] at hspace
      exact ⟨[i], List.forall_mem_singleton.mpr hspace, by simp [hs]⟩
  · exact refl_of PassedSpaces p

theorem expectName_eq_ok {expected name : String} (h : expectName expected p = .ok name q) :
    ∃ i, i.name? = some name ∧ p.stream = i :: q.stream := by
  unfold expectName at h
  obtain ⟨o, p₁, hname, h⟩ := bind_eq_ok.mp h
  cases hname
  cases hs : p.stream with
  | nil =>
    rw [hs] at h
    exact absurd h unexpected_ne_ok
  | cons i s =>
    have hhead : (i :: s).head?.bind Item.name? = i.name? := rfl
    rw [hs, hhead] at h
    cases hi : i.name? with
    | none =>
      rw [hi] at h
      exact absurd h unexpected_ne_ok
    | some name =>
      rw [hi] at h
      obtain ⟨_, p₁, hadvance, h⟩ := bind_eq_ok.mp h
      cases h
      exact ⟨i, hi, by rw [(advance_eq_ok.mp hadvance).1, hs]; rfl⟩

/-- A property is passed with the colon behind it. -/
theorem property_eq_ok {property : String} (h : Reader.property p = .ok property q) :
    ∃ name before colon behind, name.name?.map String.toLower = some property ∧ Spaces before ∧
      colon.kind = .punct .colon ∧ Spaces behind ∧ p.stream = name :: (before ++ colon :: (behind ++ q.stream)) := by
  unfold Reader.property at h
  obtain ⟨_, p₁, hname, h⟩ := bind_eq_ok.mp h
  obtain ⟨_, p₂, hbefore, h⟩ := bind_eq_ok.mp h
  obtain ⟨_, p₃, hcolon, h⟩ := bind_eq_ok.mp h
  obtain ⟨_, p₄, hbehind, h⟩ := bind_eq_ok.mp h
  cases h
  obtain ⟨name, hname, hs⟩ := expectName_eq_ok hname
  obtain ⟨before, hbefore, hs₁⟩ := (within_map _ within_skipSpace).of_ok hbefore
  obtain ⟨colon, hcolon, hs₂⟩ := expect_eq_ok hcolon nofun
  obtain ⟨behind, hbehind, hs₃⟩ := (within_map _ within_skipSpace).of_ok hbehind
  exact ⟨name, before, colon, behind, by rw [hname]; rfl, hbefore, hcolon, hbehind, by rw [hs, ← hs₁, hs₂, ← hs₃]⟩

/-- A template that cannot be read is dropped with the rest of its declaration. -/
theorem templateDeclaration_eq_ok {a : Unit} (h : templateDeclaration registered p = .ok a q) :
    p.Passed q ∨ q.depth = p.depth ∧ q.stream = p.stream.skipDeclaration := by
  unfold templateDeclaration at h
  cases hdef : templateDefinition p with
  | error e p' =>
    obtain ⟨hdepth, is, his, hs⟩ := plain_templateDefinition.of_error (R := Passed) hdef
    rw [hdef] at h
    cases h
    exact .inr ⟨hdepth, by rw [← hs, his.skipDeclaration_append]; rfl⟩
  | ok d p' =>
    have hpassed := plain_templateDefinition.of_ok (R := Passed) hdef
    rw [hdef] at h
    simp only at h
    split at h
    · cases h
      exact .inl ⟨hpassed.depth, hpassed.passed⟩
    · cases h
      exact .inl ⟨hpassed.depth, hpassed.passed⟩

theorem templateDeclaration_ne_error {e : SyntaxError} : templateDeclaration registered p ≠ .error e q := by
  unfold templateDeclaration
  intro h
  split at h
  · cases h
  · simp only at h
    split at h <;> cases h

theorem value_eq_ok {is : List Item} (h : value p = .ok is q) : p.Passed q := by
  obtain ⟨_, p₁, hget, h⟩ := bind_eq_ok.mp h
  cases hget
  obtain ⟨_, p₂, hloop, h⟩ := bind_eq_ok.mp h
  cases h
  exact (plain_loop plain_valueItem).of_ok hloop

theorem value_eq_error {e : SyntaxError} (h : value p = .error e q) : p.Passed q := by
  rcases bind_eq_error.mp h with h | ⟨_, p₁, hget, h⟩
  · cases h
  cases hget
  rcases bind_eq_error.mp h with h | ⟨_, p₂, hloop, h⟩
  · exact (plain_loop plain_valueItem).of_error h
  · cases h

theorem passed_place (p : Progress) (items : List Item) : p.Passed (p.place items) := by
  unfold Progress.place
  split
  · split
    · exact ⟨rfl, [], undivided_nil, rfl⟩
    · exact refl_of Passed p
  · exact refl_of Passed p

/-- A declaration that is read ends in front of a semicolon or a brace that it does not pass, unless it drops a
template. -/
theorem declaration_eq_ok {a : Unit} (h : declaration registered p = .ok a q) (hp : ¬ OpensInTemplate p.stream) :
    p.Passed q := by
  unfold declaration at h
  obtain ⟨property, p₁, hproperty, h⟩ := bind_eq_ok.mp h
  have hpassed := plain_property.of_ok (R := Passed) hproperty
  obtain ⟨k, p₂, hkind, h⟩ := bind_eq_ok.mp h
  cases hkind
  generalize hk : p₁.stream.kind = k at h
  split at h
  · rcases templateDeclaration_eq_ok h with h | ⟨hdepth, hskip⟩
    · exact hpassed.trans h
    refine hpassed.trans ⟨hdepth, ?_⟩
    rw [hskip]
    refine p₁.stream.undivided_skipDeclaration.resolve_right ?_
    rintro ⟨is, opening, t, his, hopening, hs⟩
    obtain ⟨name, before, colon, behind, hname, hbefore, hcolon, hbehind, hstream⟩ := property_eq_ok hproperty
    cases is with
    | nil =>
      rw [hs] at hk
      exact absurd (hopening.symm.trans hk) nofun
    | cons row is =>
      rw [hs] at hk
      refine hp ⟨_, is, opening, ⟨name, before, colon, behind, row, rfl, hname, hbefore, hcolon, hbehind, _, hk⟩,
        (List.forall_mem_cons.mp his).2, hopening, [], t, ?_⟩
      rw [hstream, hs]
      simp
  · obtain ⟨items, p₂, hvalue, h⟩ := bind_eq_ok.mp h
    have hpassed := hpassed.trans (value_eq_ok hvalue)
    simp only at h
    split_ifs at h
    · obtain ⟨_, p₃, hplace, h⟩ := bind_eq_ok.mp h
      cases hplace
      cases h
      obtain ⟨hdepth, hitems⟩ := hpassed.trans (passed_place p₂ items)
      exact ⟨hdepth, hitems⟩
    · cases h
      exact ⟨hpassed.depth, hpassed.passed⟩

/-- A declaration that cannot be read fails before it ends. -/
theorem declaration_eq_error {e : SyntaxError} (h : declaration registered p = .error e q) : p.Passed q := by
  unfold declaration at h
  rcases bind_eq_error.mp h with h | ⟨property, p₁, hproperty, h⟩
  · exact plain_property.of_error h
  have hpassed := plain_property.of_ok (R := Passed) hproperty
  rcases bind_eq_error.mp h with h | ⟨k, p₂, hkind, h⟩
  · cases h
  cases hkind
  generalize p₁.stream.kind = k at h
  split at h
  · exact absurd h templateDeclaration_ne_error
  · rcases bind_eq_error.mp h with h | ⟨items, p₂, hvalue, h⟩
    · exact hpassed.trans (value_eq_error h)
    · simp only at h
      split_ifs at h <;> cases h

end Reader

end SlotGrid.Style
