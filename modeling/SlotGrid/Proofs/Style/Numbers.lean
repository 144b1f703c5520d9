import SlotGrid.Proofs.Style.Declared

/-! # Numbers of templates

A declaration that defines a template carries its number. The number is given when the template is registered, in the
middle of a rule that may still declare the property again or be dropped, so not every template has a declaration. But
a number that a declaration carries is that of its own template, and no other declaration carries it.
-/

namespace SlotGrid.Style

/-- The template whose number a declaration carries is its own: templates `ts` are numbered from `registered` on. -/
def Declaration.Links (selector : String) (registered : ℕ) (ts : List Template) (d : Declaration) : Prop :=
  ∀ i, d.template = some i → d.property = "display" ∧
    ∃ k t, i = registered + k ∧ ts[k]? = some t ∧ t.selector = selector ∧ t.css = d.value

/-- The numbers that the declarations of a rule carry. -/
def Rule.numbers (r : Rule) : List ℕ := r.declarations.toList.filterMap Declaration.template

theorem Declaration.Links.append {selector : String} {registered : ℕ} {ts : List Template} {d : Declaration}
    (h : d.Links selector registered ts) (ts' : List Template) : d.Links selector registered (ts ++ ts') := by
  intro i hi
  obtain ⟨hproperty, k, t, hk, ht, hselector, hcss⟩ := h i hi
  refine ⟨hproperty, k, t, hk, ?_, hselector, hcss⟩
  rw [List.getElem?_append_left (List.getElem?_eq_some_iff.mp ht).1]
  exact ht

namespace Progress

variable {registered first : ℕ} {p q : Progress}

/-! ## In a block -/

/-- The declarations of the rule that is being read have different properties, and those that carry numbers link to
templates that were registered after the `first` ones. -/
structure BlockLinked (registered first : ℕ) (p : Progress) : Prop where
  first_le : first ≤ p.templates.length
  properties : (p.declarations.toList.map Declaration.property).Nodup
  links : ∀ d ∈ p.declarations.toList, d.Links p.selector registered p.templates
  le_number : ∀ d ∈ p.declarations.toList, ∀ i, d.template = some i → registered + first ≤ i

theorem BlockLinked.congr (h : p.BlockLinked registered first) (hselector : q.selector = p.selector)
    (hdeclarations : q.declarations = p.declarations) (htemplates : q.templates = p.templates) :
    q.BlockLinked registered first := by
  obtain ⟨hfirst, hproperties, hlinks, hnumber⟩ := h
  constructor
  · rwa [htemplates]
  · rwa [hdeclarations]
  · rwa [hdeclarations, hselector, htemplates]
  · rwa [hdeclarations]

/-- A declaration is added to those that do not have its property. -/
theorem BlockLinked.declare (h : p.BlockLinked registered first) {d : Declaration}
    (hlinks : d.Links p.selector registered p.templates)
    (hnumber : ∀ i, d.template = some i → registered + first ≤ i) : (p.declare d).BlockLinked registered first where
  first_le := h.first_le
  properties := Keyed.nodup_put Declaration.property h.properties
  links d' hd' := by
    rcases (Keyed.mem_put Declaration.property h.properties).mp hd' with rfl | ⟨hd', -⟩
    · exact hlinks
    · exact h.links d' hd'
  le_number d' hd' := by
    rcases (Keyed.mem_put Declaration.property h.properties).mp hd' with rfl | ⟨hd', -⟩
    · exact hnumber
    · exact h.le_number d' hd'

theorem BlockLinked.register (h : p.BlockLinked registered first) (t : Template) :
    BlockLinked registered first { p with templates := p.templates ++ [t] } where
  first_le := by
    simp only [List.length_append, List.length_singleton]
    have := h.first_le
    omega
  properties := h.properties
  links d hd := (h.links d hd).append [t]
  le_number := h.le_number

def KeepsLinks (registered first : ℕ) (p q : Progress) : Prop :=
  p.BlockLinked registered first → q.BlockLinked registered first

instance : IsPreorder Progress (KeepsLinks registered first) where
  refl _ := id
  trans _ _ _ h h' := h' ∘ h

theorem Moved.keepsLinks (h : p.Moved q) : KeepsLinks registered first p q := by
  unfold Moved at h
  intro hp
  rw [h]
  exact hp.congr rfl rfl rfl

instance : BlockFrame registered (KeepsLinks registered first) where
  of_advanced h := h.moved.keepsLinks
  of_report _ _ hp := hp.congr rfl rfl rfl
  of_declare := by
    intro p p' q q' name items hproperty hvalue hq' hp
    have hmoved := trans_of Moved (Reader.moved_property.of_ok hproperty) (Reader.moved_value.of_ok hvalue)
    have hq : q.BlockLinked registered first := hmoved.keepsLinks hp
    have hq' : q'.BlockLinked registered first := by
      rcases hq' with rfl | rfl
      · exact hq
      · refine hq.congr ?_ ?_ ?_
        all_goals
          unfold Progress.place
          split
          · split <;> rfl
          · rfl
    exact hq'.declare nofun nofun
  of_define := by
    intro p p' q rows widths t hproperty hdefinition ht hp
    have hp' : p'.BlockLinked registered first := (Reader.moved_property.of_ok hproperty).keepsLinks hp
    have hmoved : p'.Moved q := Reader.moved_templateDefinition.of_ok hdefinition
    have htemplates : q.templates = p'.templates := hmoved.unregistered.templates
    obtain ⟨-, slots, rfl, -⟩ := Template.ofRows_eq_ok.mp ht
    refine ((hmoved.keepsLinks hp').register _).declare ?_ ?_
    · rintro i ⟨⟩
      have hdisplay : "display".toLower = "display" := by cbv
      refine ⟨hdisplay, p'.templates.length,
        .filled q.selector (valueText p'.stream.declarationItems) rows widths slots, rfl, ?_, rfl, rfl⟩
      simp [htemplates]
    · rintro i ⟨⟩
      have := hp'.first_le
      omega

/-- A rule that is kept carries only numbers of templates that were registered while it was read. -/
theorem blockLinked_of_rule? {r : Rule} (h : Reader.rule? registered p.fresh = .ok (some r) q) :
    q.BlockLinked registered p.templates.length ∧ r = ⟨q.selector, q.declarations⟩ := by
  obtain ⟨p', hopened, hr, hframe⟩ := Reader.exists_block_of_rule? h
  have hlinked : p'.BlockLinked registered p.templates.length := by
    have hempty : p'.declarations.toList = [] := by
      rw [hopened.declarations]
      rfl
    constructor
    · rw [hopened.templates]
      exact le_rfl
    all_goals simp [hempty]
  exact ⟨(hframe : KeepsLinks registered _ p' q) hlinked, hr⟩

theorem BlockLinked.nodup_numbers (h : p.BlockLinked registered first) :
    (Rule.numbers ⟨p.selector, p.declarations⟩).Nodup := by
  unfold Rule.numbers List.Nodup
  rw [List.pairwise_filterMap]
  refine (List.pairwise_map.mp h.properties).imp_of_mem ?_
  intro d d' hd hd' hne i hi j hj
  exact absurd ((h.links d hd i hi).1.trans (h.links d' hd' j hj).1.symm) hne

/-! ## In a text -/

/-- The declarations of all rules link to templates, and no two of them carry the same number. -/
structure Linked (registered : ℕ) (p : Progress) : Prop where
  links : ∀ r ∈ p.sheet.rules, ∀ d ∈ r.declarations.toList, d.Links r.selector registered p.templates
  nodup : (p.sheet.rules.flatMap Rule.numbers).Nodup

theorem mem_numbers {r : Rule} {i : ℕ} : i ∈ r.numbers ↔ ∃ d ∈ r.declarations.toList, d.template = some i :=
  List.mem_filterMap

theorem Linked.lt (h : p.Linked registered) {i : ℕ} (hi : i ∈ p.sheet.rules.flatMap Rule.numbers) :
    i < registered + p.templates.length := by
  obtain ⟨r, hr, hi⟩ := List.mem_flatMap.mp hi
  obtain ⟨d, hd, hi⟩ := mem_numbers.mp hi
  obtain ⟨-, k, t, rfl, ht, -⟩ := h.links r hr d hd i hi
  have := (List.getElem?_eq_some_iff.mp ht).1
  omega

theorem Linked.step (h : p.Linked registered) : (p.step registered).Linked registered := by
  obtain ⟨htemplates, -⟩ := templates_step registered p
  have hrules := rules_step registered p
  have hold : ∀ r ∈ p.sheet.rules, ∀ d ∈ r.declarations.toList,
      d.Links r.selector registered (p.step registered).templates := by
    intro r hr d hd
    rw [htemplates]
    exact (h.links r hr d hd).append _
  cases hkept : p.kept? registered with
  | none =>
    rw [hkept, Option.toList_none, List.append_nil] at hrules
    exact ⟨hrules ▸ hold, hrules ▸ h.nodup⟩
  | some r =>
    obtain ⟨q, hq⟩ := kept?_eq_some.mp hkept
    obtain ⟨hlinked, rfl⟩ := blockLinked_of_rule? hq
    have hq' : (p.step registered).templates = q.templates := by
      rw [step_of_rule hq]
    rw [hkept, Option.toList_some] at hrules
    constructor
    · rw [hrules, List.forall_mem_append, List.forall_mem_singleton]
      exact ⟨hold, hq' ▸ hlinked.links⟩
    · rw [hrules, List.flatMap_append, List.flatMap_singleton, List.nodup_append]
      refine ⟨h.nodup, hlinked.nodup_numbers, ?_⟩
      -- the numbers of the new rule begin where the old ones end
      rintro i hi _ hj rfl
      obtain ⟨d, hd, hi'⟩ := mem_numbers.mp hj
      have hlt := h.lt hi
      have hle := hlinked.le_number d hd i hi'
      omega

theorem Linked.finish (h : p.Linked registered) : (p.finish registered).Linked registered := by
  induction p using induction_step registered with
  | step p ih =>
    by_cases hlt : (p.step registered).stream.length < p.stream.length
    · rw [finish_of_lt hlt]
      exact ih hlt h.step
    · rw [finish_of_not_lt hlt]
      exact h.step

end Progress

/-- The numbers in the rules of a text are those of their own templates, and no two declarations share one. -/
theorem linked_parse (registered : ℕ) (text : String) :
    (∀ r ∈ (parse registered text).sheet.rules, ∀ d ∈ r.declarations.toList,
      d.Links r.selector registered (parse registered text).templates) ∧
      ((parse registered text).sheet.rules.flatMap Rule.numbers).Nodup := by
  have hstart : (Progress.start (.ofText text)).Linked registered := ⟨nofun, List.nodup_nil⟩
  exact ⟨hstart.finish.links, hstart.finish.nodup⟩

end SlotGrid.Style
