import SlotGrid.Proofs.Document.Edits

/-! # Created elements

Materializing grids adds elements behind those that are there. All of them are bare boxes for templates and slots, so
authored content stays what it was, and a selector that asks for more than such a box has selects content only.
-/

namespace SlotGrid

/-- A box for a template or a slot: it has no classes, and an id as the grids have them. -/
structure Element.Generated (P : String → Prop) (x : Element) : Prop where
  role : x.role ≠ .content
  tag : x.tag = "div"
  classes : x.classes = []
  id : ∃ id, x.id = some id ∧ P id

namespace Document

variable {α : Type} {P : String → Prop} {d d' d'' : Document} {e : ElementId}

/-- All elements but the authored ones are boxes. -/
def Boxed (P : String → Prop) (d : Document) : Prop := ∀ x ∈ d.elements, x.role = .content ∨ x.Generated P

/-- Nothing but boxes was added to the elements. -/
def Creates (P : String → Prop) (d d' : Document) : Prop :=
  ∃ xs, d'.elements = d.elements ++ xs ∧ ∀ x ∈ xs, x.Generated P

namespace Creates

theorem refl (P : String → Prop) (d : Document) : d.Creates P d := ⟨[], (List.append_nil _).symm, nofun⟩

theorem trans (h : d.Creates P d') (h' : d'.Creates P d'') : d.Creates P d'' := by
  obtain ⟨xs, hxs, hboxes⟩ := h
  obtain ⟨ys, hys, hboxes'⟩ := h'
  exact ⟨xs ++ ys, by rw [hys, hxs, List.append_assoc], List.forall_mem_append.mpr ⟨hboxes, hboxes'⟩⟩

theorem mono {Q : String → Prop} (h : d.Creates P d') (hPQ : ∀ id, P id → Q id) : d.Creates Q d' := by
  obtain ⟨xs, hxs, hboxes⟩ := h
  refine ⟨xs, hxs, fun x hx => ?_⟩
  obtain ⟨hrole, htag, hclasses, id, hid, hP⟩ := hboxes x hx
  exact ⟨hrole, htag, hclasses, id, hid, hPQ id hP⟩

theorem boxed (h : d.Creates P d') (hd : d.Boxed P) : d'.Boxed P := by
  obtain ⟨xs, hxs, hboxes⟩ := h
  unfold Boxed
  rw [hxs]
  exact List.forall_mem_append.mpr ⟨hd, fun x hx => .inr (hboxes x hx)⟩

/-- No box is content, so there is as much content as before. -/
theorem isContent_eq (h : d.Creates P d') (e : ElementId) : d'.isContent e = d.isContent e := by
  obtain ⟨xs, hxs, hboxes⟩ := h
  unfold isContent get?
  rw [hxs, List.getElem?_append]
  split_ifs with hlt
  · rfl
  · rw [List.getElem?_eq_none (Nat.le_of_not_lt hlt), Option.any_none]
    cases hx : xs[e.index - d.elements.length]? with
    | none => rfl
    | some x => simpa using (hboxes x (List.mem_of_getElem? hx)).role

theorem role?_eq (h : d.Creates P d') (he : d.Has e) : d'.role? e = d.role? e := by
  obtain ⟨xs, hxs, -⟩ := h
  unfold role? get?
  rw [hxs, List.getElem?_append_left he]

end Creates

theorem creates_insertUnder {x : Element} (hx : x.Generated P) (parent : ElementId) :
    d.Creates P (d.insertUnder x parent) := ⟨[x], rfl, List.forall_mem_singleton.mpr hx⟩

theorem creates_withTemplate {id : String} (hid : P id) (container : ElementId) :
    d.Creates P (d.withTemplate container id).1 := by
  unfold withTemplate
  split
  · exact .refl P d
  · exact creates_insertUnder ⟨by simp, rfl, rfl, id, rfl, hid⟩ container

theorem creates_withSlot {id : String} (hid : P id) (template : ElementId) (name : Char) :
    d.Creates P (d.withSlot template name id).1 := by
  unfold withSlot
  split
  · exact .refl P d
  · exact creates_insertUnder ⟨by simp, rfl, rfl, id, rfl, hid⟩ template

theorem creates_materializeSlots {ss : List (GridSlot ElementId α)} (hss : ∀ s ∈ ss, P s.id) (template : ElementId) :
    d.Creates P (d.materializeSlots template ss).1 := by
  induction ss generalizing d with
  | nil => exact .refl P d
  | cons s ss ih =>
    obtain ⟨hs, hss⟩ := List.forall_mem_cons.mp hss
    exact (creates_withSlot hs template s.name).trans (ih hss)

theorem creates_materialize {g : Grid ElementId α} (hid : P g.id) (hslots : ∀ s ∈ g.slots, P s.id) :
    d.Creates P (d.materialize g).1 := by
  unfold materialize
  split
  · exact .refl P d
  · exact (creates_withTemplate hid _).trans (creates_materializeSlots hslots _)

theorem creates_materializeAll {gs : List (Grid ElementId α)} (hgs : ∀ g ∈ gs, P g.id ∧ ∀ s ∈ g.slots, P s.id) :
    d.Creates P (d.materializeAll gs).1 := by
  induction gs generalizing d with
  | nil => exact .refl P d
  | cons g gs ih =>
    obtain ⟨⟨hid, hslots⟩, hgs⟩ := List.forall_mem_cons.mp hgs
    exact (creates_materialize hid hslots).trans (ih hgs)

/-! ## Selectors of content -/

/-- Whether something is asked for that no box has: another type, a class, or an id that no grid has. -/
def Compound.Excludes (P : String → Prop) (c : Compound) : Prop :=
  (∃ tag, c.tag = some tag ∧ tag ≠ "div") ∨ c.classes ≠ [] ∨ ∃ id, c.id = some id ∧ ¬ P id

/-- Whether every alternative of a selector asks for something that no box has. -/
def AsksForContent (P : String → Prop) (selector : String) : Prop :=
  ∀ chains, Chain.readAll? selector = some chains → ∀ c ∈ chains, c.subject.Excludes P

theorem Compound.Excludes.holds_eq_false {c : Compound} {x : Element} (h : c.Excludes P) (hx : x.Generated P) :
    c.holds x = false := by
  obtain ⟨-, htag, hclasses, id, hid, hP⟩ := hx
  have hlower : "div".toLower = "div" := by decide +kernel
  unfold Compound.holds
  rcases h with ⟨tag, htag', hne⟩ | hne | ⟨id', hid', hP'⟩
  · simp [htag, htag', hlower, hne]
  · obtain ⟨name, names, hnames⟩ := List.exists_cons_of_ne_nil hne
    simp [hnames, Element.hasClass, hclasses]
  · have hdiffers : id ≠ id' := fun hsame => hP' (hsame ▸ hP)
    simp [hid, hid', hdiffers]

theorem isContent_of_mem_query (hd : d.Boxed P) {selector : String} (h : AsksForContent P selector)
    (he : e ∈ d.query selector) : d.isContent e = true := by
  unfold query at he
  cases hread : Chain.readAll? selector with
  | none => simp [hread] at he
  | some chains =>
    rw [hread] at he
    obtain ⟨chain, hchain, hholds⟩ := List.any_eq_true.mp (List.mem_filter.mp he).2
    obtain ⟨x, hx, hsubject⟩ := (Option.any_eq_true _ _).mp (Chain.any_subject_of_holds hholds)
    rcases hd x (List.mem_of_getElem? hx) with hrole | hbox
    · unfold isContent
      rw [hx, Option.any_some, decide_eq_true hrole]
    · rw [(h chains hread chain hchain).holds_eq_false hbox] at hsubject
      cases hsubject

end Document

end SlotGrid
