import SlotGrid.Proofs.Document.Moves

/-! # Elements that are used again

The element of a template stays the one that is found in its container, and the element of a slot the one that is
found in its template, whatever is created and placed later. So templates that find their containers again find all
of their elements.
-/

namespace SlotGrid.Document

variable {α : Type} {d d' d'' : Document} {container template e : ElementId} {id : String} {name : Char}

/-- What was found is found again: the elements of slots, and those of templates with certain ids. -/
structure Keeps (P : String → Prop) (d d' : Document) : Prop where
  template : ∀ {container id e}, P id → d.templateIn? container id = some e → d'.templateIn? container id = some e
  slot : ∀ {template name e}, d.slotIn? template name = some e → d'.slotIn? template name = some e

namespace Keeps

variable {P Q : String → Prop}

theorem refl (P : String → Prop) (d : Document) : d.Keeps P d := ⟨fun _ h => h, fun h => h⟩

theorem trans (h : d.Keeps P d') (h' : d'.Keeps P d'') : d.Keeps P d'' :=
  ⟨fun hid hd => h'.template hid (h.template hid hd), fun hd => h'.slot (h.slot hd)⟩

theorem mono (h : d.Keeps P d') (hPQ : ∀ id, Q id → P id) : d.Keeps Q d' := ⟨fun hid => h.template (hPQ _ hid), h.slot⟩

end Keeps

/-! ## Elements that are created -/

theorem get?_insertUnder (d : Document) (x : Element) (parent e : ElementId) :
    (d.insertUnder x parent).get? e = if e = d.nextId then some x else d.get? e := by
  change (d.elements ++ [x])[e.index]? = _
  by_cases he : e = d.nextId
  · subst he
    rw [if_pos rfl]
    exact List.getElem?_concat_length ..
  · have hne : e.index ≠ d.elements.length := fun h => he (congrArg ElementId.mk h)
    rw [if_neg he]
    unfold get?
    rw [List.getElem?_append]
    split_ifs with hlt
    · rfl
    · rw [List.getElem?_eq_none (by simp; omega), List.getElem?_eq_none (by omega)]

theorem get?_nextId (d : Document) : d.get? d.nextId = none := List.getElem?_eq_none le_rfl

theorem children_insertUnder (d : Document) (x : Element) (parent e : ElementId) :
    (d.insertUnder x parent).children e = d.children e ++ if parent = e then [d.nextId] else [] :=
  children_attach (d.insert x) d.nextId parent e

/-- A new element is the element of a template only if it was created for the template. -/
theorem templateIn?_insertUnder_of_ne {x : Element} (hx : ¬ (x.role = .template ∧ x.id = some id))
    (parent container : ElementId) :
    (d.insertUnder x parent).templateIn? container id = d.templateIn? container id := by
  have hsame : ∀ e, ((d.insertUnder x parent).get? e).any (fun e => decide (e.role = .template ∧ e.id = some id)) =
      (d.get? e).any fun e => decide (e.role = .template ∧ e.id = some id) := by
    intro e
    rw [get?_insertUnder]
    split_ifs with he
    · rw [he, get?_nextId, Option.any_some, Option.any_none, decide_eq_false hx]
    · rfl
  unfold templateIn?
  simp only [hsame]
  rw [children_insertUnder, List.find?_append]
  have hnew : (if parent = container then [d.nextId] else []).find? (fun e => (d.get? e).any fun e =>
      decide (e.role = .template ∧ e.id = some id)) = none := by
    split_ifs
    · simp [get?_nextId]
    · rfl
  rw [hnew, Option.or_none]

theorem templateIn?_insertUnder {x : Element} (hrole : x.role = .template) (hid : x.id = some id)
    (h : d.templateIn? container id = none) :
    (d.insertUnder x container).templateIn? container id = some d.nextId := by
  unfold templateIn? at h ⊢
  rw [List.find?_eq_none] at h
  cases hfind : ((d.insertUnder x container).children container).find? fun e =>
      ((d.insertUnder x container).get? e).any fun e => decide (e.role = .template ∧ e.id = some id) with
  | none =>
    rw [List.find?_eq_none] at hfind
    refine absurd ?_ (hfind d.nextId ?_)
    · simp [get?_insertUnder, hrole, hid]
    · simp [children_insertUnder]
  | some e =>
    have he := List.find?_some hfind
    have hmem := List.mem_of_find?_eq_some hfind
    by_contra hne
    have hne : e ≠ d.nextId := fun he => hne (congrArg some he)
    simp only [get?_insertUnder, if_neg hne] at he
    rw [children_insertUnder, if_pos rfl, List.mem_append, List.mem_singleton] at hmem
    exact h e (hmem.resolve_right hne) he

/-! ## Templates and slots -/

theorem templateIn?_withTemplate (d : Document) (container : ElementId) (id : String) :
    (d.withTemplate container id).1.templateIn? container id = some (d.withTemplate container id).2 := by
  unfold withTemplate
  split
  · assumption
  · rename_i h
    exact templateIn?_insertUnder rfl rfl h

theorem withTemplate_of_some (h : d.templateIn? container id = some e) : d.withTemplate container id = (d, e) := by
  unfold withTemplate
  rw [h]

theorem keeps_withTemplate (d : Document) (container : ElementId) (id : String) :
    d.Keeps (· ≠ id) (d.withTemplate container id).1 := by
  unfold withTemplate
  split
  · exact .refl _ d
  · refine ⟨fun hid h => ?_, fun h => h⟩
    rwa [templateIn?_insertUnder_of_ne fun hx => hid (Option.some.inj hx.2).symm]

theorem slotIn?_withSlot (d : Document) (template : ElementId) (name : Char) (id : String) :
    (d.withSlot template name id).1.slotIn? template name = some (d.withSlot template name id).2 := by
  unfold withSlot
  split
  · assumption
  · rename_i h
    unfold slotIn? at h ⊢
    rw [Option.map_eq_none_iff] at h
    change ((d.slots ++ [_]).find? _).map _ = _
    rw [List.find?_append, h, Option.none_or]
    simp

theorem withSlot_of_some (h : d.slotIn? template name = some e) (id : String) :
    d.withSlot template name id = (d, e) := by
  unfold withSlot
  rw [h]

theorem keeps_withSlot (d : Document) (template : ElementId) (name : Char) (id : String) :
    d.Keeps (fun _ => True) (d.withSlot template name id).1 := by
  unfold withSlot
  split
  · exact .refl _ d
  · refine ⟨fun _ h => ?_, fun h => ?_⟩
    · change (d.insertUnder _ template).templateIn? _ _ = _
      rwa [templateIn?_insertUnder_of_ne (by simp)]
    · unfold slotIn? at h ⊢
      change ((d.slots ++ [_]).find? _).map _ = _
      rw [Option.map_eq_some_iff] at h
      obtain ⟨s, hs, rfl⟩ := h
      rw [List.find?_append, hs]
      rfl

/-! ## Grids -/

theorem keeps_materializeSlots (d : Document) (template : ElementId) (ss : List (GridSlot ElementId α)) :
    d.Keeps (fun _ => True) (d.materializeSlots template ss).1 := by
  induction ss generalizing d with
  | nil => exact .refl _ d
  | cons s ss ih => exact (keeps_withSlot d template s.name s.id).trans (ih _)

theorem materializeSlots_again {ss : List (GridSlot ElementId α)}
    (h : (d.materializeSlots template ss).1.Keeps (fun _ => False) d') :
    d'.materializeSlots template ss = (d', (d.materializeSlots template ss).2) := by
  induction ss generalizing d with
  | nil => rfl
  | cons s ss ih =>
    have hlater := (keeps_materializeSlots (d.withSlot template s.name s.id).1 template ss).mono
      (Q := fun _ => False) (fun _ => False.elim)
    have hslot := (hlater.trans h).slot (slotIn?_withSlot d template s.name s.id)
    have hrest := ih (d := (d.withSlot template s.name s.id).1) h
    simp only [materializeSlots, withSlot_of_some hslot, hrest]

theorem keeps_materialize (d : Document) (g : Grid ElementId α) : d.Keeps (· ≠ g.id) (d.materialize g).1 := by
  unfold materialize
  split
  · exact .refl _ d
  · rename_i container _
    exact (keeps_withTemplate d container g.id).trans ((keeps_materializeSlots _ _ _).mono fun _ _ => trivial)

theorem keeps_materializeAll (d : Document) (gs : List (Grid ElementId α)) :
    d.Keeps (· ∉ gs.map Grid.id) (d.materializeAll gs).1 := by
  induction gs generalizing d with
  | nil => exact .refl _ d
  | cons g gs ih =>
    have hhead := (keeps_materialize d g).mono (Q := (· ∉ (g :: gs).map Grid.id)) fun id hid heq =>
      hid (heq ▸ List.mem_cons_self)
    exact hhead.trans ((ih _).mono fun id hid hmem => hid (List.mem_cons_of_mem _ hmem))

/-- A grid whose selector selects the same container finds its elements again. -/
theorem materialize_again {g : Grid ElementId α} (h : (d.materialize g).1.Keeps (· = g.id) d')
    (hcontainer : d'.queryOne? g.selector = d.queryOne? g.selector) :
    d'.materialize g = (d', (d.materialize g).2) := by
  unfold materialize at h ⊢
  rw [hcontainer]
  generalize d.queryOne? g.selector = o at h
  cases o with
  | none => rfl
  | some container =>
    have hslots := keeps_materializeSlots (d.withTemplate container g.id).1 (d.withTemplate container g.id).2 g.slots
    have htemplate := h.template rfl (hslots.template trivial (templateIn?_withTemplate d container g.id))
    have hagain := materializeSlots_again (h.mono (Q := fun _ => False) fun _ => False.elim)
    simp only [withTemplate_of_some htemplate, hagain]

/-- Moving content keeps what was found, since the elements of templates and slots are no content. -/
theorem keeps_moveAll {ms : List Link} (h : ∀ m ∈ ms, d.isContent m.child = true) :
    d.Keeps (fun _ => True) (d.moveAll ms) := by
  constructor
  · intro container id e _ he
    unfold templateIn? at he ⊢
    rw [children_moveAll, List.find?_append, List.find?_filter]
    simp only [get?_moveAll]
    have hkept : ∀ c, decide (decide (c ∉ ms.map Link.child) = true ∧
        ((d.get? c).any fun e => decide (e.role = .template ∧ e.id = some id)) = true) =
        (d.get? c).any fun e => decide (e.role = .template ∧ e.id = some id) := by
      intro c
      by_cases hc : c ∈ ms.map Link.child
      · obtain ⟨m, hm, rfl⟩ := List.mem_map.mp hc
        have hcontent := h m hm
        unfold isContent at hcontent
        cases hget : d.get? m.child with
        | none => simp
        | some x =>
          rw [hget] at hcontent
          have hrole : x.role = .content := by simpa using hcontent
          simp [hrole]
      · simp [hc]
    simp only [hkept, he, Option.some_or]
  · intro template name e he
    obtain ⟨links, hlinks⟩ := exists_moveAll d ms
    rw [hlinks]
    exact he

theorem SameContent.keeps (h : d.SameContent d') : d.Keeps (fun _ => True) d' := by
  constructor
  · intro container id e _ he
    unfold templateIn? at he ⊢
    simpa only [h.children, h.get?_eq] using he
  · intro template name e he
    unfold slotIn? at he ⊢
    rwa [h.slots]

/-- The containers that the selectors of grids select while the grids get elements. -/
def containers (d : Document) : List (Grid ElementId α) → List (Option ElementId)
  | [] => []
  | g :: gs => d.queryOne? g.selector :: (d.materialize g).1.containers gs

/-- Grids whose selectors select the same containers later on find all of their elements, and nothing is created. -/
theorem materializeAll_again {gs : List (Grid ElementId α)} (hids : (gs.map Grid.id).Nodup)
    (h : (d.materializeAll gs).1.Keeps (fun _ => True) d')
    (hcontainers : d.containers gs = gs.map (d'.queryOne? ·.selector)) :
    d'.materializeAll gs = (d', (d.materializeAll gs).2) := by
  induction gs generalizing d with
  | nil => rfl
  | cons g gs ih =>
    obtain ⟨hid, hids⟩ := List.nodup_cons.mp hids
    obtain ⟨hcontainer, hcontainers⟩ := List.cons.inj hcontainers
    have hlater := (keeps_materializeAll (d.materialize g).1 gs).mono (Q := (· = g.id)) fun id heq => heq ▸ hid
    have hagain := materialize_again (hlater.trans (h.mono fun _ _ => trivial)) hcontainer.symm
    have hrest := ih (d := (d.materialize g).1) hids h hcontainers
    simp only [materializeAll, hagain, hrest]

end SlotGrid.Document
