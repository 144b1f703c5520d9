import SlotGrid.Proofs.Document.Edits

/-! # Elements of slots

A grid that gets elements has those that are found for its id and for the names of its slots. Every slot has been
registered with an element of its own, and an element has one id only. So no element is that of two slots, in grids with
different ids or in the same grid.
-/

namespace SlotGrid

/-- The elements that the slots of a grid have. -/
def Grid.slotElements {ε α : Type} (g : Grid ε α) : List ε := g.slots.filterMap GridSlot.element

theorem Grid.slotElements_eq {ε α : Type} (g : Grid ε α) :
    g.slotElements = (g.slots.map GridSlot.element).reduceOption := by
  unfold slotElements List.reduceOption
  rw [List.filterMap_map]
  rfl

theorem Grid.mem_slotElements {ε α : Type} {g : Grid ε α} {x : ε} :
    x ∈ g.slotElements ↔ some x ∈ g.slots.map GridSlot.element := by
  rw [slotElements_eq, List.reduceOption_mem_iff]

namespace Document

variable {α : Type} {d d' : Document} {e x : ElementId} {g g' : Grid ElementId α} {gs : List (Grid ElementId α)}

/-- The elements of a grid are those that are found for it. -/
structure Houses (d : Document) (g : Grid ElementId α) : Prop where
  template : ∀ {e}, g.element = some e → ∃ container, d.templateIn? container g.id = some e
  slots : ∀ {s x}, s ∈ g.slots → s.element = some x → ∃ e, g.element = some e ∧ d.slotIn? e s.name = some x

/-! ## Grids that get elements -/

theorem Houses.keeps (h : d.Houses g) (hkeeps : d.Keeps (· = g.id) d') : d'.Houses g := by
  constructor
  · intro e he
    obtain ⟨container, hcontainer⟩ := h.template he
    exact ⟨container, hkeeps.template rfl hcontainer⟩
  · intro s x hs hx
    obtain ⟨e, he, hslot⟩ := h.slots hs hx
    exact ⟨e, he, hkeeps.slot hslot⟩

theorem slotIn?_materializeSlots {template : ElementId} {ss : List (GridSlot ElementId α)} {s : GridSlot ElementId α}
    (hs : s ∈ (d.materializeSlots template ss).2) (hx : s.element = some x) :
    (d.materializeSlots template ss).1.slotIn? template s.name = some x := by
  induction ss generalizing d with
  | nil => cases hs
  | cons t ss ih =>
    rcases List.mem_cons.mp hs with rfl | hs
    · cases hx
      exact (keeps_materializeSlots _ template ss).slot (slotIn?_withSlot d template t.name t.id)
    · exact ih hs

theorem houses_materialize (helement : g.element = none) (hslots : ∀ s ∈ g.slots, s.element = none) :
    (d.materialize g).1.Houses (d.materialize g).2 := by
  unfold materialize
  split
  · refine ⟨fun he => ?_, fun {s} _ hs hx => ?_⟩
    · cases helement.symm.trans he
    · cases (hslots s hs).symm.trans hx
  · rename_i container _
    refine ⟨fun he => ?_, fun hs hx => ⟨_, rfl, slotIn?_materializeSlots hs hx⟩⟩
    cases he
    exact ⟨container, (keeps_materializeSlots _ _ _).template trivial (templateIn?_withTemplate d container g.id)⟩

theorem id_materialize (d : Document) (g : Grid ElementId α) : (d.materialize g).2.id = g.id := by
  unfold materialize
  split <;> rfl

theorem map_id_materializeAll (d : Document) (gs : List (Grid ElementId α)) :
    (d.materializeAll gs).2.map Grid.id = gs.map Grid.id := by
  induction gs generalizing d with
  | nil => rfl
  | cons g gs ih => exact congrArg₂ List.cons (id_materialize d g) (ih _)

/-- Grids with different ids that have no elements so far get what is found for them at the end. -/
theorem houses_materializeAll (hids : (gs.map Grid.id).Nodup)
    (hbare : ∀ g ∈ gs, g.element = none ∧ ∀ s ∈ g.slots, s.element = none) :
    ∀ g ∈ (d.materializeAll gs).2, (d.materializeAll gs).1.Houses g := by
  induction gs generalizing d with
  | nil => exact nofun
  | cons g gs ih =>
    obtain ⟨hid, hids⟩ := List.nodup_cons.mp hids
    obtain ⟨⟨helement, hslots⟩, hbare⟩ := List.forall_mem_cons.mp hbare
    refine List.forall_mem_cons.mpr ⟨?_, ih hids hbare⟩
    refine (houses_materialize helement hslots).keeps ((keeps_materializeAll (d.materialize g).1 gs).mono ?_)
    rintro id rfl
    rwa [id_materialize]

theorem Houses.placeAll (h : d.Houses g) (ps : List Style.Position) : (d.placeAll ps).Houses g := by
  rw [placeAll_eq_moveAll]
  exact h.keeps ((keeps_moveAll fun m hm => isContent_of_mem_moves hm).mono fun _ _ => trivial)

/-! ## Different slots -/

theorem id_of_templateIn? {container : ElementId} {id : String} (h : d.templateIn? container id = some e) :
    (d.get? e).bind Element.id = some id := by
  have hfound := List.find?_some h
  obtain ⟨x, hx, hrole⟩ := (Option.any_eq_true _ _).mp hfound
  rw [hx]
  exact (of_decide_eq_true hrole).2

/-- An element is that of one slot at most. -/
theorem Houses.unique (honce : (d.slots.map SlotEntry.element).Nodup) (hg : d.Houses g) (hg' : d.Houses g')
    {s s' : GridSlot ElementId α} (hs : s ∈ g.slots) (hs' : s' ∈ g'.slots) (hx : s.element = some x)
    (hx' : s'.element = some x) : g.id = g'.id ∧ s.name = s'.name := by
  obtain ⟨e, he, hslot⟩ := hg.slots hs hx
  obtain ⟨e', he', hslot'⟩ := hg'.slots hs' hx'
  have hentry := List.inj_on_of_nodup_map honce (exists_of_slotIn? hslot) (exists_of_slotIn? hslot') rfl
  obtain ⟨rfl, hname, -⟩ := SlotEntry.mk.inj hentry
  obtain ⟨container, hcontainer⟩ := hg.template he
  obtain ⟨container', hcontainer'⟩ := hg'.template he'
  exact ⟨Option.some.inj ((id_of_templateIn? hcontainer).symm.trans (id_of_templateIn? hcontainer')), hname⟩

theorem nodup_slotElements (honce : (d.slots.map SlotEntry.element).Nodup) (hids : (gs.map Grid.id).Nodup)
    (hgs : ∀ g ∈ gs, d.Houses g) (hnames : ∀ g ∈ gs, (g.slots.map (·.name)).Nodup) :
    (gs.flatMap Grid.slotElements).Nodup := by
  refine List.nodup_flatMap.mpr ⟨fun g hg => ?_, ?_⟩
  · refine List.pairwise_filterMap.mpr ((List.pairwise_map.mp (hnames g hg)).imp_of_mem ?_)
    rintro s s' hs hs' hne x hx _ hx' rfl
    exact hne ((hgs g hg).unique honce (hgs g hg) hs hs' hx hx').2
  · refine (List.pairwise_map.mp hids).imp_of_mem ?_
    intro g g' hg hg' hne x hx hx'
    obtain ⟨s, hs, hx⟩ := List.mem_filterMap.mp hx
    obtain ⟨s', hs', hx'⟩ := List.mem_filterMap.mp hx'
    exact hne ((hgs g hg).unique honce (hgs g' hg') hs hs' hx hx').1

end Document

end SlotGrid
