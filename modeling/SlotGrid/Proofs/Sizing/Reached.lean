import SlotGrid.Proofs.Sizing.Columns
import SlotGrid.Proofs.Sizing.Rows

/-! # The states of a grid

A grid is built from rows, named, given elements, and sized any number of times. All of its states are sound.
-/

namespace SlotGrid

variable {ε α : Type} [Quantity α]

omit [Quantity α] in
/-- The slot without its element. -/
def GridSlot.detached (s : GridSlot ε α) : GridSlot ε α := { s with element := none }

namespace Grid

/-- The states of a grid whose widths are computed by measures of some kind. -/
inductive Reached (kind : Measure ε α → Prop) : Grid ε α → Prop
  | built {selector css : String} {rows : List Row} {widths : List Width} {t : Template}
      (h : Template.ofRows selector css rows widths = .ok t) : Reached kind (ofTemplate t)
  | named {g : Grid ε α} (id slotInfix : String) (hg : Reached kind g) : Reached kind (g.named id slotInfix)
  | attached {g : Grid ε α} (element : Option ε) (slots : List (GridSlot ε α)) (hg : Reached kind g)
      (h : slots.map GridSlot.detached = g.slots.map GridSlot.detached) :
      Reached kind { g with element, slots }
  | withColumns {g : Grid ε α} (hg : Reached kind g) : Reached kind g.withColumns
  | sizedColumns {g g' : Grid ε α} {m : Measure ε α} {config : Config} (hg : Reached kind g) (hm : kind m)
      (h : g.sizeColumns m config = .ok g') : Reached kind g'
  | sizedRows {g g' : Grid ε α} {m : Measure ε α} (hg : Reached kind g) (h : g.sizeRows m = .ok g') :
      Reached kind g'

variable {g : Grid ε α} {kind : Measure ε α → Prop}

omit [Quantity α] in
theorem map_slots_of_detached {slots : List (GridSlot ε α)} {β : Type}
    (h : slots.map GridSlot.detached = g.slots.map GridSlot.detached) (f : GridSlot ε α → β)
    (hf : ∀ s, f s.detached = f s) : slots.map f = g.slots.map f := by
  have hmap := congrArg (List.map f) h
  simpa only [List.map_map, Function.comp_def, hf] using hmap

omit [Quantity α] in
theorem template_attached (element : Option ε) {slots : List (GridSlot ε α)}
    (h : slots.map GridSlot.detached = g.slots.map GridSlot.detached) :
    template { g with element, slots } = g.template := by
  have hslots := map_slots_of_detached h GridSlot.toSlot fun _ => rfl
  unfold template
  rw [hslots]

theorem Sound.attached (hg : g.Sound) (element : Option ε) {slots : List (GridSlot ε α)}
    (h : slots.map GridSlot.detached = g.slots.map GridSlot.detached) :
    Sound { g with element, slots } :=
  hg.of_template (template_attached element h) rfl

theorem Reached.sound (hg : g.Reached kind) : g.Sound := by
  induction hg with
  | built h => exact sound_ofTemplate (Template.partitioned_of_ofRows h)
  | named id slotInfix _ ih => exact ih.named id slotInfix
  | attached element slots _ h ih => exact ih.attached element h
  | withColumns _ ih => exact ih.withColumns
  | sizedColumns _ _ h ih => exact ih.of_sizeColumns h
  | sizedRows _ h ih => exact ih.of_sizeRows h

/-- The template of a grid is the one that was built. -/
theorem Reached.exists_ofRows (hg : g.Reached kind) :
    ∃ selector css rows widths, Template.ofRows selector css rows widths = .ok g.template := by
  induction hg with
  | built h =>
    rw [template_ofTemplate]
    exact ⟨_, _, _, _, h⟩
  | @named g id slotInfix _ ih => rwa [template_named]
  | attached element slots _ h ih => rwa [template_attached element h]
  | withColumns _ ih => exact ih
  | sizedColumns _ _ h ih =>
    obtain ⟨container, widths, -, -, rfl⟩ := eq_widened h
    rwa [template_widened]
  | sizedRows hg h ih =>
    obtain ⟨container, -, rfl⟩ := eq_heightened hg.sound h
    rwa [template_heightened]

/-! ## Elements for all slots -/

omit [Quantity α] in
/-- The grid with an element for itself and for all of its slots. -/
def occupied (e : ε) (g : Grid ε α) : Grid ε α :=
  { g with element := some e, slots := g.slots.map fun s => { s with element := some e } }

omit [Quantity α] in
theorem materialized_occupied (e : ε) (g : Grid ε α) : (g.occupied e).Materialized := by
  refine ⟨rfl, fun s' hs' _ => ?_⟩
  obtain ⟨s, _, rfl⟩ := List.mem_map.mp hs'
  rfl

theorem Reached.occupied (e : ε) (hg : g.Reached kind) : (g.occupied e).Reached kind := by
  refine hg.attached (some e) _ ?_
  rw [List.map_map]
  rfl

end Grid

end SlotGrid
