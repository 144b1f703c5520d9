import SlotGrid.Proofs.Document.Relayout
import SlotGrid.Proofs.Document.SlotElements

/-! # Widths of slots

The widths that a document keeps are those of slots. While grids are sized one after another, the width that is kept for
the slot of a grid stays the one that this grid has computed. So a grid in that slot lies in just this width.
-/

namespace SlotGrid

namespace Grid

variable {ε α : Type} [Quantity α] {m : Measure ε α} {config : Config} {g g' : Grid ε α}

theorem slotElements_of_sizeColumns (h : g.sizeColumnsIfMaterialized m config = .ok g') :
    g'.slotElements = g.slotElements := by
  rw [slotElements_eq, slotElements_eq, map_element_sizeColumnsIfMaterialized h]

/-- A width pass leaves a width for every slot. -/
theorem exists_width_of_sizeColumns (h : g.sizeColumns m config = .ok g') {s : GridSlot ε α} (hs : s ∈ g'.slots) :
    ∃ w, s.width = some w := by
  obtain ⟨container, widths, -, -, rfl⟩ := eq_widened h
  rw [slots_widened] at hs
  obtain ⟨t, -, rfl⟩ := List.mem_map.mp hs
  exact ⟨_, rfl⟩

end Grid

namespace Document

variable {config : Config} {d d' : Document} {e x : ElementId} {g : Grid ElementId Float}
  {gs gs' : List (Grid ElementId Float)}

/-! ## What an element lies in -/

def isSlot (d : Document) (x : ElementId) : Bool := d.slots.any (·.element = x)

/-- The nearest of an element and those above it that has a width of its own or is that of a slot. -/
def nearestSized? (d : Document) (e : ElementId) : Option ElementId :=
  (e :: d.ancestors e).find? fun x => (d.ownWidth? x).isSome || d.isSlot x

theorem nearestSized?_congr (h : d.SameContent d') (e : ElementId) : d'.nearestSized? e = d.nearestSized? e := by
  unfold nearestSized? isSlot
  simp only [h.ancestors_eq, h.ownWidth?_eq, h.slots]

/-- What lies in a slot without a width of its own is as wide as is kept for the slot. -/
theorem widthAround_of_nearestSized? (hwidths : ∀ x, (d.slotWidth? x).isSome → d.isSlot x = true)
    (hnearest : d.nearestSized? e = some x) (hown : d.ownWidth? x = none) {w : Float32} (hw : d.slotWidth? x = some w) :
    d.widthAround e = w := by
  obtain ⟨-, front, rest, heq, hfront⟩ := List.find?_eq_some_iff_append.mp hnearest
  have hnone : front.findSome? (fun y => (d.ownWidth? y).or (d.slotWidth? y)) = none := by
    refine List.findSome?_eq_none_iff.mpr fun y hy => ?_
    obtain ⟨howny, hsloty⟩ : d.ownWidth? y = none ∧ d.isSlot y = false := by simpa using hfront y hy
    rw [howny, Option.none_or, ← Option.not_isSome_iff_eq_none]
    intro hsome
    rw [hwidths y hsome] at hsloty
    cases hsloty
  unfold widthAround
  rw [heq, List.findSome?_append, hnone, Option.none_or, List.findSome?_cons, hown, hw]
  rfl

/-! ## Width passes one after another -/

theorem slotWidth?_keepSlotWidths (hnodup : g.slotElements.Nodup) {s : GridSlot ElementId Float} (hs : s ∈ g.slots)
    (hx : s.element = some x) {w : Float} (hw : s.width = some w) :
    (d.keepSlotWidths g).slotWidth? x = some w.toFloat32 := by
  obtain ⟨front, rest, hslots⟩ := List.append_of_mem hs
  have hlater : some x ∉ rest.map GridSlot.element := by
    intro hmem
    obtain ⟨t, ht, htx⟩ := List.mem_map.mp hmem
    unfold Grid.slotElements at hnodup
    rw [hslots, List.filterMap_append, List.filterMap_cons_some hx, List.nodup_append] at hnodup
    exact (List.nodup_cons.mp hnodup.2.1).1 (List.mem_filterMap.mpr ⟨t, ht, htx⟩)
  -- the slots behind this one are those of a grid that has no others
  have hrest : ∀ d' : Document, (d'.keepSlotWidths { g with slots := rest }).slotWidth? x = d'.slotWidth? x := fun _ =>
    slotWidth?_keepSlotWidths_of_not_mem hlater
  unfold keepSlotWidths at hrest ⊢
  rw [hslots, List.foldl_append, List.foldl_cons, hrest, hx, hw]
  exact (lookup_put ..).trans (if_pos rfl)

/-- The width of a slot stays kept while the grids behind its own are sized. -/
theorem slotWidth?_sizeColumns (h : d.sizeColumns config gs = .ok (d', gs'))
    (hnodup : (gs.flatMap Grid.slotElements).Nodup) (hg : g ∈ gs') (hmat : g.isMaterialized = true)
    {s : GridSlot ElementId Float} (hs : s ∈ g.slots) (hx : s.element = some x) {w : Float} (hw : s.width = some w) :
    d'.slotWidth? x = some w.toFloat32 := by
  induction gs generalizing d gs' with
  | nil =>
    cases h
    cases hg
  | cons g₀ gs ih =>
    obtain ⟨g', gs₁, hg', hrest, rfl⟩ := sizeColumns_cons_eq_ok.mp h
    rw [List.flatMap_cons, List.nodup_append] at hnodup
    obtain ⟨hhead, htail, hdisjoint⟩ := hnodup
    rcases List.mem_cons.mp hg with rfl | hg
    · have hslots := Grid.slotElements_of_sizeColumns hg'
      rw [if_pos hmat] at hrest
      refine (slotWidth?_sizeColumns_of_not_mem hrest fun g₁ hg₁ hmem => ?_).trans
        (slotWidth?_keepSlotWidths (hslots ▸ hhead) hs hx hw)
      have hown : x ∈ g₀.slotElements := hslots ▸ List.mem_filterMap.mpr ⟨s, hs, hx⟩
      exact hdisjoint x hown x (List.mem_flatMap.mpr ⟨g₁, hg₁, Grid.mem_slotElements.mpr hmem⟩) rfl
    · exact ih hrest htail hg

/-- What the grids in front come to, what a grid among others comes to, and the document in between. -/
theorem exists_sizeColumns_take (h : d.sizeColumns config gs = .ok (d', gs')) {i : ℕ} (hg : gs'[i]? = some g) :
    ∃ now g₀, d.sizeColumns config (gs.take i) = .ok (now, gs'.take i) ∧ gs[i]? = some g₀ ∧
      g₀.sizeColumnsIfMaterialized now.measure config = .ok g := by
  induction gs generalizing d gs' i with
  | nil =>
    cases h
    cases hg
  | cons g₀ gs ih =>
    obtain ⟨g', gs₁, hg', hrest, rfl⟩ := sizeColumns_cons_eq_ok.mp h
    cases i with
    | zero =>
      cases hg
      exact ⟨d, g₀, rfl, rfl, hg'⟩
    | succ i =>
      obtain ⟨now, g₁, hfront, hat, hsized⟩ := ih hrest hg
      exact ⟨now, g₁, sizeColumns_cons_eq_ok.mpr ⟨g', _, hg', hfront, rfl⟩, hat, hsized⟩

/-- Grids that are sized were sized in some document. -/
theorem exists_of_mem_sizeColumns (h : d.sizeColumns config gs = .ok (d', gs')) (hg : g ∈ gs') :
    ∃ now, ∃ g₀ ∈ gs, g₀.sizeColumnsIfMaterialized (measure now) config = .ok g := by
  obtain ⟨i, hi⟩ := List.mem_iff_getElem?.mp hg
  obtain ⟨now, g₀, -, hat, hsized⟩ := exists_sizeColumns_take h hi
  exact ⟨now, g₀, List.mem_of_getElem? hat, hsized⟩

/-- Widths are kept for the slots of the grids, and for those that they were kept for before. -/
theorem isSlot_of_sizeColumns (h : d.sizeColumns config gs = .ok (d', gs')) (hgs : ∀ g ∈ gs, d.Houses g)
    (hwidths : ∀ x, (d.slotWidth? x).isSome → d.isSlot x = true) (hx : (d'.slotWidth? x).isSome) :
    d.isSlot x = true := by
  by_cases hmem : ∃ g ∈ gs, some x ∈ g.slots.map GridSlot.element
  · obtain ⟨g, hg, hmem⟩ := hmem
    obtain ⟨s, hs, hsx⟩ := List.mem_map.mp hmem
    obtain ⟨e, -, hslot⟩ := (hgs g hg).slots hs hsx
    exact List.any_eq_true.mpr ⟨_, exists_of_slotIn? hslot, decide_eq_true rfl⟩
  · rw [slotWidth?_sizeColumns_of_not_mem h fun g hg hxg => hmem ⟨g, hg, hxg⟩] at hx
    exact hwidths x hx

/-! ## Tables of slots -/

/-- Every slot has an element of its own, and widths are kept for these elements only. -/
structure Tracked (d : Document) : Prop where
  known : ∀ s ∈ d.slots, d.Has s.element
  once : (d.slots.map SlotEntry.element).Nodup
  slotWidths : ∀ x, (d.slotWidth? x).isSome → d.isSlot x = true

namespace Tracked

theorem empty (config : Config) : (Document.empty config).Tracked := ⟨nofun, List.nodup_nil, nofun⟩

/-- Elements may be added, moved and changed in every way. -/
theorem of_eq (h : d.Tracked) (hsize : d.size ≤ d'.size) (hslots : d'.slots = d.slots)
    (hwidths : d'.slotWidths = d.slotWidths) : d'.Tracked := by
  refine ⟨fun s hs => Nat.lt_of_lt_of_le (h.known s (hslots ▸ hs)) hsize, hslots ▸ h.once, fun x hx => ?_⟩
  unfold slotWidth? at hx
  rw [hwidths] at hx
  unfold isSlot
  rw [hslots]
  exact h.slotWidths x hx

theorem insert (h : d.Tracked) (x : Element) : (d.insert x).Tracked := h.of_eq (by simp [size, Document.insert]) rfl rfl

theorem insertUnder (h : d.Tracked) (x : Element) (p : ElementId) : (d.insertUnder x p).Tracked :=
  (h.insert x).of_eq le_rfl rfl rfl

theorem addStyle (h : d.Tracked) (text : String) : (d.addStyle text).Tracked := h.of_eq le_rfl rfl rfl

theorem placeAll (h : d.Tracked) (ps : List Style.Position) : (d.placeAll ps).Tracked := by
  obtain ⟨links, hlinks⟩ := exists_moveAll d (d.moves ps)
  rw [placeAll_eq_moveAll, hlinks]
  exact h.of_eq le_rfl rfl rfl

/-- A slot is registered with the element that is new. -/
theorem insertSlot (h : d.Tracked) (x : Element) (template : ElementId) (name : Char) :
    ((d.insertUnder x template).addSlot ⟨template, name, d.nextId⟩).Tracked := by
  have hinserted := h.insertUnder x template
  refine ⟨fun s hs => ?_, ?_, fun y hy => ?_⟩
  · rcases List.mem_append.mp hs with hs | hs
    · exact hinserted.known s hs
    · obtain rfl := List.mem_singleton.mp hs
      exact (has_insertUnder x template).mpr (.inr rfl)
  · change ((d.slots ++ [_]).map SlotEntry.element).Nodup
    rw [List.map_append, List.nodup_append]
    refine ⟨h.once, List.nodup_singleton _, ?_⟩
    rintro e he e' he' rfl
    obtain ⟨s, hs, rfl⟩ := List.mem_map.mp he
    exact ne_nextId_of_has (h.known s hs) (List.mem_singleton.mp he')
  · obtain ⟨s, hs, hsy⟩ := List.any_eq_true.mp (h.slotWidths y hy)
    exact List.any_eq_true.mpr ⟨s, List.mem_append_left _ hs, hsy⟩

theorem materializeAll {α : Type} (h : d.Tracked) (gs : List (Grid ElementId α)) : (d.materializeAll gs).1.Tracked :=
  materializeAll_induction (fun x p hd => hd.insertUnder x p) (fun x t name hd => hd.insertSlot x t name) h gs

theorem sizeColumns (h : d.Tracked) (hsizes : d.sizeColumns config gs = .ok (d', gs')) (hgs : ∀ g ∈ gs, d.Houses g) :
    d'.Tracked := by
  have hslots := fun x => isSlot_of_sizeColumns (x := x) hsizes hgs h.slotWidths
  obtain ⟨slotWidths, rfl, -⟩ := exists_of_sizeColumns hsizes
  exact ⟨h.known, h.once, hslots⟩

/-- What lies in a slot of a grid that is sized lies in the width that the grid has computed for the slot. -/
theorem exists_widthAround_eq (h : d.Tracked) (hsizes : d.sizeColumns config gs = .ok (d', gs'))
    (hgs : ∀ g ∈ gs, d.Houses g) (hnodup : (gs.flatMap Grid.slotElements).Nodup)
    (hnearest : d.nearestSized? e = some x) (hown : d.ownWidth? x = none) (hg : g ∈ gs')
    {s : GridSlot ElementId Float} (hs : s ∈ g.slots) (hx : s.element = some x) :
    ∃ w, s.width = some w ∧ d'.widthAround e = w.toFloat32 := by
  obtain ⟨now, g₀, hg₀, hsized⟩ := exists_of_mem_sizeColumns hsizes hg
  have hmat : g₀.isMaterialized = true := by
    have hmem := Grid.map_element_sizeColumnsIfMaterialized hsized ▸ List.mem_map_of_mem (f := GridSlot.element) hs
    obtain ⟨s₀, hs₀, hsame⟩ := List.mem_map.mp hmem
    obtain ⟨e₀, he₀, -⟩ := (hgs g₀ hg₀).slots hs₀ (hsame.trans hx)
    exact Option.isSome_iff_exists.mpr ⟨e₀, he₀⟩
  have hmat' : g.isMaterialized = true :=
    (congrArg Option.isSome (Grid.element_sizeColumnsIfMaterialized hsized)).trans hmat
  obtain ⟨w, hw⟩ := Grid.exists_width_of_sizeColumns ((if_pos hmat).symm.trans hsized) hs
  have hkept := slotWidth?_sizeColumns hsizes hnodup hg hmat' hs hx hw
  obtain ⟨slotWidths, hd', -⟩ := exists_of_sizeColumns hsizes
  have hcontent : d.SameContent d' := hd' ▸ sameContent_slotWidths d slotWidths
  refine ⟨w, hw, widthAround_of_nearestSized? (h.sizeColumns hsizes hgs).slotWidths ?_ ?_ hkept⟩
  · rwa [nearestSized?_congr hcontent]
  · rwa [hcontent.ownWidth?_eq]

end Tracked

end Document

end SlotGrid
