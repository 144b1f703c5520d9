import SlotGrid.Proofs.Document.Layout
import SlotGrid.Proofs.Document.Tree

/-! # Laying out again

A second layout of the same grids starts with the slot widths and regions that the first one ended with. It ends
with the same if every grid was as wide in the first as it is with those slot widths.
-/

namespace SlotGrid.Document

/-! ## Tables that are put again -/

section Tables

variable {β : Type} {final table table' : List (ElementId × β)}

theorem lookup_cons (e k : ElementId) (x : β) (table : List (ElementId × β)) :
    ((e, x) :: table).lookup k = if k = e then some x else table.lookup k := by
  rw [List.lookup_cons]
  by_cases hk : k = e
  · rw [if_pos hk, beq_iff_eq.mpr hk]
  · rw [if_neg hk, beq_eq_false_iff_ne.mpr hk]

theorem lookup_put (e k : ElementId) (x : β) (table : List (ElementId × β)) :
    (Keyed.put Prod.fst (e, x) table).lookup k = if k = e then some x else table.lookup k := by
  induction table with
  | nil => exact lookup_cons e k x []
  | cons y ys ih =>
    obtain ⟨i, y⟩ := y
    unfold Keyed.put
    by_cases hi : i = e
    · subst hi
      rw [if_pos rfl, lookup_cons, lookup_cons]
      split_ifs <;> rfl
    · rw [if_neg hi, lookup_cons, lookup_cons, ih]
      by_cases hk : k = i
      · subst hk
        rw [if_pos rfl, if_neg hi, if_pos rfl]
      · rw [if_neg hk, if_neg hk]

/-- The second of two passes over the same entries is as far as the first: its table has the entries of the final
one, but for those that the first pass has put so far. -/
def Ahead (final table table' : List (ElementId × β)) : Prop :=
  ∀ e, table'.lookup e = final.lookup e ∨ table'.lookup e = table.lookup e ∧ (table.lookup e).isSome

theorem Ahead.of_eq (h : ∀ e, table'.lookup e = final.lookup e) : Ahead final table table' := fun e => .inl (h e)

theorem Ahead.put (h : Ahead final table table') (e : ElementId) (x : β) :
    Ahead final (Keyed.put Prod.fst (e, x) table) (Keyed.put Prod.fst (e, x) table') := by
  intro k
  rw [lookup_put, lookup_put]
  split_ifs
  · exact .inr ⟨rfl, rfl⟩
  · exact h k

theorem Ahead.lookup_eq (h : Ahead final final table') (e : ElementId) : table'.lookup e = final.lookup e := by
  rcases h e with h | ⟨h, -⟩
  · exact h
  · exact h

end Tables

/-- The first entry on a way that counts is the same during the second pass as during the first, if it is the same
at the end. -/
theorem findSome?_getD_eq {β γ : Type} {now final again : β → Option γ}
    (hagain : ∀ x, again x = final x ∨ again x = now x ∧ (now x).isSome)
    (hfinal : ∀ x, (now x).isSome → (final x).isSome) {xs : List β} {y : γ}
    (h : (xs.findSome? now).getD y = (xs.findSome? final).getD y) :
    (xs.findSome? again).getD y = (xs.findSome? now).getD y := by
  induction xs with
  | nil => rfl
  | cons x xs ih =>
    simp only [List.findSome?_cons] at h ⊢
    cases hx : final x with
    | none =>
      have hnow : now x = none := by
        by_contra hne
        have hsome := hfinal x (Option.isSome_iff_ne_none.mpr hne)
        rw [hx] at hsome
        cases hsome
      have hnone : again x = none := by
        rcases hagain x with heq | ⟨heq, -⟩
        · rw [heq, hx]
        · rw [heq, hnow]
      rw [hx, hnow] at h
      rw [hnone, hnow]
      exact ih h
    | some z =>
      rw [hx] at h
      rcases hagain x with heq | ⟨heq, hsome⟩
      · rw [heq, hx]
        exact h.symm
      · obtain ⟨w, hw⟩ := Option.isSome_iff_exists.mp hsome
        rw [heq, hw]

/-! ## Width passes -/

variable {config : Config} {d d' final : Document} {g : Grid ElementId Float} {gs gs' : List (Grid ElementId Float)}

/-- Keeping slot widths changes nothing else. -/
theorem exists_keepSlotWidths (d : Document) (g : Grid ElementId Float) :
    ∃ slotWidths, d.keepSlotWidths g = { d with slotWidths } ∧
      ∀ e, (d.slotWidth? e).isSome → (slotWidths.lookup e).isSome := by
  refine List.foldlRecOn (motive := fun d' : Document => ∃ slotWidths, d' = { d with slotWidths } ∧
    ∀ e, (d.slotWidth? e).isSome → (slotWidths.lookup e).isSome) g.slots _ ⟨d.slotWidths, rfl, fun _ => id⟩ ?_
  rintro _ ⟨slotWidths, rfl, hsome⟩ s -
  split
  · refine ⟨_, rfl, fun e he => ?_⟩
    rw [lookup_put]
    split_ifs
    · rfl
    · exact hsome e he
  · exact ⟨slotWidths, rfl, hsome⟩

theorem sameContent_slotWidths (d : Document) (slotWidths : List (ElementId × Float32)) :
    d.SameContent { d with slotWidths } := ⟨rfl, fun _ => rfl, fun _ => rfl, rfl, rfl, rfl, rfl⟩

theorem sameContent_regions (d : Document) (regions : List (ElementId × Region Float32)) :
    d.SameContent { d with regions } := ⟨rfl, fun _ => rfl, fun _ => rfl, rfl, rfl, rfl, rfl⟩

theorem widthAround_regions (d : Document) (regions : List (ElementId × Region Float32)) :
    ({ d with regions } : Document).widthAround = d.widthAround :=
  funext ((sameContent_regions d regions).widthAround_eq fun _ => rfl)

/-- Sizing columns changes slot widths only, and none of them is lost. -/
theorem exists_of_sizeColumns (h : d.sizeColumns config gs = .ok (d', gs')) :
    ∃ slotWidths, d' = { d with slotWidths } ∧ ∀ e, (d.slotWidth? e).isSome → (slotWidths.lookup e).isSome := by
  induction gs generalizing d gs' with
  | nil =>
    cases h
    exact ⟨_, rfl, fun _ => id⟩
  | cons g gs ih =>
    obtain ⟨g', gs₁, -, hrest, -⟩ := sizeColumns_cons_eq_ok.mp h
    obtain ⟨slotWidths, hd, hsome⟩ := ih hrest
    split_ifs at hd hsome
    · obtain ⟨slotWidths', hd', hsome'⟩ := exists_keepSlotWidths d g'
      refine ⟨slotWidths, by rw [hd, hd'], fun e he => hsome e ?_⟩
      rw [hd']
      exact hsome' e he
    · exact ⟨slotWidths, hd, hsome⟩

/-- The widths that the grids lie in when their columns are sized. -/
def widthsAround (config : Config) (d : Document) : List (Grid ElementId Float) → List (Option Float32)
  | [] => []
  | g :: gs => g.element.map d.widthAround ::
    match g.sizeColumnsIfMaterialized d.measure config with
    | .ok g => (if g.isMaterialized then d.keepSlotWidths g else d).widthsAround config gs
    | .error _ => []

/-- The second of two layouts is as far as the first one, which leads to `final`. -/
structure Again (final d d' : Document) : Prop where
  content : d.SameContent d'
  ahead : Ahead final.slotWidths d.slotWidths d'.slotWidths

theorem Again.keepSlotWidths (h : Again final d d') (g : Grid ElementId Float) :
    Again final (d.keepSlotWidths g) (d'.keepSlotWidths g) := by
  unfold Document.keepSlotWidths
  generalize g.slots = ss
  induction ss generalizing d d' with
  | nil => exact h
  | cons s ss ih =>
    refine ih ?_
    dsimp only
    split
    · exact ⟨{ h.content with }, h.ahead.put _ _⟩
    · exact h

/-- A grid that is as wide as at the end is that wide in both layouts. -/
theorem Again.widthAround_eq (h : Again final d d') (hcontent : d.SameContent final)
    (hsome : ∀ e, (d.slotWidth? e).isSome → (final.slotWidth? e).isSome) {e : ElementId}
    (he : d.widthAround e = final.widthAround e) : d'.widthAround e = d.widthAround e := by
  unfold widthAround at he ⊢
  rw [hcontent.ancestors_eq, hcontent.viewport] at he
  rw [h.content.ancestors_eq, h.content.viewport]
  refine findSome?_getD_eq (fun x => ?_) (fun x hx => ?_) he
  · rw [h.content.ownWidth?_eq, hcontent.ownWidth?_eq]
    cases d.ownWidth? x with
    | none => exact h.ahead x
    | some w => exact .inl rfl
  · rw [hcontent.ownWidth?_eq]
    cases hown : d.ownWidth? x with
    | none =>
      rw [hown] at hx
      exact hsome x hx
    | some w => rfl

theorem sizeColumns_again (h : d.sizeColumns config gs = .ok (final, gs')) (hagain : Again final d d')
    (haround : d.widthsAround config gs = gs.map (·.element.map final.widthAround)) :
    ∃ final', d'.sizeColumns config gs = .ok (final', gs') ∧ Again final final final' := by
  induction gs generalizing d d' gs' with
  | nil =>
    cases h
    exact ⟨d', rfl, hagain⟩
  | cons g gs ih =>
    obtain ⟨slotWidths, hfinal, hsome⟩ := exists_of_sizeColumns h
    obtain ⟨g', gs₁, hg, hrest, rfl⟩ := sizeColumns_cons_eq_ok.mp h
    unfold widthsAround at haround
    obtain ⟨hwidth, haround⟩ := List.cons.inj haround
    rw [hg] at haround
    have hwidth' : ∀ e, g.element = some e → d'.widthAround e = d.widthAround e := by
      intro e he
      simp only [he, Option.map_some, Option.some.injEq] at hwidth
      refine hagain.widthAround_eq ?_ (fun e he => ?_) hwidth
      · rw [hfinal]
        exact sameContent_slotWidths d slotWidths
      · rw [hfinal]
        exact hsome e he
    have hg' : g.sizeColumnsIfMaterialized d'.measure config = .ok g' := by
      rw [← hg]
      refine Grid.sizeColumnsIfMaterialized_congr config g hagain.content.preferred_eq hagain.content.minimum_eq ?_
      intro e he
      simp only [measure, hwidth' e he, hagain.content.unitSize_eq, implies_true, and_self]
    have hnext : Again final (if g'.isMaterialized then d.keepSlotWidths g' else d)
        (if g'.isMaterialized then d'.keepSlotWidths g' else d') := by
      split_ifs
      · exact hagain.keepSlotWidths g'
      · exact hagain
    obtain ⟨final', hfinal', hend⟩ := ih hrest hnext haround
    exact ⟨final', sizeColumns_cons_eq_ok.mpr ⟨g', gs₁, hg', hfinal', rfl⟩, hend⟩

/-! ## Regions -/

/-- The second of two layouts has set as many regions as the first one, which leads to `final`. -/
structure Applied (final d d' : Document) : Prop where
  content : d.SameContent d'
  slotWidth : ∀ e, d'.slotWidth? e = d.slotWidth? e
  ahead : Ahead final.regions d.regions d'.regions

theorem Applied.setRegion (h : Applied final d d') (e : ElementId) (r : Region Float32) :
    Applied final (d.setRegion e r) (d'.setRegion e r) := ⟨{ h.content with }, h.slotWidth, h.ahead.put e r⟩

theorem applyGrid_again (h : Applied final d d') {d₁ : Document} (hg : d.applyGrid g = .ok d₁) :
    ∃ d₁', d'.applyGrid g = .ok d₁' ∧ Applied final d₁ d₁' := by
  unfold applyGrid at hg ⊢
  cases he : g.element with
  | none =>
    rw [he] at hg
    cases hg
    exact ⟨d', rfl, h⟩
  | some e =>
    rw [he] at hg
    refine Checked.exists_foldlM_related (fun {d d' d₁ s} h hs => ?_) (h.setRegion e _) hg
    obtain ⟨_, horigin, hs⟩ := Checked.bind_eq_ok.mp hs
    split at hs
    · cases hs
      exact ⟨_, Checked.bind_eq_ok.mpr ⟨_, horigin, rfl⟩, h.setRegion _ _⟩
    · cases hs
      exact ⟨_, Checked.bind_eq_ok.mpr ⟨_, horigin, rfl⟩, h⟩

theorem applyGrids_again (h : Applied final d d') {d₁ : Document} (hgs : d.applyGrids gs = .ok d₁) :
    ∃ d₁', d'.applyGrids gs = .ok d₁' ∧ Applied final d₁ d₁' :=
  Checked.exists_foldlM_related (fun h hg => applyGrid_again h hg) h hgs

theorem exists_of_applyGrids {d₁ : Document} (h : d.applyGrids gs = .ok d₁) : ∃ regions, d₁ = { d with regions } := by
  refine Checked.of_foldlM (P := fun d' : Document => ∃ regions, d' = { d with regions }) ?_ ⟨d.regions, rfl⟩ h
  rintro _ d₁ g ⟨regions, rfl⟩ hg
  unfold applyGrid at hg
  split at hg
  · cases hg
    exact ⟨regions, rfl⟩
  · refine Checked.of_foldlM (P := fun d' : Document => ∃ regions, d' = { d with regions }) ?_ ⟨_, rfl⟩ hg
    rintro _ d₂ s ⟨regions, rfl⟩ hs
    obtain ⟨_, -, hs⟩ := Checked.bind_eq_ok.mp hs
    split at hs
    · cases hs
      exact ⟨_, rfl⟩
    · cases hs
      exact ⟨regions, rfl⟩

/-! ## Layouts -/

/-- A layout changes slot widths and regions only. -/
theorem exists_of_layOut (h : d.layOut config gs = .ok (d', gs')) :
    ∃ slotWidths regions, d' = { d with slotWidths, regions } := by
  obtain ⟨d₁, gs₁, hcolumns, -, happly⟩ := layOut_eq_ok.mp h
  obtain ⟨slotWidths, rfl, -⟩ := exists_of_sizeColumns hcolumns
  obtain ⟨regions, rfl⟩ := exists_of_applyGrids happly
  exact ⟨slotWidths, regions, rfl⟩

theorem sameContent_layOut (h : d.layOut config gs = .ok (d', gs')) : d.SameContent d' := by
  obtain ⟨slotWidths, regions, rfl⟩ := exists_of_layOut h
  exact (sameContent_slotWidths d slotWidths).trans (sameContent_regions _ regions)

/-- A second layout of the same grids ends with the same, if every grid is as wide at the end of the first as it was
when its columns were sized. -/
theorem layOut_again (h : d.layOut config gs = .ok (final, gs')) (hcontent : d.SameContent d')
    (hslotWidth : ∀ e, d'.slotWidth? e = final.slotWidth? e) (hregion : ∀ e, d'.region? e = final.region? e)
    (haround : d.widthsAround config gs = gs.map (·.element.map final.widthAround)) :
    ∃ final', d'.layOut config gs = .ok (final', gs') ∧ final.Same final' := by
  obtain ⟨d₁, gs₁, hcolumns, hrows, happly⟩ := layOut_eq_ok.mp h
  obtain ⟨regions, hfinal⟩ := exists_of_applyGrids happly
  have haround' : d.widthsAround config gs = gs.map (·.element.map d₁.widthAround) := by
    rw [haround, hfinal, widthAround_regions d₁ regions]
  have hagain : Again d₁ d d' := ⟨hcontent, .of_eq fun e => by rw [hfinal] at hslotWidth; exact hslotWidth e⟩
  obtain ⟨d₁', hcolumns', hend⟩ := sizeColumns_again hcolumns hagain haround'
  have hwidths : ∀ e, d₁'.slotWidth? e = d₁.slotWidth? e := hend.ahead.lookup_eq
  have hregions : d₁'.regions = d'.regions := by
    obtain ⟨slotWidths, hd, -⟩ := exists_of_sizeColumns hcolumns'
    rw [hd]
  have happlied : Applied final d₁ d₁' :=
    ⟨hend.content, hwidths, .of_eq fun e => by rw [hregions]; exact hregion e⟩
  obtain ⟨final', happly', hsame⟩ := applyGrids_again happlied happly
  refine ⟨final', ?_, { hsame.content with region := hsame.ahead.lookup_eq, slotWidth := hsame.slotWidth }⟩
  refine layOut_eq_ok.mpr ⟨d₁', gs₁, hcolumns', ?_, happly'⟩
  rw [hend.content.measure_eq hwidths]
  exact hrows

/-! ## Templates in no slot -/

theorem slotWidth?_keepSlotWidths_of_not_mem {e : ElementId} (he : some e ∉ g.slots.map GridSlot.element) :
    (d.keepSlotWidths g).slotWidth? e = d.slotWidth? e := by
  unfold keepSlotWidths
  refine List.foldlRecOn (motive := fun d' : Document => d'.slotWidth? e = d.slotWidth? e) g.slots _ rfl ?_
  intro d' hd' s hs
  split
  · rename_i x w hx hw
    have hne : e ≠ x := by
      rintro rfl
      exact he (List.mem_map.mpr ⟨s, hs, hx⟩)
    refine (lookup_put x e _ _).trans ?_
    rw [if_neg hne]
    exact hd'
  · exact hd'

/-- Only the elements of slots get slot widths. -/
theorem slotWidth?_sizeColumns_of_not_mem (h : d.sizeColumns config gs = .ok (d', gs')) {e : ElementId}
    (he : ∀ g ∈ gs, some e ∉ g.slots.map GridSlot.element) : d'.slotWidth? e = d.slotWidth? e := by
  induction gs generalizing d gs' with
  | nil =>
    cases h
    rfl
  | cons g gs ih =>
    obtain ⟨g', gs₁, hg, hrest, -⟩ := sizeColumns_cons_eq_ok.mp h
    obtain ⟨hehead, hetail⟩ := List.forall_mem_cons.mp he
    refine (ih hrest hetail).trans ?_
    split_ifs
    · exact slotWidth?_keepSlotWidths_of_not_mem (Grid.map_element_sizeColumnsIfMaterialized hg ▸ hehead)
    · rfl

/-- No slot of the grids is around an element. -/
def OutsideSlots (d : Document) (gs : List (Grid ElementId Float)) (e : ElementId) : Prop :=
  ∀ x ∈ e :: d.ancestors e, ∀ g ∈ gs, some x ∉ g.slots.map GridSlot.element

theorem OutsideSlots.widthAround_eq {e : ElementId} (h : d.OutsideSlots gs e) (hcontent : d.SameContent d')
    (hwidths : ∀ x, (∀ g ∈ gs, some x ∉ g.slots.map GridSlot.element) → d'.slotWidth? x = d.slotWidth? x) :
    d'.widthAround e = d.widthAround e := by
  unfold OutsideSlots at h
  unfold widthAround
  rw [hcontent.ancestors_eq, hcontent.viewport]
  congr 1
  generalize e :: d.ancestors e = xs at h
  induction xs with
  | nil => rfl
  | cons x xs ih =>
    obtain ⟨hx, hxs⟩ := List.forall_mem_cons.mp h
    rw [List.findSome?_cons, List.findSome?_cons, hcontent.ownWidth?_eq, hwidths x hx, ih hxs]

theorem OutsideSlots.mono {gs₁ gs₂ : List (Grid ElementId Float)} {e : ElementId} (h : d.OutsideSlots gs₁ e)
    (hgs : gs₂ ⊆ gs₁) (hcontent : d.SameContent d') : d'.OutsideSlots gs₂ e := by
  intro x hx g hg
  rw [hcontent.ancestors_eq] at hx
  exact h x hx g (hgs hg)

/-- Grids that lie in no slot of each other are as wide when their columns are sized as at the end. -/
theorem widthsAround_of_outside (h : d.sizeColumns config gs = .ok (final, gs'))
    (houtside : ∀ g ∈ gs, ∀ e, g.element = some e → d.OutsideSlots gs e) :
    d.widthsAround config gs = gs.map (·.element.map final.widthAround) := by
  induction gs generalizing d gs' with
  | nil => rfl
  | cons g gs ih =>
    obtain ⟨slotWidths, hfinal, -⟩ := exists_of_sizeColumns h
    have hwidth : ∀ e, g.element = some e → final.widthAround e = d.widthAround e := by
      intro e he
      refine (houtside g List.mem_cons_self e he).widthAround_eq ?_ fun x hx => ?_
      · rw [hfinal]
        exact sameContent_slotWidths d slotWidths
      · exact slotWidth?_sizeColumns_of_not_mem h hx
    obtain ⟨g', gs₁, hg, hrest, -⟩ := sizeColumns_cons_eq_ok.mp h
    have hcontent : d.SameContent (if g'.isMaterialized then d.keepSlotWidths g' else d) := by
      split_ifs
      · obtain ⟨slotWidths', hkeep, -⟩ := exists_keepSlotWidths d g'
        rw [hkeep]
        exact sameContent_slotWidths d slotWidths'
      · exact .refl d
    have htail := ih hrest fun g hg e he =>
      (houtside g (List.mem_cons_of_mem _ hg) e he).mono (List.subset_cons_self _ _) hcontent
    unfold widthsAround
    rw [hg, List.map_cons, ← htail]
    congr 1
    cases he : g.element with
    | none => rfl
    | some e => exact congrArg some (hwidth e he).symm

theorem widthsAround_layOut_of_outside (h : d.layOut config gs = .ok (final, gs'))
    (houtside : ∀ g ∈ gs, ∀ e, g.element = some e → d.OutsideSlots gs e) :
    d.widthsAround config gs = gs.map (·.element.map final.widthAround) := by
  obtain ⟨d₁, gs₁, hcolumns, -, happly⟩ := layOut_eq_ok.mp h
  obtain ⟨regions, rfl⟩ := exists_of_applyGrids happly
  rw [widthsAround_of_outside hcolumns houtside, widthAround_regions d₁ regions]

end SlotGrid.Document
