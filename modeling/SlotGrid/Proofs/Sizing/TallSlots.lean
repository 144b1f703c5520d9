import SlotGrid.Proofs.Sizing.RowHeights

/-! # Fitting a tall slot

A slot of several rows whose content is taller than they are makes those of them grow that may, each in proportion
to its height. So they end up exactly as tall as the content, and nothing else changes.
-/

namespace SlotGrid

/-- Rows that have grown, where they may, by an amount that depends on their heights. -/
def RowsGrownBy (gain : Exact → Exact) : List (GridRow Exact) → List (GridRow Exact) → Prop :=
  List.Forall₂ fun r r' => r.height.mayGrow = true → r'.computed = r.computed + gain r.computed

theorem RowsGrownBy.refl {gain : Exact → Exact} {rows : List (GridRow Exact)}
    (h : ∀ r ∈ rows, r.computed + gain r.computed = r.computed) : RowsGrownBy gain rows rows :=
  List.forall₂_same.mpr fun r hr _ => (h r hr).symm

namespace Slot

variable {s : Slot} {content : Exact} {rows rows' : List (GridRow Exact)}

/-! ## Shares -/

section Shares

variable {c p : ℚ} {hs : List ℚ} {x : Exact}

/-- In rows that have a height every share is the same part of it. -/
theorem portion_of_pos (hp : s.spannedHeight rows = .finite p)
    (hhs : (s.growingRows rows).map GridRow.computed = hs.map .finite) (hsum : 0 < hs.sum) (hx : x.IsSize) :
    s.portion (.finite c) rows x = .finite ((c - p) / hs.sum) * x := by
  obtain ⟨q, -, rfl⟩ := hx
  rw [portion_finite hp hhs, shareOfExcess, if_pos hsum, mul_div_right_comm, Exact.finite_mul_finite]

/-- In rows without a height all shares are the same. -/
theorem portion_of_sum_eq_zero (hp : s.spannedHeight rows = .finite p)
    (hhs : (s.growingRows rows).map GridRow.computed = hs.map .finite) (hsum : hs.sum = 0) (hx : x.IsSize) :
    s.portion (.finite c) rows x = .finite ((c - p) / hs.length) := by
  obtain ⟨q, -, rfl⟩ := hx
  rw [portion_finite hp hhs, shareOfExcess, if_neg hsum.not_gt]

theorem sum_pos_of_growingRows (hnonneg : ∀ q ∈ hs, 0 ≤ q)
    (hhs : (s.growingRows rows).map GridRow.computed = hs.map .finite)
    (h : ∃ r ∈ s.growingRows rows, r.computed ≠ 0) : 0 < hs.sum := by
  obtain ⟨r, hmem, hne⟩ := h
  have hmem' : r.computed ∈ hs.map Exact.finite := hhs ▸ List.mem_map_of_mem hmem
  obtain ⟨q, hq, heq⟩ := List.mem_map.mp hmem'
  have hq_ne : q ≠ 0 := by
    rintro rfl
    exact hne heq.symm
  exact ((hnonneg q hq).lt_of_ne hq_ne.symm).trans_le (List.single_le_sum hnonneg q hq)

theorem sum_eq_zero_of_growingRows (hhs : (s.growingRows rows).map GridRow.computed = hs.map .finite)
    (h : ∀ r ∈ s.growingRows rows, r.computed = 0) : hs.sum = 0 := by
  refine List.sum_eq_zero fun q hq => ?_
  have hmem : Exact.finite q ∈ (s.growingRows rows).map GridRow.computed := hhs ▸ List.mem_map_of_mem hq
  obtain ⟨r, hmem, heq⟩ := List.mem_map.mp hmem
  rw [h r hmem, Exact.zero_eq, Exact.finite.injEq] at heq
  exact heq.symm

end Shares

/-! ## Rows under a slot -/

/-- What fitting a slot with content of some height makes of rows. Rows only grow, and only those under the slot that
may. These have room for the content afterwards, and each has grown in proportion to its height, or all alike where
none had any. -/
structure Fits (s : Slot) (content : Exact) (rows rows' : List (GridRow Exact)) : Prop where
  raised : RowsRaised rows rows'
  outside : ∀ i, ¬ s.SpansRow i → rows'[i]? = rows[i]?
  total : (∃ r ∈ s.spannedRows rows, r.height.mayGrow = true) →
    s.spannedHeight rows' = max content (s.spannedHeight rows)
  proportional : (∃ r ∈ s.growingRows rows, r.computed ≠ 0) →
    ∃ rate : ℚ, 0 ≤ rate ∧ RowsGrownBy (.finite rate * ·) (s.spannedRows rows) (s.spannedRows rows')
  alike : (∀ r ∈ s.growingRows rows, r.computed = 0) →
    ∃ share : ℚ, 0 ≤ share ∧ RowsGrownBy (fun _ => .finite share) (s.spannedRows rows) (s.spannedRows rows')
  kept : (∀ r ∈ s.spannedRows rows, r.height.mayGrow = false) → rows' = rows

/-- Rows that have room for the content stay as they are. -/
theorem fits_self (hr : RowsSized rows) (h : content ≤ s.spannedHeight rows) : s.Fits content rows rows := by
  constructor
  case raised => exact .refl rows
  case outside => exact fun _ _ => rfl
  case total => exact fun _ => (max_eq_right h).symm
  case proportional =>
    refine fun _ => ⟨0, le_rfl, .refl fun r hmem => ?_⟩
    obtain ⟨q, -, hq⟩ := isSize_spannedRows hr r hmem
    rw [hq, Exact.finite_mul_finite, Exact.finite_add_finite, zero_mul, add_zero]
  case alike => exact fun _ => ⟨0, le_rfl, .refl fun r _ => add_zero r.computed⟩
  case kept => exact fun _ => rfl

theorem mem_spannedRows (hpos : 0 < s.rowspan) {i : ℕ} (hi : s.SpansRow i) {r : GridRow Exact}
    (hr : rows[i]? = some r) : r ∈ s.spannedRows rows := by
  obtain ⟨hle, hend⟩ := hi
  unfold endRow at hend
  apply List.mem_of_getElem? (i := i - s.row)
  unfold spannedRows
  rw [List.getElem?_take_of_lt (by omega), List.getElem?_drop, Nat.add_sub_cancel' hle, hr]

/-- Rows of which none may grow stay as they are, whatever they lack. -/
theorem growRows_of_fixed (hpos : 0 < s.rowspan) (hfixed : ∀ r ∈ s.spannedRows rows, r.height.mayGrow = false) :
    s.growRows content rows = rows := by
  by_cases h : content ≤ s.spannedHeight rows
  · exact if_pos h
  · rw [growRows_of_lt h]
    refine List.ext_getElem (List.length_mapIdx ..) fun i _ hi => ?_
    rw [List.getElem_mapIdx]
    refine if_neg fun ⟨hspan, hgrow⟩ => ?_
    rw [hfixed _ (mem_spannedRows hpos hspan (List.getElem?_eq_getElem hi))] at hgrow
    cases hgrow

theorem getElem?_growRows_of_outside {i : ℕ} (hi : ¬ s.SpansRow i) : (s.growRows content rows)[i]? = rows[i]? := by
  by_cases h : content ≤ s.spannedHeight rows
  · rw [growRows, if_pos h]
  · rw [growRows_of_lt h, List.getElem?_mapIdx]
    simp [hi]

theorem rowsGrownBy_growRows (h : ¬ content ≤ s.spannedHeight rows) {gain : Exact → Exact}
    (hgain : ∀ r ∈ s.spannedRows rows, s.portion content rows r.computed = gain r.computed) :
    RowsGrownBy gain (s.spannedRows rows) (s.spannedRows (s.growRows content rows)) := by
  rw [spannedRows_growRows h, RowsGrownBy, List.forall₂_map_right_iff, List.forall₂_same]
  intro r hr hgrow
  rw [if_pos hgrow, ← hgain r hr]

theorem fits_growRows (hpos : 0 < s.rowspan) (hr : RowsSized rows) (hc : content.IsSize) :
    s.Fits content rows (s.growRows content rows) := by
  by_cases h : content ≤ s.spannedHeight rows
  · rw [growRows, if_pos h]
    exact fits_self hr h
  obtain ⟨c, p, hs, rfl, hp, hlt, hnonneg, hhs⟩ := s.exists_excess hr hc h
  have hexcess : 0 ≤ c - p := sub_nonneg.mpr hlt.le
  constructor
  case raised => exact raised_growRows hr hc
  case outside => exact fun i hi => getElem?_growRows_of_outside hi
  case total =>
    rintro ⟨r, hmem, hgrow⟩
    have hne : s.growingRows rows ≠ [] := List.ne_nil_of_mem (List.mem_filter.mpr ⟨hmem, hgrow⟩)
    rw [spannedHeight_growRows hr hc h hne, max_eq_left (not_le.mp h).le]
  case proportional =>
    intro hsome
    have hsum : 0 < hs.sum := sum_pos_of_growingRows hnonneg hhs hsome
    refine ⟨(c - p) / hs.sum, div_nonneg hexcess hsum.le, rowsGrownBy_growRows h fun r hmem => ?_⟩
    exact portion_of_pos hp hhs hsum (isSize_spannedRows hr r hmem)
  case alike =>
    intro hzero
    have hsum : hs.sum = 0 := sum_eq_zero_of_growingRows hhs hzero
    refine ⟨(c - p) / hs.length, div_nonneg hexcess (Nat.cast_nonneg _), rowsGrownBy_growRows h fun r hmem => ?_⟩
    exact portion_of_sum_eq_zero hp hhs hsum (isSize_spannedRows hr r hmem)
  case kept => exact growRows_of_fixed hpos

end Slot

namespace Content

theorem fittedHeight_eq_max {ε : Type} (c : Content ε Exact) (rows : List (GridRow Exact)) :
    c.fittedHeight rows = max c.height (c.slot.spannedHeight rows) := by
  unfold fittedHeight
  simp only []
  split_ifs with h
  · exact (max_eq_right h).symm
  · exact (max_eq_left (not_le.mp h).le).symm

/-- Fitting a slot of several rows never lowers a row and changes none of a given height and none outside of the slot.
Rows of the slot that may grow do so in proportion to their heights, or alike if they have none, until its content has
room. The slot is as tall as its content or its rows were, whichever is more. -/
theorem tall_slot_fitted {ε : Type} {c : Content ε Exact} {rows : List (GridRow Exact)} (ht : 1 < c.slot.rowspan)
    (hr : RowsSized rows) (hc : c.height.IsSize) (fitted : List (Content ε Exact)) :
    ∃ rows', fit (rows, fitted) c =
        (rows', fitted ++ [{ c with slot.height := max c.height (c.slot.spannedHeight rows) }]) ∧
      c.slot.Fits c.height rows rows' := by
  refine ⟨c.slot.growRows c.height rows, ?_, Slot.fits_growRows (by omega) hr hc⟩
  have htall : c.isTall = true := decide_eq_true ht
  rw [← fittedHeight_eq_max]
  simp [fit, htall]

/-- A slot of three rows with content that is taller than they are. -/
def tall : Content Unit Exact where
  slot := { Slot.mk 'a' 0 0 3 1 2 0 with id := "", element := some (), extent := none, width := none, height := 0 }
  height := .finite 100

/-- A `*` row, a row of automatic height and one of a given height. -/
def mixedRows : List (GridRow Exact) :=
  [⟨⟨['a'], .equal⟩, .finite 20⟩, ⟨⟨['a'], .auto⟩, .finite 10⟩, ⟨⟨['a'], .length ⟨15, .px⟩⟩, .finite 15⟩]

theorem tall_slot_fitted_mixedRows :
    1 < tall.slot.rowspan ∧ RowsSized mixedRows ∧ tall.height.IsSize ∧
      ∃ rows', fit (mixedRows, []) tall = (rows', [{ tall with slot.height := .finite 100 }]) ∧
        rows'.map GridRow.computed = [.finite (170 / 3), .finite (85 / 3), .finite 15] ∧
        tall.slot.spannedHeight rows' = .finite 100 ∧ tall.slot.Fits tall.height mixedRows rows' := by
  have hr : RowsSized mixedRows := by
    intro r hr
    simp only [mixedRows, List.mem_cons, List.not_mem_nil, or_false] at hr
    rcases hr with rfl | rfl | rfl
    · exact ⟨20, by decide, rfl⟩
    · exact ⟨10, by decide, rfl⟩
    · exact ⟨15, by decide, rfl⟩
  have hc : tall.height.IsSize := ⟨100, by decide, rfl⟩
  have hmax : max tall.height (tall.slot.spannedHeight mixedRows) = .finite 100 := by decide +kernel
  obtain ⟨rows', hfit, hfits⟩ := tall_slot_fitted (c := tall) (by decide) hr hc []
  rw [hmax, List.nil_append] at hfit
  have hrows : rows' = (fit (mixedRows, []) tall).1 := (congrArg Prod.fst hfit).symm
  refine ⟨by decide, hr, hc, rows', hfit, ?_, ?_, hfits⟩
  · rw [hrows]
    decide +kernel
  · exact (hfits.total ⟨_, List.mem_cons_self, rfl⟩).trans hmax

end Content

end SlotGrid
