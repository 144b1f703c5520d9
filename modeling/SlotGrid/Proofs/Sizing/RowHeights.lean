import SlotGrid.Proofs.Sizing.ColumnWidths

/-! # Exact row heights

Through the height pass rows only grow. A slot of several rows that was fitted stays no taller than its rows, so
in the end every slot is exactly as tall as the rows that it lies in.
-/

namespace SlotGrid

/-! ## Raised rows -/

/-- A row that has grown, if it may, and is otherwise the same. -/
structure GridRow.Raised (r r' : GridRow Exact) : Prop where
  row_eq : r'.toRow = r.toRow
  le : r.computed ≤ r'.computed
  fixed : r.height.mayGrow = false → r'.computed = r.computed

theorem GridRow.Raised.refl (r : GridRow Exact) : r.Raised r := ⟨rfl, le_rfl, fun _ => rfl⟩

theorem GridRow.Raised.trans {r r' r'' : GridRow Exact} (h : r.Raised r') (h' : r'.Raised r'') :
    r.Raised r'' := by
  refine ⟨h'.row_eq.trans h.row_eq, h.le.trans h'.le, fun hr => ?_⟩
  have hr' : r'.height.mayGrow = false := by
    rw [h.row_eq]
    exact hr
  exact (h'.fixed hr').trans (h.fixed hr)

/-- Rows of which each has grown. -/
abbrev RowsRaised : List (GridRow Exact) → List (GridRow Exact) → Prop := List.Forall₂ GridRow.Raised

namespace RowsRaised

variable {rows rows' rows'' : List (GridRow Exact)}

theorem refl (rows : List (GridRow Exact)) : RowsRaised rows rows :=
  List.forall₂_same.mpr fun r _ => .refl r

theorem trans (h : RowsRaised rows rows') (h' : RowsRaised rows' rows'') : RowsRaised rows rows'' := by
  induction h generalizing rows'' with
  | nil => exact h'
  | cons hr _ ih =>
    cases h' with
    | cons hr' h' => exact .cons (hr.trans hr') (ih h')

theorem of_map {f : GridRow Exact → GridRow Exact} (h : ∀ r ∈ rows, r.Raised (f r)) :
    RowsRaised rows (rows.map f) :=
  List.forall₂_map_right_iff.mpr (List.forall₂_same.mpr h)

theorem of_mapIdx {f : ℕ → GridRow Exact → GridRow Exact} (h : ∀ i, ∀ r ∈ rows, r.Raised (f i r)) :
    RowsRaised rows (rows.mapIdx f) := by
  induction rows generalizing f with
  | nil => exact .nil
  | cons r rows ih =>
    rw [List.mapIdx_cons]
    exact .cons (h 0 r List.mem_cons_self) (ih fun i r' hr' => h (i + 1) r' (List.mem_cons_of_mem r hr'))

theorem spannedRows (h : RowsRaised rows rows') (s : Slot) :
    RowsRaised (s.spannedRows rows) (s.spannedRows rows') :=
  List.forall₂_take _ (List.forall₂_drop _ h)

theorem sum_le (h : RowsRaised rows rows') :
    (rows.map GridRow.computed).sum ≤ (rows'.map GridRow.computed).sum := by
  apply List.Forall₂.sum_le_sum
  rw [List.forall₂_map_left_iff, List.forall₂_map_right_iff]
  exact h.imp fun _ _ hr => hr.le

theorem spannedHeight_le (h : RowsRaised rows rows') (s : Slot) :
    s.spannedHeight rows ≤ s.spannedHeight rows' := by
  unfold Slot.spannedHeight
  rw [Exact.total_eq_sum, Exact.total_eq_sum]
  exact (h.spannedRows s).sum_le

/-- Which rows may grow does not change. -/
theorem filter_mayGrow_eq_nil (h : RowsRaised rows rows') :
    rows.filter (·.height.mayGrow) = [] ↔ rows'.filter (·.height.mayGrow) = [] := by
  induction h with
  | nil => rfl
  | @cons r r' rows rows' hr _ ih =>
    have hheight : r'.height = r.height := congrArg Row.height hr.row_eq
    rw [List.filter_eq_nil_iff] at ih ⊢
    rw [List.filter_eq_nil_iff] at ih ⊢
    rw [List.forall_mem_cons, List.forall_mem_cons, hheight, ih]

end RowsRaised

theorem raised_levelRows (rows : List (GridRow Exact)) : RowsRaised rows (levelRows rows) := by
  apply RowsRaised.of_map
  intro r hr
  split_ifs with he
  · refine ⟨rfl, Exact.le_largest ?_, fun hfixed => ?_⟩
    · exact List.mem_map_of_mem (List.mem_filter.mpr ⟨hr, by simpa using he⟩)
    · rw [he] at hfixed
      cases hfixed
  · exact .refl r

/-- Whether the heights of rows are sizes. -/
def RowsSized (rows : List (GridRow Exact)) : Prop := ∀ r ∈ rows, r.computed.IsSize

theorem RowsSized.levelRows {rows : List (GridRow Exact)} (h : RowsSized rows) :
    RowsSized (levelRows rows) := by
  intro r' hr'
  obtain ⟨r, hr, rfl⟩ := List.mem_map.mp hr'
  split_ifs
  · refine Exact.IsSize.largest (List.forall_mem_map.mpr fun r hr => ?_)
    exact h r (List.mem_of_mem_filter hr)
  · exact h r hr

/-! ## Growth -/

/-- What a row of some height gets of an excess over rows of some heights. -/
def shareOfExcess (excess : ℚ) (hs : List ℚ) (h : ℚ) : ℚ :=
  if 0 < hs.sum then excess * h / hs.sum else excess / hs.length

theorem shareOfExcess_nonneg {excess : ℚ} {hs : List ℚ} {h : ℚ} (he : 0 ≤ excess) (hh : 0 ≤ h) :
    0 ≤ shareOfExcess excess hs h := by
  unfold shareOfExcess
  split_ifs with hs
  · exact div_nonneg (mul_nonneg he hh) hs.le
  · exact div_nonneg he (Nat.cast_nonneg _)

/-- The shares make up the excess. -/
theorem sum_shareOfExcess (excess : ℚ) {hs : List ℚ} (hne : hs ≠ []) :
    (hs.map (shareOfExcess excess hs)).sum = excess := by
  unfold shareOfExcess
  split_ifs with hpos
  · have hsum : (hs.map fun h => excess * h / hs.sum).sum = excess * hs.sum / hs.sum := by
      simp only [mul_div_right_comm]
      rw [List.sum_map_mul_left, List.map_id']
    rw [hsum, mul_div_cancel_right₀ _ hpos.ne']
  · have hlength : (hs.length : ℚ) ≠ 0 := Nat.cast_ne_zero.mpr (List.length_pos_iff.mpr hne).ne'
    rw [List.map_const', List.sum_replicate, nsmul_eq_mul, mul_div_cancel₀ _ hlength]

namespace Slot

variable {s : Slot} {content : Exact} {rows : List (GridRow Exact)}

theorem isSize_spannedRows (hr : RowsSized rows) : ∀ r ∈ s.spannedRows rows, r.computed.IsSize :=
  fun r hmem => hr r (List.mem_of_mem_drop (List.mem_of_mem_take hmem))

theorem isSize_spannedHeight (s : Slot) (hr : RowsSized rows) : (s.spannedHeight rows).IsSize := by
  unfold spannedHeight
  rw [Exact.total_eq_sum]
  apply Exact.IsSize.sum
  rw [List.forall_mem_map]
  exact isSize_spannedRows hr

/-- The rows within a slot after they have grown. -/
theorem spannedRows_growRows (h : ¬ content ≤ s.spannedHeight rows) :
    s.spannedRows (s.growRows content rows) = (s.spannedRows rows).map fun r =>
      if r.height.mayGrow then { r with computed := r.computed + s.portion content rows r.computed } else r := by
  rw [growRows_of_lt h]
  unfold spannedRows
  apply List.ext_getElem?
  intro i
  rw [List.getElem?_map]
  by_cases hi : i < s.rowspan
  · have hspan : s.SpansRow (s.row + i) := by
      unfold SpansRow endRow
      omega
    simp only [List.getElem?_take_of_lt hi, List.getElem?_drop, List.getElem?_mapIdx, hspan, true_and]
  · simp [hi]

theorem portion_finite {c p : ℚ} {hs : List ℚ} (hp : s.spannedHeight rows = .finite p)
    (hgrowing : (s.growingRows rows).map GridRow.computed = hs.map .finite) (h : ℚ) :
    s.portion (.finite c) rows (.finite h) = .finite (shareOfExcess (c - p) hs h) := by
  have hlength : (s.growingRows rows).length = hs.length := by
    simpa only [List.length_map] using congrArg List.length hgrowing
  unfold portion shareOfExcess
  simp only [hp, hgrowing, hlength, Exact.total_eq_sum, Exact.sum_map_finite, Exact.zero_eq,
    Exact.finite_lt_finite, Exact.natCast_eq, Exact.finite_sub_finite, Exact.finite_mul_finite,
    Exact.finite_div_finite]
  split_ifs <;> rfl

/-- The exact numbers that the growth of rows is computed from. -/
theorem exists_excess (s : Slot) (hr : RowsSized rows) (hc : content.IsSize)
    (h : ¬ content ≤ s.spannedHeight rows) :
    ∃ (c p : ℚ) (hs : List ℚ), content = .finite c ∧ s.spannedHeight rows = .finite p ∧ p < c ∧
      (∀ q ∈ hs, 0 ≤ q) ∧ (s.growingRows rows).map GridRow.computed = hs.map .finite := by
  obtain ⟨c, -, rfl⟩ := hc
  obtain ⟨p, -, hp⟩ := s.isSize_spannedHeight hr
  have hsized : ∀ x ∈ (s.growingRows rows).map GridRow.computed, x.IsSize := by
    rw [List.forall_mem_map]
    exact fun r hmem => isSize_spannedRows hr r (List.mem_of_mem_filter hmem)
  obtain ⟨hs, hnonneg, hhs⟩ := Exact.IsSize.exists_map_finite hsized
  rw [hp, Exact.finite_le_finite, not_le] at h
  exact ⟨c, p, hs, rfl, hp, h, hnonneg, hhs⟩

theorem isSize_portion (hr : RowsSized rows) (hc : content.IsSize) (h : ¬ content ≤ s.spannedHeight rows)
    {x : Exact} (hx : x.IsSize) : (s.portion content rows x).IsSize := by
  obtain ⟨c, p, hs, rfl, hp, hlt, -, hhs⟩ := s.exists_excess hr hc h
  obtain ⟨q, hq, rfl⟩ := hx
  exact ⟨_, shareOfExcess_nonneg (sub_nonneg.mpr hlt.le) hq, portion_finite hp hhs q⟩

theorem raised_growRows (hr : RowsSized rows) (hc : content.IsSize) :
    RowsRaised rows (s.growRows content rows) := by
  by_cases h : content ≤ s.spannedHeight rows
  · rw [growRows, if_pos h]
    exact .refl rows
  · rw [growRows_of_lt h]
    apply RowsRaised.of_mapIdx
    intro i r hmem
    split_ifs with hspan
    · refine ⟨rfl, ?_, fun hfixed => ?_⟩
      · exact le_add_of_nonneg_right (isSize_portion hr hc h (hr r hmem)).nonneg
      · rw [hspan.2] at hfixed
        cases hfixed
    · exact .refl r

theorem sized_growRows (hr : RowsSized rows) (hc : content.IsSize) : RowsSized (s.growRows content rows) := by
  by_cases h : content ≤ s.spannedHeight rows
  · rwa [growRows, if_pos h]
  · rw [growRows_of_lt h]
    intro r' hr'
    obtain ⟨i, hi, rfl⟩ := List.mem_mapIdx.mp hr'
    have hmem := hr _ (List.getElem_mem hi)
    split_ifs
    · exact hmem.add (isSize_portion hr hc h hmem)
    · exact hmem

theorem sum_map_grown (f : Exact → Exact) (rs : List (GridRow Exact)) :
    ((rs.map fun r => if r.height.mayGrow then { r with computed := r.computed + f r.computed } else r).map
        GridRow.computed).sum =
      (rs.map GridRow.computed).sum + (((rs.filter (·.height.mayGrow)).map GridRow.computed).map f).sum := by
  induction rs with
  | nil => simp
  | cons r rs ih =>
    rw [List.map_cons, List.map_cons, List.sum_cons, ih, List.filter_cons, List.map_cons, List.sum_cons]
    by_cases hg : r.height.mayGrow = true
    · simp only [hg, if_true, List.map_cons, List.sum_cons]
      rw [add_add_add_comm]
    · rw [if_neg hg, if_neg hg, add_assoc]

/-- What the rows of a slot lack goes to those that may grow, if there are any. -/
theorem spannedHeight_growRows (hr : RowsSized rows) (hc : content.IsSize)
    (h : ¬ content ≤ s.spannedHeight rows) (hne : s.growingRows rows ≠ []) :
    s.spannedHeight (s.growRows content rows) = content := by
  obtain ⟨c, p, hs, rfl, hp, -, -, hhs⟩ := s.exists_excess hr hc h
  have hshares : (((s.growingRows rows).map GridRow.computed).map (s.portion (.finite c) rows)).sum =
      .finite (c - p) := by
    have hs_ne : hs ≠ [] := by
      rintro rfl
      exact hne (List.map_eq_nil_iff.mp hhs)
    have hmap : (hs.map Exact.finite).map (s.portion (.finite c) rows) =
        (hs.map (shareOfExcess (c - p) hs)).map .finite := by
      rw [List.map_map, List.map_map]
      exact List.map_congr_left fun q _ => portion_finite hp hhs q
    rw [hhs, hmap, Exact.sum_map_finite, sum_shareOfExcess _ hs_ne]
  have htotal : s.spannedHeight (s.growRows (.finite c) rows) =
      s.spannedHeight rows + .finite (c - p) := by
    rw [← hshares]
    unfold spannedHeight growingRows
    rw [spannedRows_growRows h, Exact.total_eq_sum, Exact.total_eq_sum, sum_map_grown]
  rw [htotal, hp, Exact.finite_add_finite, add_sub_cancel]

end Slot

/-! ## Fitting -/

namespace Content

variable {ε : Type} {start : List (GridRow Exact)} {state : List (GridRow Exact) × List (Content ε Exact)}

/-- Whether the rows within a slot of several rows may grow or have room for its content. -/
def Suits (start : List (GridRow Exact)) (c : Content ε Exact) : Prop :=
  c.isTall = true → c.slot.growingRows start = [] → c.height ≤ c.slot.spannedHeight start

/-- What holds while slots are fitted into rows. The height of a fitted slot and that of its content differ only
where its rows are taller than both. -/
structure Fitting (start : List (GridRow Exact)) (state : List (GridRow Exact) × List (Content ε Exact)) :
    Prop where
  raised : RowsRaised start state.1
  sized : RowsSized state.1
  followed : ∀ c ∈ state.2, c.isTall = true →
    max c.slot.height (c.slot.spannedHeight state.1) = max c.height (c.slot.spannedHeight state.1)
  filled : ∀ c ∈ state.2, c.isTall = true → c.slot.growingRows start ≠ [] →
    c.height ≤ c.slot.spannedHeight state.1

theorem max_eq_max_of_le {x y a b : Exact} (h : max x a = max y a) (hab : a ≤ b) : max x b = max y b := by
  rw [← max_eq_right hab, ← max_assoc, h, max_assoc]

theorem max_fittedHeight (c : Content ε Exact) (rows : List (GridRow Exact)) :
    max (c.fittedHeight rows) (c.slot.spannedHeight (c.slot.growRows c.height rows)) =
      max c.height (c.slot.spannedHeight (c.slot.growRows c.height rows)) := by
  unfold fittedHeight
  simp only []
  split_ifs with hle
  · rw [Slot.growRows, if_pos hle, max_self, max_eq_right hle]
  · rfl

/-- The rows of a slot have room for its content right after it is fitted, if some of them may grow. -/
theorem le_spannedHeight_growRows (h : Fitting start state) {c : Content ε Exact} (hc : c.height.IsSize)
    (hne : c.slot.growingRows start ≠ []) :
    c.height ≤ c.slot.spannedHeight (c.slot.growRows c.height state.1) := by
  by_cases hle : c.height ≤ c.slot.spannedHeight state.1
  · rwa [Slot.growRows, if_pos hle]
  · have hne' : c.slot.growingRows state.1 ≠ [] :=
      fun hnil => hne ((h.raised.spannedRows _).filter_mayGrow_eq_nil.mpr hnil)
    exact (Slot.spannedHeight_growRows h.sized hc hle hne').ge

theorem Fitting.fit (h : Fitting start state) {c : Content ε Exact} (hc : c.height.IsSize) :
    Fitting start (fit state c) := by
  unfold Content.fit
  simp only []
  split_ifs with ht
  · have hraised : RowsRaised state.1 (c.slot.growRows c.height state.1) := Slot.raised_growRows h.sized hc
    refine ⟨h.raised.trans hraised, Slot.sized_growRows h.sized hc, fun d hd hdt => ?_, fun d hd hdt hne => ?_⟩
    · rcases List.mem_append.mp hd with hd | hd
      · exact max_eq_max_of_le (h.followed d hd hdt) (hraised.spannedHeight_le _)
      · obtain rfl := List.mem_singleton.mp hd
        exact max_fittedHeight c state.1
    · rcases List.mem_append.mp hd with hd | hd
      · exact (h.filled d hd hdt hne).trans (hraised.spannedHeight_le _)
      · obtain rfl := List.mem_singleton.mp hd
        exact le_spannedHeight_growRows h hc hne
  · refine ⟨h.raised, h.sized, fun d hd hdt => ?_, fun d hd hdt hne => ?_⟩
    all_goals
      rcases List.mem_append.mp hd with hd | hd
    · exact h.followed d hd hdt
    · obtain rfl := List.mem_singleton.mp hd
      exact absurd hdt ht
    · exact h.filled d hd hdt hne
    · obtain rfl := List.mem_singleton.mp hd
      exact absurd hdt ht

theorem Fitting.foldl (h : Fitting start state) {cs : List (Content ε Exact)}
    (hc : ∀ c ∈ cs, c.height.IsSize) : Fitting start (cs.foldl Content.fit state) := by
  induction cs generalizing state with
  | nil => exact h
  | cons c cs ih =>
    rw [List.forall_mem_cons] at hc
    exact ih (h.fit hc.1) hc.2

/-- A slot whose rows suit it is no taller than they are once it is fitted. -/
theorem Fitting.height_le (h : Fitting start state) {c : Content ε Exact} (hmem : c ∈ state.2)
    (ht : c.isTall = true) (hs : c.Suits start) : c.slot.height ≤ c.slot.spannedHeight state.1 := by
  have hroom : c.height ≤ c.slot.spannedHeight state.1 := by
    by_cases hne : c.slot.growingRows start = []
    · exact (hs ht hne).trans (h.raised.spannedHeight_le _)
    · exact h.filled c hmem ht hne
  rw [← max_eq_right hroom, ← h.followed c hmem ht]
  exact le_max_left _ _

end Content

namespace GridRow

variable {ε : Type}

/-- The height that is given for a row. -/
def lengthHeight (m : Measure ε Exact) (container : ε) (r : GridRow Exact) : Exact :=
  match r.height with
  | .length l => m.resolve l container
  | _ => 0

theorem naturalHeight_eq_lengthHeight {m : Measure ε Exact} {container : ε} {contents : List (Content ε Exact)}
    {index : ℕ} {r : GridRow Exact} (hr : r.height.mayGrow = false) :
    r.naturalHeight m container contents index = r.lengthHeight m container := by
  unfold naturalHeight lengthHeight
  cases hh : r.height with
  | length l => rfl
  | auto =>
    rw [hh] at hr
    cases hr
  | equal =>
    rw [hh] at hr
    cases hr

theorem isSize_naturalHeight {m : Measure ε Exact} {container : ε} {contents : List (Content ε Exact)}
    {index : ℕ} {r : GridRow Exact} (hl : ∀ l, r.height = .length l → (m.resolve l container).IsSize)
    (hc : ∀ c ∈ contents, c.height.IsSize) :
    (r.naturalHeight m container contents index).IsSize := by
  have hlargest : ∀ p : Content ε Exact → Bool,
      (Quantity.largest ((contents.filter p).map Content.height)).IsSize := by
    intro p
    apply Exact.IsSize.largest
    rw [List.forall_mem_map]
    exact fun c hmem => hc c (List.mem_of_mem_filter hmem)
  unfold naturalHeight
  cases hr : r.height with
  | length l => exact hl l hr
  | auto => exact hlargest _
  | equal => exact hlargest _

end GridRow

theorem GridSlot.isSize_intrinsicHeight {ε : Type} {m : Measure ε Exact} {s : GridSlot ε Exact} (hm : m.Sizes)
    (hw : ∀ w, s.width = some w → w.IsSize) : (s.intrinsicHeight m).IsSize := by
  unfold intrinsicHeight
  split_ifs
  · exact Exact.IsSize.zero
  · cases hsw : s.width with
    | none => exact Exact.IsSize.zero
    | some w =>
      cases s.element with
      | none => exact Exact.IsSize.zero
      | some e => exact hm.contentHeight e w (hw w hsw)

namespace GridSlot

variable {ε : Type} {rows : List (GridRow Exact)} {s : GridSlot ε Exact}

theorem height_settle_of_tall (ht : 1 < s.rowspan) :
    (s.settle rows).height = max s.height (s.spannedHeight rows) := by
  unfold settle
  rw [if_pos ht]
  split_ifs with hlt
  · exact (max_eq_right hlt.le).symm
  · exact (max_eq_left (not_lt.mp hlt)).symm

theorem height_settle_of_single (hone : s.rowspan = 1) {r : GridRow Exact} (hr : rows[s.row]? = some r) :
    (s.settle rows).height = r.computed := by
  have ht : ¬ 1 < s.rowspan := hone.not_gt
  unfold settle
  rw [if_neg ht, hr]
  rfl

/-- A slot that is no taller than its rows settles at their height. -/
theorem height_settle (hs : 1 < s.rowspan → s.height ≤ s.spannedHeight rows) (hpos : 0 < s.rowspan)
    (hrow : s.row + s.rowspan ≤ rows.length) : (s.settle rows).height = s.spannedHeight rows := by
  by_cases ht : 1 < s.rowspan
  · rw [height_settle_of_tall ht, max_eq_right (hs ht)]
  · have hone : s.rowspan = 1 := by omega
    have hlt : s.row < rows.length := by omega
    have hspanned : s.spannedRows rows = [rows[s.row]] := by
      unfold Slot.spannedRows
      rw [hone, List.drop_eq_getElem_cons hlt]
      rfl
    rw [height_settle_of_single hone (List.getElem?_eq_getElem hlt), Slot.spannedHeight, hspanned,
      Exact.total_eq_sum]
    exact List.sum_singleton.symm

end GridSlot

namespace Grid

variable {ε : Type} {m : Measure ε Exact} {g : Grid ε Exact} {container : ε}

/-- No slot of several rows of given heights has content that is taller than these rows. -/
def LengthRowsSuffice (m : Measure ε Exact) (container : ε) (g : Grid ε Exact) : Prop :=
  ∀ s ∈ g.slots, 1 < s.rowspan → (∀ r ∈ s.spannedRows g.rows, r.height.mayGrow = false) →
    s.intrinsicHeight m ≤ ((s.spannedRows g.rows).map (·.lengthHeight m container)).sum

/-- Rows and slots whose heights are final: every slot is as tall as its rows. -/
structure Settled (g : Grid ε Exact) : Prop where
  sized : RowsSized g.rows
  slots : ∀ s ∈ g.slots, s.height = s.spannedHeight g.rows
  height : g.height = (g.rows.map GridRow.computed).sum

theorem isSize_height_contents (hm : m.Sizes) (hw : ∀ s ∈ g.slots, ∀ w, s.width = some w → w.IsSize) :
    ∀ c ∈ g.contents m, c.height.IsSize := by
  unfold contents
  rw [List.forall_mem_map]
  exact fun s hs => GridSlot.isSize_intrinsicHeight hm (hw s hs)

theorem sized_naturalRows (hl : ∀ r ∈ g.rows, ∀ l, r.height = .length l → (m.resolve l container).IsSize)
    (hc : ∀ c ∈ g.contents m, c.height.IsSize) :
    RowsSized (g.naturalRows m container) := by
  intro r' hr'
  obtain ⟨i, hi, rfl⟩ := List.mem_mapIdx.mp hr'
  exact GridRow.isSize_naturalHeight (hl _ (List.getElem_mem hi)) hc

theorem map_toRow_spannedRows (s : Slot) :
    (s.spannedRows (g.naturalRows m container)).map GridRow.toRow =
      (s.spannedRows g.rows).map GridRow.toRow := by
  unfold Slot.spannedRows
  rw [List.map_take, List.map_drop, map_toRow_naturalRows, List.map_take, List.map_drop]

theorem map_computed_spannedRows {s : Slot} (hs : ∀ r ∈ s.spannedRows g.rows, r.height.mayGrow = false) :
    (s.spannedRows (g.naturalRows m container)).map GridRow.computed =
      (s.spannedRows g.rows).map (·.lengthHeight m container) := by
  apply List.ext_getElem?
  intro i
  rw [List.getElem?_map, List.getElem?_map]
  by_cases hi : i < s.rowspan
  · have hget : (s.spannedRows g.rows)[i]? = g.rows[s.row + i]? := by
      unfold Slot.spannedRows
      rw [List.getElem?_take_of_lt hi, List.getElem?_drop]
    have hget' : (s.spannedRows (g.naturalRows m container))[i]? =
        (g.naturalRows m container)[s.row + i]? := by
      unfold Slot.spannedRows
      rw [List.getElem?_take_of_lt hi, List.getElem?_drop]
    rw [hget', hget, naturalRows, List.getElem?_mapIdx]
    cases hr : g.rows[s.row + i]? with
    | none => rfl
    | some r =>
      have hfixed := hs r (List.mem_of_getElem? (hget.trans hr))
      exact congrArg some (GridRow.naturalHeight_eq_lengthHeight hfixed)
  · have hnone : ∀ rows : List (GridRow Exact), (s.spannedRows rows)[i]? = none := by
      intro rows
      apply List.getElem?_eq_none
      unfold Slot.spannedRows
      rw [List.length_take]
      omega
    rw [hnone, hnone]
    rfl

theorem suits_contents (hg : g.LengthRowsSuffice m container) :
    ∀ c ∈ g.contents m, c.Suits (g.naturalRows m container) := by
  unfold contents
  rw [List.forall_mem_map]
  intro s hs ht hgrowing
  have hfixed : ∀ r ∈ s.spannedRows g.rows, r.height.mayGrow = false := by
    intro r hr
    have hmem : r.toRow ∈ (s.spannedRows (g.naturalRows m container)).map GridRow.toRow := by
      rw [map_toRow_spannedRows]
      exact List.mem_map_of_mem hr
    obtain ⟨r', hr', hrr'⟩ := List.mem_map.mp hmem
    have hnot := List.filter_eq_nil_iff.mp hgrowing r' hr'
    rw [← hrr']
    exact Bool.eq_false_iff.mpr hnot
  have hroom := hg s hs (of_decide_eq_true ht) hfixed
  unfold Slot.spannedHeight
  rw [Exact.total_eq_sum, map_computed_spannedRows hfixed]
  exact hroom

/-- Fitting starts from the leveled rows and ends in the fitted ones. -/
theorem fitting_fitted (hl : ∀ r ∈ g.rows, ∀ l, r.height = .length l → (m.resolve l container).IsSize)
    (hc : ∀ c ∈ g.contents m, c.height.IsSize) :
    Content.Fitting (g.naturalRows m container) (g.fitted m container) := by
  have hnatural : RowsSized (g.naturalRows m container) := sized_naturalRows hl hc
  have hstart : Content.Fitting (g.naturalRows m container)
      (levelRows (g.naturalRows m container), ([] : List (Content ε Exact))) :=
    ⟨raised_levelRows _, hnatural.levelRows, fun _ hd => absurd hd List.not_mem_nil,
      fun _ hd => absurd hd List.not_mem_nil⟩
  exact hstart.foldl hc

/-- After a height pass every slot is exactly as tall as its rows. -/
theorem settled_heightened (hg : g.Sound) (hm : m.Sizes)
    (hw : ∀ s ∈ g.slots, ∀ w, s.width = some w → w.IsSize) (hs : g.LengthRowsSuffice m container) :
    (g.heightened m container).Settled := by
  have hfit : Content.Fitting (g.naturalRows m container) (g.fitted m container) :=
    fitting_fitted (fun _ _ l _ => hm.resolve l container) (isSize_height_contents hm hw)
  have hsuits : ∀ c ∈ (g.fitted m container).2, c.Suits (g.naturalRows m container) :=
    Content.forall_foldl_fit (fun _ _ => Iff.rfl) (suits_contents hs) _
  have hraised := raised_levelRows (g.fitted m container).1
  refine ⟨hfit.sized.levelRows, fun s' hs' => ?_, Exact.total_eq_sum _⟩
  have hwithin := (hg.heightened.within hs').1
  have hpos := (hg.heightened.wellShaped hs').rowspan_pos
  obtain ⟨c, hmem, rfl⟩ := List.mem_map.mp hs'
  have hslot : (c.slot.settle (levelRows (g.fitted m container).1)).toSlot = c.slot.toSlot := by
    obtain ⟨h, hsettle⟩ := settle_eq (levelRows (g.fitted m container).1) c.slot
    rw [hsettle]
  rw [hslot] at hpos hwithin ⊢
  refine GridSlot.height_settle (fun ht => ?_) hpos hwithin
  exact (hfit.height_le hmem (decide_eq_true ht) (hsuits c hmem)).trans (hraised.spannedHeight_le _)

end Grid

end SlotGrid
