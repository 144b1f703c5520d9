import SlotGrid.Proofs.Sizing.Exact
import SlotGrid.Sizing.Widening

/-! # Water levels

Every round but the last pins a column, so one round more than there are columns is enough, whatever the
numbers are. With exact numbers the widths are those of a vessel that is filled with the available width: there
is a level such that each column gets what it prefers or, if it prefers more, the level.
-/

namespace SlotGrid.Widening

/-! ## Rounds -/

section Rounds

variable {α : Type} [Quantity α] {available s : α} {cs : List (Column α)}

@[simp] theorem preferred_pin (s : α) (c : Column α) : (pin s c).preferred = c.preferred := by
  unfold pin
  split_ifs <;> rfl

@[simp] theorem pinned_pin (s : α) (c : Column α) :
    (pin s c).pinned = true ↔ c.pinned = true ∨ c.preferred < s := by
  obtain ⟨preferred, pinned⟩ := c
  by_cases h : preferred < s <;> cases pinned <;> simp [pin, isNarrow, h]

theorem expandable_pin (s : α) (cs : List (Column α)) :
    expandable (cs.map (pin s)) + cs.countP (isNarrow s) = expandable cs := by
  unfold expandable
  induction cs with
  | nil => rfl
  | cons c cs ih =>
    rw [List.map_cons, List.countP_cons, List.countP_cons, List.countP_cons]
    obtain ⟨preferred, pinned⟩ := c
    by_cases h : preferred < s <;> cases pinned <;> simp [pin, isNarrow, h] at ih ⊢ <;> omega

theorem expandable_pin_lt (h : cs.any (isNarrow s) = true) : expandable (cs.map (pin s)) < expandable cs := by
  have hpos : 0 < cs.countP (isNarrow s) := by
    rw [List.countP_pos_iff]
    exact List.any_eq_true.mp h
  have := expandable_pin s cs
  omega

/-- A round for every column that may still grow, and one more, are enough. -/
theorem exists_rounds (available : α) {n : ℕ} (h : expandable cs < n) :
    ∃ widths, rounds? available n cs = some widths := by
  induction n generalizing cs with
  | zero => exact absurd h (Nat.not_lt_zero _)
  | succ n ih =>
    unfold rounds?
    split_ifs with hnone
    · exact ⟨_, rfl⟩
    · simp only []
      split_ifs with hnarrow
      · exact ih (by have := expandable_pin_lt hnarrow; omega)
      · exact ⟨_, rfl⟩

theorem length_rounds {n : ℕ} {widths : List α} (h : rounds? available n cs = some widths) :
    widths.length = cs.length := by
  induction n generalizing cs with
  | zero => cases h
  | succ n ih =>
    unfold rounds? at h
    simp only [] at h
    split_ifs at h
    · cases h
      exact List.length_map _
    · exact (ih h).trans (List.length_map _)
    · cases h
      exact List.length_map _

omit [Quantity α] in
theorem expandable_unpinned (preferred : List α) :
    expandable (preferred.map fun p => ⟨p, false⟩) = preferred.length := by
  unfold expandable
  rw [List.countP_map]
  exact List.countP_eq_length.mpr fun _ _ => rfl

theorem exists_widen (available : α) {preferred : List α} {cap : ℕ} (h : preferred.length < cap) :
    ∃ widths, widen? preferred available cap = some widths ∧ widths.length = preferred.length := by
  obtain ⟨widths, hw⟩ := exists_rounds available ((expandable_unpinned preferred).trans_lt h)
  exact ⟨widths, hw, (length_rounds hw).trans (List.length_map _)⟩

end Rounds

/-! ## Levels -/

section Levels

variable {available level : Exact} {cs : List (Column Exact)}

/-- The width of all columns if those that are not pinned are equally wide. -/
def filledTotal (s : Exact) (cs : List (Column Exact)) : Exact :=
  (cs.map fun c => if c.pinned then c.preferred else s).sum

theorem filledTotal_finite (q : ℚ) (cs : List (Column Exact)) :
    filledTotal (.finite q) cs = pinnedTotal cs + .finite (expandable cs * q) := by
  unfold filledTotal pinnedTotal expandable
  rw [Exact.total_eq_sum]
  induction cs with
  | nil => simp
  | cons c cs ih =>
    rw [List.map_cons, List.sum_cons, ih]
    cases hc : c.pinned
    · simp only [hc, Bool.false_eq_true, if_false, List.filter_cons, List.countP_cons, Bool.not_false, if_true]
      rw [add_left_comm, Exact.finite_add_finite]
      congr 2
      push_cast
      ring
    · simp [hc, add_assoc]

/-- Pinning makes no column wider. -/
theorem filledTotal_pin_le (s : Exact) (cs : List (Column Exact)) :
    filledTotal s (cs.map (pin s)) ≤ filledTotal s cs := by
  unfold filledTotal
  rw [List.map_map]
  refine List.sum_le_sum fun c _ => ?_
  obtain ⟨preferred, pinned⟩ := c
  by_cases h : preferred < s <;> cases pinned <;> simp [pin, isNarrow, h, le_of_lt]

/-- Columns that are filled up to a level, which no later share falls below. -/
structure Filling (available level : Exact) (cs : List (Column Exact)) : Prop where
  finite : ∀ c ∈ cs, c.pinned → ∃ q, c.preferred = .finite q
  below : ∀ c ∈ cs, c.pinned → c.preferred ≤ level
  level_le : expandable cs ≠ 0 → level ≤ share available cs
  fits : expandable cs = 0 → pinnedTotal cs ≤ available

theorem exists_pinnedTotal (h : ∀ c ∈ cs, c.pinned → ∃ q, c.preferred = .finite q) :
    ∃ q, pinnedTotal cs = .finite q := by
  unfold pinnedTotal
  rw [Exact.total_eq_sum]
  induction cs with
  | nil => exact ⟨0, rfl⟩
  | cons c cs ih =>
    rw [List.forall_mem_cons] at h
    obtain ⟨q, hq⟩ := ih h.2
    cases hc : c.pinned
    · exact ⟨q, by simpa [hc] using hq⟩
    · obtain ⟨p, hp⟩ := h.1 hc
      exact ⟨p + q, by simp [hc, hp, hq]⟩

theorem exists_not_pinned (he : expandable cs ≠ 0) : ∃ c ∈ cs, ¬ c.pinned = true := by
  obtain ⟨c, hc, hp⟩ := List.countP_pos_iff.mp (Nat.pos_of_ne_zero he)
  exact ⟨c, hc, by simpa using hp⟩

theorem pinned_of_expandable (he : expandable cs = 0) : ∀ c ∈ cs, c.pinned = true := by
  intro c hc
  by_contra hp
  exact absurd (List.countP_pos_iff.mpr ⟨c, hc, by simpa using hp⟩) (Nat.not_lt.mpr he.le)

/-- Widths that fit are no wider than the share. -/
theorem le_share {s : Exact} (hf : ∀ c ∈ cs, c.pinned → ∃ q, c.preferred = .finite q)
    (h : filledTotal s cs ≤ available) (he : expandable cs ≠ 0) : s ≤ share available cs := by
  obtain ⟨p, hp⟩ := exists_pinnedTotal hf
  cases available with
  | finite a =>
    cases s with
    | finite q =>
      have hn : (0 : ℚ) < expandable cs := Nat.cast_pos.mpr (Nat.pos_of_ne_zero he)
      rw [filledTotal_finite, hp, Exact.finite_add_finite, Exact.finite_le_finite] at h
      rw [share, hp, Exact.finite_sub_finite, Exact.natCast_eq, Exact.finite_div_finite, Exact.finite_le_finite,
        le_div_iff₀ hn]
      linarith
    | infinite =>
      obtain ⟨c, hc, hpin⟩ := exists_not_pinned he
      rw [filledTotal, Exact.sum_of_infinite_mem (List.mem_map.mpr ⟨c, hc, if_neg hpin⟩)] at h
      exact absurd h Exact.not_infinite_le_finite
  | infinite =>
    rw [share, hp, Exact.infinite_sub_finite, Exact.natCast_eq, Exact.infinite_div_finite]
    exact Exact.le_infinite _

theorem filledTotal_of_expandable (s : Exact) (he : expandable cs = 0) : filledTotal s cs = pinnedTotal cs := by
  have hp := pinned_of_expandable he
  rw [pinnedTotal, Exact.total_eq_sum, List.filter_eq_self.mpr hp, filledTotal]
  exact congrArg List.sum (List.map_congr_left fun c hc => if_pos (hp c hc))

namespace Filling

theorem filledTotal_share (h : Filling available level cs) (he : expandable cs ≠ 0) :
    filledTotal (share available cs) cs = available := by
  obtain ⟨p, hp⟩ := exists_pinnedTotal h.finite
  cases available with
  | finite a =>
    have hn : (expandable cs : ℚ) ≠ 0 := Nat.cast_ne_zero.mpr he
    rw [share, hp, Exact.finite_sub_finite, Exact.natCast_eq, Exact.finite_div_finite, filledTotal_finite, hp,
      Exact.finite_add_finite, mul_div_cancel₀ _ hn, add_sub_cancel]
  | infinite =>
    rw [share, hp, Exact.infinite_sub_finite, Exact.natCast_eq, Exact.infinite_div_finite]
    obtain ⟨c, hc, hpin⟩ := exists_not_pinned he
    exact Exact.sum_of_infinite_mem (List.mem_map.mpr ⟨c, hc, if_neg hpin⟩)

/-- A share is a level below all later shares. -/
theorem pin (h : Filling available level cs) (he : expandable cs ≠ 0) :
    Filling available (share available cs) (cs.map (pin (share available cs))) := by
  have hfinite : ∀ c ∈ cs.map (Widening.pin (share available cs)), c.pinned → ∃ q, c.preferred = .finite q := by
    rw [List.forall_mem_map]
    intro c hc hp
    rw [preferred_pin]
    rcases (pinned_pin _ c).mp hp with hp | hlt
    · exact h.finite c hc hp
    · exact Exact.exists_finite_of_lt hlt
  have htotal : filledTotal (share available cs) (cs.map (Widening.pin (share available cs))) ≤ available :=
    (filledTotal_pin_le _ _).trans_eq (h.filledTotal_share he)
  refine ⟨hfinite, ?_, le_share hfinite htotal, fun he' => ?_⟩
  · rw [List.forall_mem_map]
    intro c hc hp
    rw [preferred_pin]
    rcases (pinned_pin _ c).mp hp with hp | hlt
    · exact (h.below c hc hp).trans (h.level_le he)
    · exact hlt.le
  · rwa [filledTotal_of_expandable _ he'] at htotal

/-- Pinned columns have the widths that they prefer. -/
theorem level_of_pinned (h : Filling available level cs) (he : expandable cs = 0) :
    cs.map Column.preferred = (cs.map Column.preferred).map (min · level) ∧
      (cs.map Column.preferred).sum = min available (cs.map Column.preferred).sum := by
  have hpinned := pinned_of_expandable he
  constructor
  · rw [List.map_map]
    exact List.map_congr_left fun c hc => (min_eq_left (h.below c hc (hpinned c hc))).symm
  · have hfits := h.fits he
    rw [pinnedTotal, Exact.total_eq_sum, List.filter_eq_self.mpr hpinned] at hfits
    exact (min_eq_right hfits).symm

/-- A share that no column falls below is the level of the widths. -/
theorem level_of_share (h : Filling available level cs) (he : expandable cs ≠ 0)
    (hn : ¬ cs.any (isNarrow (share available cs)) = true) :
    cs.map (fun c => if c.pinned then c.preferred else share available cs) =
        (cs.map Column.preferred).map (min · (share available cs)) ∧
      filledTotal (share available cs) cs = min available (cs.map Column.preferred).sum := by
  have hlevel : ∀ c ∈ cs, (if c.pinned then c.preferred else share available cs) =
      min c.preferred (share available cs) := by
    intro c hc
    split_ifs with hp
    · exact (min_eq_left ((h.below c hc hp).trans (h.level_le he))).symm
    · refine (min_eq_right (not_lt.mp fun hlt => hn ?_)).symm
      exact List.any_eq_true.mpr ⟨c, hc, by simp [isNarrow, hp, hlt]⟩
  constructor
  · rw [List.map_map]
    exact List.map_congr_left hlevel
  · have htotal := h.filledTotal_share he
    have hle : available ≤ (cs.map Column.preferred).sum := by
      rw [← htotal, filledTotal, List.map_congr_left hlevel]
      exact List.sum_le_sum fun c _ => min_le_left _ _
    exact htotal.trans (min_eq_left hle).symm

/-- The widths that the rounds end with are those of a level. -/
theorem exists_level {n : ℕ} {widths : List Exact} (h : Filling available level cs)
    (hr : rounds? available n cs = some widths) :
    ∃ v, level ≤ v ∧ widths = (cs.map Column.preferred).map (min · v) ∧
      widths.sum = min available (cs.map Column.preferred).sum := by
  induction n generalizing level cs with
  | zero => cases hr
  | succ n ih =>
    unfold rounds? at hr
    by_cases he : expandable cs = 0
    · rw [if_pos he] at hr
      cases hr
      exact ⟨level, le_rfl, h.level_of_pinned he⟩
    · rw [if_neg he] at hr
      simp only [] at hr
      by_cases hn : cs.any (isNarrow (share available cs)) = true
      · rw [if_pos hn] at hr
        obtain ⟨v, hv, hw, hs⟩ := ih (h.pin he) hr
        have hmap : (cs.map (Widening.pin (share available cs))).map Column.preferred =
            cs.map Column.preferred := by
          rw [List.map_map]
          exact List.map_congr_left fun c _ => preferred_pin _ c
        rw [hmap] at hw hs
        exact ⟨v, (h.level_le he).trans hv, hw, hs⟩
      · rw [if_neg hn] at hr
        cases hr
        exact ⟨share available cs, h.level_le he, h.level_of_share he hn⟩

end Filling

/-- Widening ends, and fills the columns up to a level that is at least their equal share. -/
theorem exists_level (preferred : List Exact) {cap : ℕ} (ha : 0 ≤ available) (hcap : preferred.length < cap) :
    ∃ v, available / (preferred.length : Exact) ≤ v ∧
      widen? preferred available cap = some (preferred.map (min · v)) ∧
      (preferred.map (min · v)).sum = min available preferred.sum := by
  let cs : List (Column Exact) := preferred.map (⟨·, false⟩)
  have hcount : expandable cs = preferred.length := expandable_unpinned preferred
  have hpinned : ∀ c ∈ cs, ¬ c.pinned = true := by
    rw [List.forall_mem_map]
    exact fun _ _ => Bool.false_ne_true
  have htotal : pinnedTotal cs = 0 := by
    unfold pinnedTotal
    rw [List.filter_eq_nil_iff.mpr hpinned]
    rfl
  have hshare : share available cs = available / (preferred.length : Exact) := by
    rw [share, htotal, hcount]
    cases available with
    | finite a => rw [Exact.zero_eq, Exact.finite_sub_finite, sub_zero]
    | infinite => rfl
  have hfill : Filling available (available / (preferred.length : Exact)) cs :=
    ⟨fun c hc hp => absurd hp (hpinned c hc), fun c hc hp => absurd hp (hpinned c hc),
      fun _ => hshare.ge, fun _ => htotal.trans_le ha⟩
  obtain ⟨widths, hw⟩ := exists_rounds available (hcount.trans_lt hcap)
  obtain ⟨v, hv, hwidths, hsum⟩ := hfill.exists_level hw
  have hmap : cs.map Column.preferred = preferred := by
    rw [List.map_map]
    exact List.map_id _
  rw [hmap] at hwidths hsum
  exact ⟨v, hv, hw.trans (congrArg some hwidths), hwidths ▸ hsum⟩

end Levels

/-! ## Filled columns -/

/-- Widths that are nowhere larger and have the same finite total are the same. -/
theorem map_eq_of_sum_eq {α : Type} {f g : α → Exact} {xs : List α} {q : ℚ} (hle : ∀ x ∈ xs, f x ≤ g x)
    (h : (xs.map f).sum = (xs.map g).sum) (hq : (xs.map g).sum = .finite q) : xs.map f = xs.map g := by
  induction xs generalizing q with
  | nil => rfl
  | cons x xs ih =>
    rw [List.forall_mem_cons] at hle
    rw [List.map_cons, List.map_cons, List.sum_cons, List.sum_cons] at h
    rw [List.map_cons, List.sum_cons] at hq
    obtain ⟨hx, hxs⟩ := Exact.eq_of_add_eq_add hle.1 (List.sum_le_sum hle.2) h hq
    have hrest : ∃ r, (xs.map g).sum = .finite r := by
      cases hg : (xs.map g).sum with
      | finite r => exact ⟨r, rfl⟩
      | infinite => simp [hg] at hq
    obtain ⟨r, hr⟩ := hrest
    rw [List.map_cons, List.map_cons, hx, ih hle.2 hxs hr]

/-- Widths of columns that are filled up to a level. All that is available is used, unless the columns prefer less. -/
structure FilledTo (preferred : List Exact) (available level : Exact) (widths : List Exact) : Prop where
  widths_eq : widths = preferred.map (min · level)
  sum_eq : widths.sum = min available preferred.sum

namespace FilledTo

variable {preferred widths widths' : List Exact} {available level level' : Exact} {q : ℚ}

/-- Another level with the same total gives the same widths. -/
theorem eq_of_le (h : FilledTo preferred (.finite q) level widths)
    (h' : FilledTo preferred (.finite q) level' widths') (hlevel : level ≤ level') : widths = widths' := by
  obtain ⟨rfl, hsum⟩ := h
  obtain ⟨rfl, hsum'⟩ := h'
  have hfinite : ∃ r, min (.finite q) preferred.sum = .finite r := by
    cases hp : preferred.sum with
    | finite p => rcases min_choice (Exact.finite q) (.finite p) with h | h <;> exact ⟨_, h⟩
    | infinite => exact ⟨q, min_eq_left (Exact.le_infinite _)⟩
  obtain ⟨r, hr⟩ := hfinite
  exact map_eq_of_sum_eq (fun p _ => min_le_min_left p hlevel) (hsum.trans hsum'.symm) (hsum'.trans hr)

theorem unique (h : FilledTo preferred (.finite q) level widths)
    (h' : FilledTo preferred (.finite q) level' widths') : widths = widths' := by
  rcases le_total level level' with hlevel | hlevel
  · exact h.eq_of_le h' hlevel
  · exact (h'.eq_of_le h hlevel).symm

/-- Columns that are filled without a bound prefer no more than there is, so what there is bounds them. -/
theorem exists_finite (h : FilledTo preferred (.finite q) level widths) (hp : ∀ p ∈ preferred, 0 ≤ p) (hq : 0 ≤ q)
    (hlevel : 0 ≤ level) : ∃ v : ℚ, 0 ≤ v ∧ FilledTo preferred (.finite q) (.finite v) widths := by
  cases level with
  | finite v => exact ⟨v, Exact.finite_le_finite.mp hlevel, h⟩
  | infinite =>
    obtain ⟨hwidths, hsum⟩ := h
    have hall : widths = preferred := by
      rw [hwidths]
      exact (List.map_congr_left fun p _ => min_eq_left (Exact.le_infinite p)).trans (List.map_id _)
    have hbound : ∀ p ∈ preferred, p ≤ .finite q := fun p hmem =>
      calc p ≤ preferred.sum := List.single_le_sum hp p hmem
        _ = min (.finite q) preferred.sum := by rw [← hsum, hall]
        _ ≤ .finite q := min_le_left _ _
    refine ⟨q, hq, ?_, hsum⟩
    rw [hall]
    exact ((List.map_congr_left fun p hmem => min_eq_left (hbound p hmem)).trans (List.map_id _)).symm

end FilledTo

/-- Widening fills the columns up to a level, with all that is available or with what the columns prefer, whichever
is less. No other widths do so. -/
theorem widths_fill_uniquely (preferred : List Exact) (hp : ∀ p ∈ preferred, 0 ≤ p) {q : ℚ} (hq : 0 ≤ q) {cap : ℕ}
    (hcap : preferred.length + 1 ≤ cap) :
    ∃ widths, widen? preferred (.finite q) cap = some widths ∧
      (∃ v : ℚ, 0 ≤ v ∧ FilledTo preferred (.finite q) (.finite v) widths) ∧
      ∀ level widths', FilledTo preferred (.finite q) level widths' → widths' = widths := by
  have ha : (0 : Exact) ≤ .finite q := Exact.finite_le_finite.mpr hq
  obtain ⟨level, hlevel, hwiden, hsum⟩ := exists_level preferred ha hcap
  have hfilled : FilledTo preferred (.finite q) level (preferred.map (min · level)) := ⟨rfl, hsum⟩
  have hnonneg : 0 ≤ level := (Exact.div_natCast_nonneg ha _).trans hlevel
  exact ⟨_, hwiden, hfilled.exists_finite hp hq hnonneg, fun _ _ h => h.unique hfilled⟩

/-- A narrow column, one without a bound and two that get what they prefer. -/
theorem widths_fill_four_columns :
    ∃ widths, widen? [.finite 10, .infinite, .finite 0, .finite 45] (.finite 100) 5 = some widths ∧
      ∃ v : ℚ, 0 ≤ v ∧ FilledTo [.finite 10, .infinite, .finite 0, .finite 45] (.finite 100) (.finite v) widths := by
  have hcap : [Exact.finite 10, .infinite, .finite 0, .finite 45].length < 5 := by decide
  obtain ⟨widths, hwiden, hfilled, -⟩ := widths_fill_uniquely [.finite 10, .infinite, .finite 0, .finite 45]
    (by decide +kernel) (q := 100) (by norm_num) hcap
  exact ⟨widths, hwiden, hfilled⟩

end SlotGrid.Widening
