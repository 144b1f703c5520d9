import Mathlib
import SlotGrid.Sizing.Exact

/-! # The order of exact quantities

Exact quantities are linearly ordered with the infinity on top, and sums of them respect the order. A size is
a finite quantity that is not negative.
-/

namespace SlotGrid

namespace Exact

@[simp] theorem finite_add_finite (p q : ℚ) : finite p + finite q = finite (p + q) := rfl

@[simp] theorem finite_sub_finite (p q : ℚ) : finite p - finite q = finite (p - q) := rfl

@[simp] theorem finite_mul_finite (p q : ℚ) : finite p * finite q = finite (p * q) := rfl

@[simp] theorem finite_div_finite (p q : ℚ) : finite p / finite q = finite (p / q) := rfl

@[simp] theorem infinite_add (x : Exact) : infinite + x = infinite := rfl

@[simp] theorem add_infinite (x : Exact) : x + infinite = infinite := by cases x <;> rfl

@[simp] theorem infinite_sub_finite (p : ℚ) : infinite - finite p = infinite := rfl

@[simp] theorem infinite_div_finite (p : ℚ) : infinite / finite p = infinite := rfl

@[simp] theorem zero_eq : (0 : Exact) = finite 0 := rfl

@[simp] theorem natCast_eq (n : ℕ) : (n : Exact) = finite n := rfl

@[simp] theorem finite_le_finite {p q : ℚ} : finite p ≤ finite q ↔ p ≤ q := decide_eq_true_iff

@[simp] theorem finite_lt_finite {p q : ℚ} : finite p < finite q ↔ p < q := decide_eq_true_iff

@[simp] theorem le_infinite (x : Exact) : x ≤ infinite := by cases x <;> rfl

@[simp] theorem finite_lt_infinite (p : ℚ) : finite p < infinite := rfl

@[simp] theorem not_infinite_le_finite {p : ℚ} : ¬ infinite ≤ finite p := Bool.false_ne_true

@[simp] theorem not_infinite_lt (x : Exact) : ¬ infinite < x := Bool.false_ne_true

instance : LinearOrder Exact where
  le_refl x := by cases x <;> simp
  le_trans x y z := by
    cases x <;> cases y <;> cases z <;> simp
    exact le_trans
  lt_iff_le_not_ge x y := by
    cases x <;> cases y <;> simp
    exact le_of_lt
  le_antisymm x y := by
    cases x <;> cases y <;> simp
    exact le_antisymm
  le_total x y := by
    cases x <;> cases y <;> simp
    exact le_total ..
  toDecidableLE := inferInstance
  toDecidableLT := inferInstance

instance : AddCommMonoid Exact where
  add_assoc x y z := by cases x <;> cases y <;> cases z <;> simp [add_assoc]
  zero_add x := by cases x <;> simp
  add_zero x := by cases x <;> simp
  add_comm x y := by cases x <;> cases y <;> simp [add_comm]
  nsmul := nsmulRec

instance : IsOrderedAddMonoid Exact where
  add_le_add_left x y h z := by cases x <;> cases y <;> cases z <;> simp_all

theorem div_natCast_nonneg {x : Exact} (hx : 0 ≤ x) (n : ℕ) : 0 ≤ x / (n : Exact) := by
  cases x with
  | finite q =>
    rw [zero_eq, finite_le_finite] at hx
    rw [natCast_eq, finite_div_finite, zero_eq, finite_le_finite]
    exact div_nonneg hx n.cast_nonneg
  | infinite => exact le_infinite 0

theorem total_eq_sum (xs : List Exact) : Quantity.total xs = xs.sum := by
  rw [List.sum_eq_foldl]
  rfl

theorem sum_map_finite (qs : List ℚ) : (qs.map finite).sum = finite qs.sum := by
  induction qs with
  | nil => rfl
  | cons q qs ih => rw [List.map_cons, List.sum_cons, ih, finite_add_finite, List.sum_cons]

theorem sum_of_infinite_mem {xs : List Exact} (h : infinite ∈ xs) : xs.sum = infinite := by
  induction xs with
  | nil => cases h
  | cons x xs ih =>
    rw [List.sum_cons]
    rcases List.mem_cons.mp h with rfl | h
    · exact infinite_add _
    · rw [ih h, add_infinite]

theorem exists_finite_of_lt {x y : Exact} (h : x < y) : ∃ q, x = finite q := by
  cases x with
  | finite q => exact ⟨q, rfl⟩
  | infinite => exact absurd h (not_infinite_lt y)

/-- Two bounds whose finite sum is reached are reached themselves. -/
theorem eq_of_add_eq_add {a b c d : Exact} {q : ℚ} (hab : a ≤ b) (hcd : c ≤ d) (h : a + c = b + d)
    (hq : b + d = finite q) : a = b ∧ c = d := by
  cases b <;> cases d <;> cases hq
  cases a <;> cases c <;> simp_all
  constructor <;> linarith

theorem largest_eq_foldl_max (xs : List Exact) : Quantity.largest xs = xs.foldl max 0 := by
  unfold Quantity.largest
  congr 1
  funext a x
  split_ifs with h
  · exact (max_eq_right h.le).symm
  · exact (max_eq_left (not_lt.mp h)).symm

theorem foldl_max_le {xs : List Exact} {a b : Exact} : xs.foldl max a ≤ b ↔ a ≤ b ∧ ∀ x ∈ xs, x ≤ b := by
  induction xs generalizing a with
  | nil => simp
  | cons x xs ih => rw [List.foldl_cons, ih, List.forall_mem_cons, max_le_iff, and_assoc]

theorem largest_le {xs : List Exact} {b : Exact} : Quantity.largest xs ≤ b ↔ 0 ≤ b ∧ ∀ x ∈ xs, x ≤ b := by
  rw [largest_eq_foldl_max, foldl_max_le]

theorem le_largest {xs : List Exact} {x : Exact} (hx : x ∈ xs) : x ≤ Quantity.largest xs :=
  (largest_le.mp le_rfl).2 x hx

/-- The largest of some quantities that are not negative is one of them. -/
theorem isGreatest_largest {xs : List Exact} (hne : xs ≠ []) (h : ∀ x ∈ xs, 0 ≤ x) :
    IsGreatest {x | x ∈ xs} (Quantity.largest xs) := by
  refine ⟨?_, fun x hx => le_largest hx⟩
  have hmem : Quantity.largest xs = 0 ∨ Quantity.largest xs ∈ xs := by
    rw [largest_eq_foldl_max]
    refine List.foldlRecOn (motive := fun a => a = 0 ∨ a ∈ xs) xs max (.inl rfl) fun a ha x hx => ?_
    rcases max_choice a x with hmax | hmax <;> rw [hmax]
    · exact ha
    · exact .inr hx
  rcases hmem with hzero | hmem
  · obtain ⟨x, hx⟩ := List.exists_mem_of_ne_nil xs hne
    have hle := le_largest hx
    rw [hzero] at hle ⊢
    exact le_antisymm hle (h x hx) ▸ hx
  · exact hmem

/-! ## Sizes -/

/-- Whether a quantity is finite and not negative. -/
def IsSize (x : Exact) : Prop := ∃ q : ℚ, 0 ≤ q ∧ x = finite q

namespace IsSize

variable {x y : Exact}

theorem zero : IsSize 0 := ⟨0, le_rfl, rfl⟩

theorem nonneg (hx : x.IsSize) : 0 ≤ x := by
  obtain ⟨q, hq, rfl⟩ := hx
  exact finite_le_finite.mpr hq

theorem add (hx : x.IsSize) (hy : y.IsSize) : (x + y).IsSize := by
  obtain ⟨p, hp, rfl⟩ := hx
  obtain ⟨q, hq, rfl⟩ := hy
  exact ⟨p + q, add_nonneg hp hq, rfl⟩

/-- A quantity between zero and a size is a size. -/
theorem of_le (hy : y.IsSize) (h₀ : 0 ≤ x) (h : x ≤ y) : x.IsSize := by
  obtain ⟨q, hq, rfl⟩ := hy
  cases x with
  | finite p => exact ⟨p, finite_le_finite.mp h₀, rfl⟩
  | infinite => exact absurd h not_infinite_le_finite

theorem sum {xs : List Exact} (h : ∀ x ∈ xs, IsSize x) : xs.sum.IsSize := by
  induction xs with
  | nil => exact zero
  | cons x xs ih =>
    rw [List.forall_mem_cons] at h
    rw [List.sum_cons]
    exact h.1.add (ih h.2)

theorem exists_map_finite {xs : List Exact} (h : ∀ x ∈ xs, IsSize x) :
    ∃ qs : List ℚ, (∀ q ∈ qs, 0 ≤ q) ∧ xs = qs.map finite := by
  induction xs with
  | nil => exact ⟨[], by simp, rfl⟩
  | cons x xs ih =>
    rw [List.forall_mem_cons] at h
    obtain ⟨q, hq, rfl⟩ := h.1
    obtain ⟨qs, hqs, rfl⟩ := ih h.2
    exact ⟨q :: qs, List.forall_mem_cons.mpr ⟨hq, hqs⟩, rfl⟩

theorem max (hx : x.IsSize) (hy : y.IsSize) : (x ⊔ y).IsSize := by
  rcases max_choice x y with h | h <;> rw [h] <;> assumption

theorem largest {xs : List Exact} (h : ∀ x ∈ xs, IsSize x) : (Quantity.largest xs).IsSize := by
  rw [largest_eq_foldl_max]
  suffices ∀ a, IsSize a → (xs.foldl Max.max a).IsSize from this 0 zero
  induction xs with
  | nil => exact fun _ ha => ha
  | cons x xs ih =>
    rw [List.forall_mem_cons] at h
    exact fun a ha => ih h.2 _ (ha.max h.1)

end IsSize

end Exact

end SlotGrid
