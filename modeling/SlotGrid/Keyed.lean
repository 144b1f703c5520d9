/-! # Keyed lists

Lists with one entry for a key, in the order in which the keys came first. Putting an entry under a key that
is there already replaces the old entry where it stands.
-/

namespace SlotGrid.Keyed

variable {α κ : Type} [DecidableEq κ] (key : α → κ)

def get? (k : κ) (xs : List α) : Option α := xs.find? (key · = k)

def put (x : α) : List α → List α
  | [] => [x]
  | y :: ys => if key y = key x then x :: ys else y :: put x ys

/-- The distinct elements of a list, in the order in which they come first. -/
def distinct : List κ → List κ
  | [] => []
  | k :: ks => k :: (distinct ks).filter (· ≠ k)

theorem map_put (x : α) (xs : List α) :
    (put key x xs).map key = if key x ∈ xs.map key then xs.map key else xs.map key ++ [key x] := by
  induction xs with
  | nil => rfl
  | cons y ys ih =>
    by_cases h : key y = key x
    · simp [put, h]
    · have h' : key x ≠ key y := fun e => h e.symm
      simp only [put, h, if_false, List.map_cons, ih, List.mem_cons, h', false_or]
      split <;> simp_all

theorem nodup_put {x : α} {xs : List α} (h : (xs.map key).Nodup) : ((put key x xs).map key).Nodup := by
  rw [map_put]
  split
  · exact h
  · rename_i hx
    exact List.nodup_append.mpr ⟨h, by simp, by intro a ha b hb; simp at hb; rintro rfl; exact hx (hb ▸ ha)⟩

theorem get?_put (k : κ) (x : α) (xs : List α) :
    get? key k (put key x xs) = if key x = k then some x else get? key k xs := by
  unfold get?
  induction xs with
  | nil => by_cases h : key x = k <;> simp [put, h]
  | cons y ys ih =>
    by_cases h : key y = key x <;> by_cases hk : key x = k <;> by_cases hy : key y = k <;> simp_all [put]

theorem put_of_not_mem {x : α} {xs : List α} (h : key x ∉ xs.map key) : put key x xs = xs ++ [x] := by
  induction xs with
  | nil => rfl
  | cons y ys ih =>
    rw [List.map_cons, List.mem_cons, not_or] at h
    rw [put, if_neg (Ne.symm h.1), ih h.2, List.cons_append]

theorem put_eq_set {x : α} {xs : List α} {i : Nat} (hnodup : (xs.map key).Nodup)
    (h : (xs.map key)[i]? = some (key x)) : put key x xs = xs.set i x := by
  induction xs generalizing i with
  | nil => cases h
  | cons y ys ih =>
    obtain ⟨hy, hys⟩ := List.nodup_cons.mp hnodup
    cases i with
    | zero => rw [put, if_pos (Option.some.inj h), List.set_cons_zero]
    | succ i =>
      have hne : key y ≠ key x := fun he => hy (he ▸ List.mem_of_getElem? h)
      rw [put, if_neg hne, ih hys h, List.set_cons_succ]

/-- Nothing changes if an entry is put where it is. -/
theorem put_of_get? {x : α} {xs : List α} (h : get? key (key x) xs = some x) : put key x xs = xs := by
  induction xs with
  | nil => cases h
  | cons y ys ih =>
    unfold get? at h
    by_cases hy : key y = key x
    · rw [List.find?_cons_of_pos (by simpa using hy)] at h
      rw [put, if_pos hy, Option.some.inj h]
    · rw [List.find?_cons_of_neg (by simpa using hy)] at h
      rw [put, if_neg hy, ih h]

theorem eq_or_mem_of_mem_put {x y : α} {xs : List α} (h : y ∈ put key x xs) : y = x ∨ y ∈ xs := by
  induction xs with
  | nil => exact .inl (List.mem_singleton.mp h)
  | cons z zs ih =>
    unfold put at h
    split at h
    · exact (List.mem_cons.mp h).imp id (List.mem_cons_of_mem z)
    · rcases List.mem_cons.mp h with rfl | h
      · exact .inr List.mem_cons_self
      · exact (ih h).imp id (List.mem_cons_of_mem z)

theorem mem_put {x y : α} {xs : List α} (h : (xs.map key).Nodup) :
    y ∈ put key x xs ↔ y = x ∨ y ∈ xs ∧ key y ≠ key x := by
  induction xs with
  | nil => simp [put]
  | cons z zs ih =>
    obtain ⟨hz, hzs⟩ := List.nodup_cons.mp h
    by_cases hk : key z = key x
    · have hne : ∀ w ∈ zs, key w ≠ key x := fun w hw he => hz (hk ▸ he ▸ List.mem_map_of_mem hw)
      simp only [put, hk, if_true, List.mem_cons]
      constructor
      · rintro (rfl | hy)
        · exact .inl rfl
        · exact .inr ⟨.inr hy, hne y hy⟩
      · rintro (rfl | ⟨rfl | hy, hn⟩)
        · exact .inl rfl
        · exact absurd hk hn
        · exact .inr hy
    · simp only [put, hk, if_false, List.mem_cons, ih hzs]
      constructor
      · rintro (rfl | rfl | ⟨hy, hn⟩)
        · exact .inr ⟨.inl rfl, hk⟩
        · exact .inl rfl
        · exact .inr ⟨.inr hy, hn⟩
      · rintro (rfl | ⟨rfl | hy, hn⟩)
        · exact .inr (.inl rfl)
        · exact .inl rfl
        · exact .inr (.inr ⟨hy, hn⟩)

theorem mem_of_get? {k : κ} {x : α} {xs : List α} (h : get? key k xs = some x) : x ∈ xs ∧ key x = k :=
  ⟨List.mem_of_find?_eq_some h, by simpa using List.find?_some h⟩

theorem get?_eq_none {k : κ} {xs : List α} (h : get? key k xs = none) : k ∉ xs.map key := by
  intro hk
  obtain ⟨x, hx, rfl⟩ := List.mem_map.mp hk
  have hn := List.find?_eq_none.mp h x hx
  simp at hn

/-- The entry of a key is found by it. -/
theorem get?_of_mem {x : α} {xs : List α} (h : (xs.map key).Nodup) (hx : x ∈ xs) :
    get? key (key x) xs = some x := by
  induction xs with
  | nil => cases hx
  | cons y ys ih =>
    obtain ⟨hy, hys⟩ := List.nodup_cons.mp h
    unfold get?
    rcases List.mem_cons.mp hx with rfl | hx
    · simp
    · have hne : key y ≠ key x := fun he => hy (he ▸ List.mem_map_of_mem hx)
      rw [List.find?_cons_of_neg (by simpa using hne)]
      exact ih hys hx

@[simp] theorem mem_distinct {k : κ} {ks : List κ} : k ∈ distinct ks ↔ k ∈ ks := by
  induction ks with
  | nil => rfl
  | cons j ks ih =>
    by_cases h : k = j <;> simp [distinct, ih, h]

theorem nodup_distinct (ks : List κ) : (distinct ks).Nodup := by
  induction ks with
  | nil => exact List.nodup_nil
  | cons k ks ih => exact List.nodup_cons.mpr ⟨by simp, ih.filter _⟩

theorem distinct_append_singleton (ks : List κ) (k : κ) :
    distinct (ks ++ [k]) = if k ∈ ks then distinct ks else distinct ks ++ [k] := by
  induction ks with
  | nil => rfl
  | cons j ks ih =>
    simp only [List.cons_append, distinct, ih, List.mem_cons]
    by_cases hk : k ∈ ks
    · simp [hk]
    · by_cases hj : k = j
      · subst hj
        simp [hk]
      · simp [hk, hj]

end SlotGrid.Keyed
