import SlotGrid.Proofs.Document.Forest

/-! # The order of a document

A walk shows an element before all that is below it, and all under a child before all under a later one. In a forest
nothing is before itself, so a walk shows no element twice. A stack of elements that are still to be visited leads
to the same list.
-/

namespace SlotGrid.Document

variable {d : Document} {a b e p x y : ElementId}

/-- An element is before all that is below it, and all under a child is before all under a later child. -/
def Precedes (d : Document) (x y : ElementId) : Prop :=
  d.Below y x ∨ ∃ p a b, [a, b].Sublist (d.children p) ∧ d.Under x a ∧ d.Under y b

namespace IsForest

variable (h : d.IsForest)
include h

theorem nodup_children (p : ElementId) : (d.children p).Nodup := h.once.sublist (List.filter_sublist.map _)

/-- The subtrees of two children have nothing in common. -/
theorem not_under_of_sublist (hab : [a, b].Sublist (d.children p)) (ha : d.Under x a) : ¬ d.Under x b := by
  have hne : a ≠ b := by simpa using (h.nodup_children p).sublist hab
  have hap : d.IsChild a p := h.mem_children_iff.mp (hab.subset (by simp))
  have hbp : d.IsChild b p := h.mem_children_iff.mp (hab.subset (by simp))
  -- a way from one child to the other one passes their parent
  have haway : ∀ {c c'}, d.IsChild c p → d.IsChild c' p → c ≠ c' → ¬ d.Under c c' := by
    intro c c' hc hc' hne hu
    rcases Relation.ReflTransGen.cases_head hu with heq | ⟨q, hq, hqc⟩
    · exact hne heq
    · obtain rfl := hc.unique hq
      exact h.acyclic c' (.head' hc' hqc)
  intro hb
  rcases under_or_below ha hb with hu | hbelow
  · exact haway hap hbp hne hu
  · exact haway hbp hap hne.symm hbelow.to_reflTransGen

theorem not_precedes_self (x : ElementId) : ¬ d.Precedes x x := by
  rintro (hbelow | ⟨p, a, b, hab, ha, hb⟩)
  · exact h.acyclic x hbelow
  · exact h.not_under_of_sublist hab ha hb

theorem pairwise_precedes_walk (e : ElementId) : (d.walk e).Pairwise d.Precedes := by
  induction e using h.induction_below with
  | step e ih =>
    rw [h.walk_eq, List.pairwise_cons, List.pairwise_flatMap]
    refine ⟨fun y hy => .inl ?_, ih, List.pairwise_iff_forall_sublist.mpr fun {a b} hab x hx y hy => ?_⟩
    · obtain ⟨c, hc, hyc⟩ := List.mem_flatMap.mp hy
      exact .tail' (h.mem_walk.mp hyc) (h.mem_children_iff.mp hc)
    · exact .inr ⟨e, a, b, hab, h.mem_walk.mp hx, h.mem_walk.mp hy⟩

theorem pairwise_precedes_tree : d.tree.Pairwise d.Precedes := by
  unfold tree
  cases d.root? with
  | none => exact .nil
  | some r => exact h.pairwise_precedes_walk r

end IsForest

/-- A stack leads to one list only. -/
theorem Visits.unique {stack visited visited' : List ElementId} (h : d.Visits stack visited)
    (h' : d.Visits stack visited') : visited = visited' := by
  induction h generalizing visited' with
  | stop =>
    cases h'
    rfl
  | skip he _ ih =>
    cases h' with
    | skip _ h' => exact ih h'
    | visit he' _ => exact absurd he' he
  | visit he _ ih =>
    cases h' with
    | skip he' _ => exact absurd he he'
    | visit _ h' => rw [ih h']

theorem IsForest.visits_root_iff (h : d.IsForest) {r : ElementId} (hr : d.root? = some r) {visited : List ElementId} :
    d.Visits [r] visited ↔ visited = d.tree := by
  have htree : d.tree = d.walk r := by
    unfold tree
    rw [hr]
    rfl
  have hwalk : d.Visits [r] (d.walk r) := h.visits (has_of_root? hr)
  rw [htree]
  exact ⟨fun hvisited => hvisited.unique hwalk, fun heq => heq ▸ hwalk⟩

end SlotGrid.Document
