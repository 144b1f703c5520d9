import SlotGrid.Proofs.Document.Reuse

/-! # Documents as forests

The links of a document form a forest: no element has two parents, and none is below itself. Moving an element
keeps that as long as it does not move into its own subtree. In a forest every path ends, so the bounds of the
traversals are never reached.
-/

namespace SlotGrid.Document

variable {α : Type} {d : Document} {a c e p r s x y : ElementId}

def Has (d : Document) (e : ElementId) : Prop := e.index < d.size

theorem has_iff_get? : d.Has e ↔ (d.get? e).isSome := by
  unfold Has get? size
  simp

def IsChild (d : Document) (e p : ElementId) : Prop := d.parent? e = some p

def Below (d : Document) : ElementId → ElementId → Prop := Relation.TransGen d.IsChild

/-- The first element is in the subtree of the second one, which may be the element itself. -/
def Under (d : Document) : ElementId → ElementId → Prop := Relation.ReflTransGen d.IsChild

structure IsForest (d : Document) : Prop where
  known : ∀ l ∈ d.links, d.Has l.child ∧ d.Has l.parent
  once : (d.links.map Link.child).Nodup
  acyclic : ∀ e, ¬ d.Below e e

/-! ## Links -/

theorem mem_links_of_isChild (h : d.IsChild e p) : ⟨e, p⟩ ∈ d.links := by
  obtain ⟨l, hl, rfl⟩ := Option.map_eq_some_iff.mp h
  obtain ⟨hmem, rfl⟩ := Keyed.mem_of_get? _ hl
  exact hmem

theorem mem_children : e ∈ d.children p ↔ ⟨e, p⟩ ∈ d.links := by
  unfold children
  constructor
  · rintro h
    obtain ⟨l, hl, rfl⟩ := List.mem_map.mp h
    obtain ⟨hmem, hp⟩ := List.mem_filter.mp hl
    obtain rfl := of_decide_eq_true hp
    exact hmem
  · exact fun h => List.mem_map.mpr ⟨_, List.mem_filter.mpr ⟨h, decide_eq_true rfl⟩, rfl⟩

/-- An element has one parent at most. -/
theorem IsChild.unique (h : d.IsChild e p) (h' : d.IsChild e a) : p = a := Option.some.inj (h.symm.trans h')

theorem not_below_of_parent? (hr : d.parent? r = none) : ¬ d.Below r a := by
  intro h
  obtain ⟨p, hp, -⟩ := Relation.TransGen.head'_iff.mp h
  cases hp.symm.trans hr

/-- Of two elements around a third one, one is around the other. -/
theorem under_or_below (ha : d.Under e a) (hr : d.Under e r) : d.Under a r ∨ d.Below r a := by
  induction ha using Relation.ReflTransGen.head_induction_on with
  | refl => exact .inl hr
  | head hp hpa ih =>
    rcases Relation.ReflTransGen.cases_head hr with rfl | ⟨p', hp', hr⟩
    · exact .inr (.head' hp hpa)
    · exact ih (hp.unique hp' ▸ hr)

namespace IsForest

variable (h : d.IsForest)
include h

theorem isChild_iff : d.IsChild e p ↔ ⟨e, p⟩ ∈ d.links := by
  refine ⟨mem_links_of_isChild, fun hl => ?_⟩
  unfold IsChild parent?
  rw [Keyed.get?_of_mem Link.child h.once hl]
  rfl

theorem mem_children_iff : e ∈ d.children p ↔ d.IsChild e p := mem_children.trans h.isChild_iff.symm

/-- The lists of children hold every element once under its parent, and nowhere else. -/
theorem count_children (e p : ElementId) : (d.children p).count e = if d.parent? e = some p then 1 else 0 := by
  have hnodup : (d.children p).Nodup := h.once.sublist (List.filter_sublist.map _)
  split_ifs with hp
  · exact List.count_eq_one_of_mem hnodup (h.mem_children_iff.mpr hp)
  · exact List.count_eq_zero_of_not_mem fun he => hp (h.mem_children_iff.mp he)

theorem has_of_isChild (hp : d.IsChild e p) : d.Has e ∧ d.Has p := h.known _ (mem_links_of_isChild hp)

end IsForest

/-! ## Moves

A path that does not pass the moved element is the same before and after a move.
-/

theorem isChild_move : (d.move x s).IsChild e p ↔ if e = x then s = p else d.IsChild e p := by
  unfold IsChild
  rw [parent?_move]
  split_ifs <;> simp

theorem isChild_move_self (d : Document) (x s : ElementId) : (d.move x s).IsChild x s :=
  isChild_move.mpr (by rw [if_pos rfl])

theorem isChild_move_of_ne (he : e ≠ x) : (d.move x s).IsChild e p ↔ d.IsChild e p := by
  rw [isChild_move, if_neg he]

/-- Outside the subtree of the moved element nothing changes. -/
theorem under_move_iff_of_not_under (he : ¬ d.Under e x) : (d.move x s).Under e a ↔ d.Under e a := by
  constructor
  · rintro ha
    induction ha with
    | refl => exact .refl
    | tail _ hp ih =>
      refine ih.tail ((isChild_move_of_ne ?_).mp hp)
      rintro rfl
      exact he ih
  · rintro ha
    induction ha using Relation.ReflTransGen.head_induction_on with
    | refl => exact .refl
    | head hp _ ih =>
      refine .head ((isChild_move_of_ne ?_).mpr hp) (ih fun hu => he (hu.head hp))
      rintro rfl
      exact he .refl

/-- The subtree of the moved element moves along. -/
theorem IsForest.under_move_of_under (h : d.IsForest) (he : d.Under e x) : (d.move x s).Under e x := by
  induction he using Relation.ReflTransGen.head_induction_on with
  | refl => exact .refl
  | head hp hu ih =>
    refine ih.head ((isChild_move_of_ne ?_).mpr hp)
    rintro rfl
    exact h.acyclic _ (.head' hp hu)

/-- A path after a move was there before, or it reaches the moved element and goes on at its new place. -/
theorem below_of_move (hs : ¬ d.Under s x) (he : (d.move x s).Below e a) :
    d.Below e a ∨ d.Under e x ∧ d.Under s a := by
  induction he with
  | single hp =>
    rename_i y
    by_cases hx : e = x
    · subst hx
      exact .inr ⟨.refl, (isChild_move_self d e s).unique hp ▸ .refl⟩
    · exact .inl (.single ((isChild_move_of_ne hx).mp hp))
  | tail _ hp ih =>
    rename_i y a _
    by_cases hx : y = x
    · subst hx
      obtain rfl := (isChild_move_self d y s).unique hp
      exact .inr ⟨ih.elim Relation.TransGen.to_reflTransGen fun h => absurd h.2 hs, .refl⟩
    · have hp := (isChild_move_of_ne hx).mp hp
      exact ih.imp (·.tail hp) fun ⟨hex, hsy⟩ => ⟨hex, hsy.tail hp⟩

/-- A forest stays one when an element moves out of its subtree. -/
theorem IsForest.move (h : d.IsForest) (hx : d.Has x) (hs : d.Has s) (hout : ¬ d.Under s x) :
    (d.move x s).IsForest := by
  have hlinks : (d.move x s).links = d.links.filter (·.child ≠ x) ++ [⟨x, s⟩] := rfl
  refine ⟨fun l hl => ?_, ?_, fun e he => ?_⟩
  · rw [hlinks, List.mem_append, List.mem_singleton] at hl
    rcases hl with hl | rfl
    · exact h.known l (List.mem_of_mem_filter hl)
    · exact ⟨hx, hs⟩
  · rw [hlinks, List.map_append]
    refine (h.once.sublist (List.filter_sublist.map _)).append (List.nodup_singleton x) ?_
    simp
  · rcases below_of_move hout he with he | ⟨hex, hse⟩
    · exact h.acyclic e he
    · exact hout (hse.trans hex)

/-! ## New elements -/

theorem IsForest.insert (h : d.IsForest) (x : Element) : (d.insert x).IsForest := by
  have hhas : ∀ e, d.Has e → (d.insert x).Has e := fun e he => by
    unfold Has size at he ⊢
    exact he.trans_le (by simp [Document.insert])
  exact ⟨fun l hl => (h.known l hl).imp (hhas _) (hhas _), h.once, h.acyclic⟩

theorem IsForest.parent?_nextId (h : d.IsForest) : d.parent? d.nextId = none :=
  Option.eq_none_iff_forall_ne_some.mpr fun _ hp => Nat.lt_irrefl _ (h.has_of_isChild hp).1

/-- An element is inserted under another one as if it were moved there. -/
theorem IsForest.insertUnder_eq (h : d.IsForest) (x : Element) (p : ElementId) :
    d.insertUnder x p = (d.insert x).move d.nextId p := by
  have hlinks : d.links.filter (·.child ≠ d.nextId) = d.links := by
    refine List.filter_eq_self.mpr fun l hl => decide_eq_true ?_
    rintro hnew
    exact Nat.lt_irrefl d.size (hnew ▸ (h.known l hl).1 : d.Has d.nextId)
  unfold insertUnder Document.move detach
  change _ = attach { d.insert x with links := d.links.filter (·.child ≠ d.nextId) } _ _
  rw [hlinks]
  rfl

theorem IsForest.not_under_nextId (h : d.IsForest) (hp : d.Has p) : ¬ d.Under p d.nextId := by
  intro hu
  rcases Relation.ReflTransGen.cases_tail hu with rfl | ⟨e, -, he⟩
  · exact Nat.lt_irrefl _ hp
  · exact Nat.lt_irrefl _ (h.has_of_isChild he).2

theorem size_insertUnder (d : Document) (x : Element) (p : ElementId) : (d.insertUnder x p).size = d.size + 1 := by
  unfold insertUnder Document.insert attach size
  simp

theorem has_insertUnder (x : Element) (p : ElementId) : (d.insertUnder x p).Has e ↔ d.Has e ∨ e = d.nextId := by
  unfold Has
  rw [size_insertUnder, Nat.lt_succ_iff_lt_or_eq]
  exact or_congr_right ⟨congrArg ElementId.mk, congrArg ElementId.index⟩

theorem IsForest.insertUnder (h : d.IsForest) (x : Element) (hp : d.Has p) : (d.insertUnder x p).IsForest := by
  have hhas : ∀ {e}, d.Has e ∨ e = d.nextId → (d.insert x).Has e := (has_insertUnder x p).mpr
  rw [h.insertUnder_eq]
  exact (h.insert x).move (hhas (.inr rfl)) (hhas (.inl hp)) (h.not_under_nextId hp)

theorem IsForest.isChild_insertUnder (h : d.IsForest) (x : Element) :
    (d.insertUnder x p).IsChild e a ↔ if e = d.nextId then p = a else d.IsChild e a := by
  rw [h.insertUnder_eq]
  exact isChild_move

/-! ## Links that are kept twice

A table of parents and one of children that are updated side by side: a move takes the element out of the children
of its old parent and puts it behind those of the new one.
-/

structure LinkTables where
  parent : ElementId → Option ElementId
  children : ElementId → List ElementId

namespace LinkTables

def attach (t : LinkTables) (e p : ElementId) : LinkTables :=
  { parent := Function.update t.parent e (some p)
    children := Function.update t.children p (t.children p ++ [e]) }

def detach (t : LinkTables) (e : ElementId) : LinkTables :=
  { parent := Function.update t.parent e none
    children := (t.parent e).elim t.children fun p => Function.update t.children p ((t.children p).filter (· ≠ e)) }

def reparent (t : LinkTables) (e p : ElementId) : LinkTables := (t.detach e).attach e p

end LinkTables

def tables (d : Document) : LinkTables := ⟨d.parent?, d.children⟩

theorem tables_attach (hp : d.parent? e = none) : (d.attach e p).tables = d.tables.attach e p := by
  unfold tables LinkTables.attach
  congr 1
  · funext x
    rw [parent?_attach, Function.update_apply]
    split_ifs with hx
    · rw [hx, hp, Option.none_or]
    · rw [Option.or_none]
  · funext x
    rw [children_attach, Function.update_apply]
    by_cases hx : x = p
    · simp [hx]
    · simp [hx, Ne.symm hx]

theorem IsForest.tables_detach (h : d.IsForest) (e : ElementId) : (d.detach e).tables = d.tables.detach e := by
  unfold tables LinkTables.detach
  congr 1
  · funext x
    rw [parent?_detach, Function.update_apply]
  · funext x
    have hkept : ¬ d.IsChild e x → (d.children x).filter (· ≠ e) = d.children x := fun hx =>
      List.filter_eq_self.mpr fun c hc => decide_eq_true fun hce => hx (h.mem_children_iff.mp (hce ▸ hc))
    rw [children_detach]
    dsimp only
    cases hp : d.parent? e with
    | none => exact hkept (by simp [IsChild, hp])
    | some p =>
      rw [Option.elim_some, Function.update_apply]
      split_ifs with hx
      · rw [hx]
      · exact hkept fun hc => hx (hc.unique hp)

theorem IsForest.tables_move (h : d.IsForest) (e p : ElementId) : (d.move e p).tables = d.tables.reparent e p := by
  unfold Document.move LinkTables.reparent
  rw [tables_attach (by rw [parent?_detach, if_pos rfl]), h.tables_detach]

theorem IsForest.tables_insertUnder (h : d.IsForest) (x : Element) (p : ElementId) :
    (d.insertUnder x p).tables = d.tables.attach d.nextId p :=
  tables_attach (d := d.insert x) h.parent?_nextId

/-! ## Upwards -/

/-- Parents are followed until there is none. -/
inductive Climbs (d : Document) : ElementId → List ElementId → Prop
  | stop {e : ElementId} : d.parent? e = none → Climbs d e []
  | up {e p : ElementId} {above : List ElementId} : d.parent? e = some p → Climbs d p above → Climbs d e (p :: above)

theorem ancestorsWithin_succ (d : Document) (k : ℕ) (e : ElementId) :
    d.ancestorsWithin (k + 1) e = (d.parent? e).elim [] fun p => p :: d.ancestorsWithin k p := rfl

theorem isChain_ancestorsWithin (d : Document) (k : ℕ) (e : ElementId) :
    (e :: d.ancestorsWithin k e).IsChain d.IsChild := by
  induction k generalizing e with
  | zero => exact .singleton e
  | succ k ih =>
    rw [ancestorsWithin_succ]
    cases hp : d.parent? e with
    | none => exact .singleton e
    | some p => exact .cons_cons hp (ih p)

/-- A path that is shorter than the bound has come to its end. -/
theorem ancestorsWithin_succ_of_length_lt {k : ℕ} (hk : (d.ancestorsWithin k e).length < k) :
    d.ancestorsWithin (k + 1) e = d.ancestorsWithin k e := by
  induction k generalizing e with
  | zero => cases hk
  | succ k ih =>
    rw [ancestorsWithin_succ] at hk
    rw [ancestorsWithin_succ, ancestorsWithin_succ d k]
    cases hp : d.parent? e with
    | none => rfl
    | some p =>
      rw [hp] at hk
      exact congrArg (p :: ·) (ih (Nat.lt_of_succ_lt_succ hk))

namespace IsForest

variable (h : d.IsForest)
include h

theorem has_of_mem_ancestorsWithin {k : ℕ} (ha : a ∈ d.ancestorsWithin k e) : d.Has a := by
  induction k generalizing e with
  | zero => cases ha
  | succ k ih =>
    rw [ancestorsWithin_succ] at ha
    cases hp : d.parent? e with
    | none => simp [hp] at ha
    | some p =>
      rw [hp] at ha
      rcases List.mem_cons.mp ha with rfl | ha
      · exact (h.has_of_isChild hp).2
      · exact ih ha

/-- A path visits no element twice. -/
theorem length_ancestorsWithin_lt (he : d.Has e) (k : ℕ) : (d.ancestorsWithin k e).length < d.size := by
  have hpath : (e :: d.ancestorsWithin k e).Pairwise d.Below :=
    ((isChain_ancestorsWithin d k e).imp fun _ _ => Relation.TransGen.single).pairwise
  have hnodup : ((e :: d.ancestorsWithin k e).map ElementId.index).Nodup := by
    refine List.Pairwise.map _ (fun x y hxy hindex => ?_) hpath
    have hsame : x = y := congrArg ElementId.mk hindex
    exact h.acyclic y (hsame ▸ hxy)
  have hsubset : (e :: d.ancestorsWithin k e).map ElementId.index ⊆ List.range d.size := by
    rintro i hi
    obtain ⟨x, hx, rfl⟩ := List.mem_map.mp hi
    rcases List.mem_cons.mp hx with rfl | hx
    · exact List.mem_range.mpr he
    · exact List.mem_range.mpr (h.has_of_mem_ancestorsWithin hx)
  simpa using (List.subperm_of_subset hnodup hsubset).length_le

theorem ancestors_eq (e : ElementId) : d.ancestors e = (d.parent? e).elim [] fun p => p :: d.ancestors p := by
  unfold ancestors
  rw [← ancestorsWithin_succ]
  by_cases he : d.Has e
  · exact (ancestorsWithin_succ_of_length_lt (h.length_ancestorsWithin_lt he _)).symm
  · have hnone : d.parent? e = none := Option.eq_none_iff_forall_ne_some.mpr fun p hp => he (h.has_of_isChild hp).1
    cases d.size <;> simp [ancestorsWithin, hnone]

theorem ancestors_of_isChild (hp : d.IsChild e p) : d.ancestors e = p :: d.ancestors p := by
  rw [h.ancestors_eq, show d.parent? e = some p from hp]
  rfl

theorem climbs (e : ElementId) : d.Climbs e (d.ancestors e) := by
  generalize hn : (d.ancestors e).length = n
  induction n generalizing e with
  | zero =>
    have hnil := List.eq_nil_of_length_eq_zero hn
    rw [hnil]
    cases hp : d.parent? e with
    | none => exact .stop hp
    | some p => exact absurd (h.ancestors_of_isChild hp) (by simp [hnil])
  | succ n ih =>
    cases hp : d.parent? e with
    | none => simp [h.ancestors_eq e, hp] at hn
    | some p =>
      rw [h.ancestors_of_isChild hp] at hn ⊢
      exact .up hp (ih p (Nat.succ.inj hn))

theorem mem_ancestors : a ∈ d.ancestors e ↔ d.Below e a := by
  have hclimbs := h.climbs e
  generalize d.ancestors e = above at hclimbs
  induction hclimbs with
  | stop hp => exact iff_of_false List.not_mem_nil (not_below_of_parent? hp)
  | up hp _ ih =>
    rw [List.mem_cons]
    refine (or_congr_right ih).trans ?_
    constructor
    · rintro (rfl | ha)
      · exact .single hp
      · exact .head hp ha
    · rintro ha
      obtain ⟨p', hp', ha⟩ := Relation.TransGen.head'_iff.mp ha
      obtain rfl := IsChild.unique hp hp'
      exact (Relation.reflTransGen_iff_eq_or_transGen.mp ha).imp_left id

/-! ## Downwards -/

theorem length_ancestors_lt (he : d.Has e) : (d.ancestors e).length < d.size := h.length_ancestorsWithin_lt he _

/-- What holds of an element if it holds of all its children holds everywhere. -/
theorem induction_below {motive : ElementId → Prop} (step : ∀ e, (∀ c ∈ d.children e, motive c) → motive e)
    (e : ElementId) : motive e := by
  generalize hn : d.size - (d.ancestors e).length = n
  induction n using Nat.strong_induction_on generalizing e with
  | h n ih =>
    refine step e fun c hc => ih _ ?_ c rfl
    have hp := h.mem_children_iff.mp hc
    have hlt := h.length_ancestors_lt (h.has_of_isChild hp).1
    rw [h.ancestors_of_isChild hp, List.length_cons] at hlt ⊢
    omega

/-- Below an element that is as deep as can be there is nothing. -/
theorem children_eq_nil_of_size_le (hsize : d.size ≤ (d.ancestors e).length + 1) : d.children e = [] := by
  refine List.eq_nil_iff_forall_not_mem.mpr fun c hc => ?_
  have hp := h.mem_children_iff.mp hc
  have hlt := h.length_ancestors_lt (h.has_of_isChild hp).1
  rw [h.ancestors_of_isChild hp, List.length_cons] at hlt
  omega

theorem foldWithin_succ_of_size_le (f : ElementId → List α → α) {k : ℕ}
    (hk : d.size ≤ (d.ancestors e).length + 1 + k) : d.foldWithin f (k + 1) e = d.foldWithin f k e := by
  induction k generalizing e with
  | zero =>
    unfold foldWithin
    rw [h.children_eq_nil_of_size_le hk]
    rfl
  | succ k ih =>
    rw [foldWithin, foldWithin]
    refine congrArg (f e) (List.map_congr_left fun c hc => ih ?_)
    rw [h.ancestors_of_isChild (h.mem_children_iff.mp hc), List.length_cons]
    omega

theorem fold_eq (f : ElementId → List α → α) (e : ElementId) : d.fold f e = f e ((d.children e).map (d.fold f)) :=
  (h.foldWithin_succ_of_size_le f (Nat.le_add_left ..)).symm

theorem walk_eq (e : ElementId) : d.walk e = e :: (d.children e).flatMap d.walk := h.fold_eq _ e

theorem mem_walk : x ∈ d.walk e ↔ d.Under x e := by
  induction e using h.induction_below with
  | step e ih =>
    rw [h.walk_eq, List.mem_cons, List.mem_flatMap]
    constructor
    · rintro (rfl | ⟨c, hc, hx⟩)
      · exact .refl
      · exact ((ih c hc).mp hx).tail (h.mem_children_iff.mp hc)
    · rintro hx
      rcases Relation.ReflTransGen.cases_tail hx with rfl | ⟨c, hxc, hc⟩
      · exact .inl rfl
      · have hc := h.mem_children_iff.mpr hc
        exact .inr ⟨c, hc, (ih c hc).mpr hxc⟩

theorem mem_tree : e ∈ d.tree ↔ ∃ r, d.root? = some r ∧ d.Under e r := by
  unfold tree
  cases d.root? with
  | none => simp
  | some r => simpa using h.mem_walk

end IsForest

theorem has_of_root? (h : d.root? = some r) : d.Has r := by
  unfold root? at h
  unfold Has size
  cases hd : d.elements with
  | nil => simp [hd] at h
  | cons _ _ =>
    rw [hd] at h
    obtain rfl := Option.some.inj h
    exact Nat.zero_lt_succ _

/-- Elements are taken from a stack, and the children of each are put onto it. -/
inductive Visits (d : Document) : List ElementId → List ElementId → Prop
  | stop : Visits d [] []
  | skip {e : ElementId} {stack visited : List ElementId} : ¬ d.Has e → Visits d stack visited →
      Visits d (e :: stack) visited
  | visit {e : ElementId} {stack visited : List ElementId} : d.Has e → Visits d (d.children e ++ stack) visited →
      Visits d (e :: stack) (e :: visited)

theorem IsForest.visits (h : d.IsForest) (he : d.Has e) : d.Visits [e] (d.walk e) := by
  suffices hstack : ∀ {stack visited}, d.Visits stack visited → d.Visits (e :: stack) (d.walk e ++ visited) by
    simpa using hstack .stop
  induction e using h.induction_below with
  | step e ih =>
    intro stack visited hrest
    have hlist : ∀ cs ⊆ d.children e, d.Visits (cs ++ stack) (cs.flatMap d.walk ++ visited) := by
      intro cs hcs
      induction cs with
      | nil => exact hrest
      | cons c cs ihcs =>
        obtain ⟨hc, hcs⟩ := List.cons_subset.mp hcs
        rw [List.flatMap_cons, List.append_assoc]
        exact ih c hc (h.has_of_isChild (h.mem_children_iff.mp hc)).1 (ihcs hcs)
    rw [h.walk_eq]
    exact .visit he (hlist _ (List.Subset.refl _))

end SlotGrid.Document
