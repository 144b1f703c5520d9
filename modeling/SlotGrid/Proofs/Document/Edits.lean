import SlotGrid.Proofs.Document.Forest

/-! # Edited documents

Documents are built by inserting and moving content, by creating elements for grids and by placing content in
slots. All of this keeps the links a forest: content goes into a slot of a template that stands right below an
element around it, so no slot of its own subtree is ever taken. What hangs on the root stays there.
-/

namespace SlotGrid.Document

variable {α : Type} {d d' d'' : Document} {a container e p r s t template x y : ElementId} {name : Char}

def role? (d : Document) (e : ElementId) : Option Role := (d.get? e).map Element.role

theorem isContent_iff : d.isContent e = true ↔ d.role? e = some .content := by
  unfold isContent role?
  cases d.get? e <;> simp

theorem has_of_role? {role : Role} (h : d.role? e = some role) : d.Has e := by
  obtain ⟨_, hget, -⟩ := Option.map_eq_some_iff.mp h
  exact has_iff_get?.mpr (by rw [hget]; rfl)

/-- Every slot element stands in the element of its template. -/
structure WellBuilt (d : Document) : Prop extends d.IsForest where
  slots : ∀ s ∈ d.slots, d.IsChild s.element s.template ∧ d.role? s.element = some (.slot s.name) ∧
    d.role? s.template = some .template

theorem wellBuilt_empty (config : Config) : (Document.empty config).WellBuilt := by
  refine { known := ?_, once := List.nodup_nil, acyclic := fun e => ?_, slots := ?_ }
  · rintro l ⟨⟩
  · exact not_below_of_parent? rfl
  · rintro s ⟨⟩

/-! ## Moves of content -/

theorem WellBuilt.move (h : d.WellBuilt) (hx : d.isContent x = true) (hs : d.Has s) (hout : ¬ d.Under s x) :
    (d.move x s).WellBuilt := by
  have hrole := isContent_iff.mp hx
  refine ⟨h.toIsForest.move (has_of_role? hrole) hs hout, fun entry hentry => ?_⟩
  obtain ⟨hchild, hslot, htemplate⟩ := h.slots entry hentry
  refine ⟨(isChild_move_of_ne ?_).mpr hchild, hslot, htemplate⟩
  rintro rfl
  cases hrole.symm.trans hslot

theorem exists_of_slotIn? (h : d.slotIn? template name = some s) : ⟨template, name, s⟩ ∈ d.slots := by
  obtain ⟨⟨t, n, e⟩, hfind, rfl⟩ := Option.map_eq_some_iff.mp h
  obtain ⟨rfl, rfl⟩ : t = template ∧ n = name := by simpa using List.find?_some hfind
  exact List.mem_of_find?_eq_some hfind

/-- A slot around an element is in a template that stands next to the element or to one above it. -/
theorem exists_of_slotAround? (h : d.slotAround? e name = some s) :
    ∃ a ∈ d.ancestors e, ∃ t ∈ d.children a, ⟨t, name, s⟩ ∈ d.slots := by
  obtain ⟨a, ha, hbelow⟩ := List.exists_of_findSome?_eq_some h
  obtain ⟨t, ht, hslot⟩ := List.exists_of_findSome?_eq_some hbelow
  refine ⟨a, ha, t, ht, exists_of_slotIn? ?_⟩
  split at hslot
  · exact hslot
  · cases hslot

/-- What stands two levels below an element above another is not in the subtree of that one, unless one of the levels is
that element. -/
theorem IsForest.not_under_of_ne (h : d.IsForest) (hst : d.IsChild s t) (hta : d.IsChild t a) (hea : d.Below e a)
    (hs : s ≠ e) (ht : t ≠ e) : ¬ d.Under s e := by
  intro hse
  rcases Relation.ReflTransGen.cases_head hse with heq | ⟨_, hp, hte⟩
  · exact hs heq
  · obtain rfl := hst.unique hp
    rcases Relation.ReflTransGen.cases_head hte with heq | ⟨_, hp, hae⟩
    · exact ht heq
    · obtain rfl := hta.unique hp
      exact h.acyclic e (hea.trans_left hae)

/-- No slot around content is in the subtree of the content. -/
theorem WellBuilt.exists_of_slotAround? (h : d.WellBuilt) (he : d.isContent e = true)
    (hs : d.slotAround? e name = some s) : d.Has s ∧ ¬ d.Under s e ∧ ∃ a, d.Below e a ∧ d.Under s a := by
  obtain ⟨a, ha, t, ht, hentry⟩ := Document.exists_of_slotAround? hs
  obtain ⟨hchild, hslot, htemplate⟩ := h.slots _ hentry
  have hea := h.mem_ancestors.mp ha
  have hta := h.mem_children_iff.mp ht
  have hrole := isContent_iff.mp he
  refine ⟨has_of_role? hslot, h.not_under_of_ne hchild hta hea ?_ ?_, a, hea, .head hchild (.single hta)⟩
  · rintro rfl
    cases hrole.symm.trans hslot
  · rintro rfl
    cases hrole.symm.trans htemplate

/-- A move to a place beside an element above keeps everything below an element that is at the top. -/
theorem WellBuilt.under_move (h : d.WellBuilt) (hout : ¬ d.Under s x) (hxa : d.Below x a) (hsa : d.Under s a)
    (hr : d.parent? r = none) (hy : d.Under y r) : (d.move x s).Under y r := by
  by_cases hyx : d.Under y x
  · have hxr : d.Under x r := (under_or_below hyx hy).resolve_right (not_below_of_parent? hr)
    have har : d.Under a r := (under_or_below hxa.to_reflTransGen hxr).resolve_right (not_below_of_parent? hr)
    exact (h.under_move_of_under hyx).trans <|
      .head (isChild_move_self d x s) ((under_move_iff_of_not_under hout).mpr (hsa.trans har))
  · exact (under_move_iff_of_not_under hyx).mpr hy

/-! ## Placed content -/

/-- The same elements hang together in another way, and none has left a tree. -/
structure Rearranged (d d' : Document) : Prop where
  wellBuilt : d'.WellBuilt
  elements : d'.elements = d.elements
  top : ∀ {r}, d.parent? r = none → d'.parent? r = none
  under : ∀ {y r}, d.parent? r = none → d.Under y r → d'.Under y r

namespace Rearranged

theorem refl (h : d.WellBuilt) : d.Rearranged d := ⟨h, rfl, id, fun _ => id⟩

theorem trans (h : d.Rearranged d') (h' : d'.Rearranged d'') : d.Rearranged d'' :=
  ⟨h'.wellBuilt, h'.elements.trans h.elements, fun hr => h'.top (h.top hr),
    fun hr hy => h'.under (h.top hr) (h.under hr hy)⟩

theorem isContent_eq (h : d.Rearranged d') (e : ElementId) : d'.isContent e = d.isContent e := by
  unfold isContent get?
  rw [h.elements]

theorem role?_eq (h : d.Rearranged d') (e : ElementId) : d'.role? e = d.role? e := by
  unfold role? get?
  rw [h.elements]

end Rearranged

theorem WellBuilt.rearranged_moveToSlot (h : d.WellBuilt) (he : d.isContent e = true) (name : Char) :
    d.Rearranged (d.moveToSlot name e) := by
  unfold moveToSlot
  cases hs : d.slotAround? e name with
  | none => exact .refl h
  | some s =>
    obtain ⟨hhas, hout, a, hea, hsa⟩ := h.exists_of_slotAround? he hs
    refine ⟨h.move he hhas hout, rfl, fun {r} hr => ?_, fun hr hy => h.under_move hout hea hsa hr hy⟩
    rw [Option.elim_some, parent?_move, if_neg, hr]
    rintro rfl
    exact not_below_of_parent? hr hea

theorem WellBuilt.parent?_moveToSlot (h : d.WellBuilt) (hp : (d.moveToSlot name x).parent? e = some p) :
    d.parent? e = some p ∨ d.role? p = some (.slot name) := by
  unfold moveToSlot at hp
  cases hs : d.slotAround? x name with
  | none =>
    rw [hs] at hp
    exact .inl hp
  | some s =>
    rw [hs, Option.elim_some, parent?_move] at hp
    split_ifs at hp
    · obtain ⟨a, -, t, -, hentry⟩ := Document.exists_of_slotAround? hs
      obtain ⟨-, hslot, -⟩ := h.slots _ hentry
      exact .inr (Option.some.inj hp ▸ hslot)
    · exact .inl hp

theorem WellBuilt.foldl_moveToSlot (h : d.WellBuilt) {es : List ElementId} (hes : ∀ c ∈ es, d.isContent c = true)
    (name : Char) : d.Rearranged (es.foldl (·.moveToSlot name) d) ∧
      ∀ {e p}, (es.foldl (·.moveToSlot name) d).parent? e = some p →
        d.parent? e = some p ∨ d.role? p = some (.slot name) := by
  induction es generalizing d with
  | nil => exact ⟨.refl h, .inl⟩
  | cons c es ih =>
    obtain ⟨hc, hes⟩ := List.forall_mem_cons.mp hes
    have hmoved := h.rearranged_moveToSlot hc name
    obtain ⟨hrest, hparent⟩ := ih hmoved.wellBuilt fun x hx => (hmoved.isContent_eq x).trans (hes x hx)
    refine ⟨hmoved.trans hrest, fun hp => ?_⟩
    rcases hparent hp with hp | hrole
    · exact h.parent?_moveToSlot hp
    · exact .inr ((hmoved.role?_eq _).symm.trans hrole)

theorem WellBuilt.rearranged_place (h : d.WellBuilt) (pos : Style.Position) : d.Rearranged (d.place pos) :=
  (h.foldl_moveToSlot (fun _ hc => (List.mem_filter.mp hc).2) pos.slot).1

theorem WellBuilt.parent?_place (h : d.WellBuilt) {pos : Style.Position} (hp : (d.place pos).parent? e = some p) :
    d.parent? e = some p ∨ d.role? p = some (.slot pos.slot) :=
  (h.foldl_moveToSlot (fun _ hc => (List.mem_filter.mp hc).2) pos.slot).2 hp

theorem WellBuilt.rearranged_placeAll (h : d.WellBuilt) (ps : List Style.Position) : d.Rearranged (d.placeAll ps) := by
  unfold placeAll
  induction ps generalizing d with
  | nil => exact .refl h
  | cons pos ps ih =>
    have hplaced := h.rearranged_place pos
    exact hplaced.trans (ih hplaced.wellBuilt)

/-- An element that gets another parent when content is placed is in a slot that a position names. -/
theorem WellBuilt.parent?_placeAll (h : d.WellBuilt) {ps : List Style.Position}
    (hp : (d.placeAll ps).parent? e = some p) : d.parent? e = some p ∨ ∃ pos ∈ ps, d.role? p = some (.slot pos.slot) := by
  unfold placeAll at hp
  induction ps generalizing d with
  | nil => exact .inl hp
  | cons pos ps ih =>
    have hplaced := h.rearranged_place pos
    rcases ih hplaced.wellBuilt hp with hp | ⟨pos', hpos', hrole⟩
    · exact (h.parent?_place hp).imp_right fun hrole => ⟨pos, List.mem_cons_self, hrole⟩
    · exact .inr ⟨pos', List.mem_cons_of_mem _ hpos', (hplaced.role?_eq p).symm.trans hrole⟩

/-! ## Created elements -/

/-- There may be more elements, but the old ones are as they were. -/
structure Grown (d d' : Document) : Prop where
  wellBuilt : d'.WellBuilt
  root : d'.root? = d.root?
  role : ∀ {e}, d.Has e → d'.role? e = d.role? e
  parent : ∀ {e}, d.Has e → d'.parent? e = d.parent? e

namespace Grown

theorem refl (h : d.WellBuilt) : d.Grown d := ⟨h, rfl, fun _ => rfl, fun _ => rfl⟩

theorem has (h : d.Grown d') (he : d.Has e) : d'.Has e := by
  obtain ⟨x, hx⟩ := Option.isSome_iff_exists.mp (has_iff_get?.mp he)
  have hrole : d.role? e = some x.role := by
    unfold role?
    rw [hx]
    rfl
  exact has_of_role? ((h.role he).trans hrole)

theorem trans (h : d.Grown d') (h' : d'.Grown d'') : d.Grown d'' :=
  ⟨h'.wellBuilt, h'.root.trans h.root, fun he => (h'.role (h.has he)).trans (h.role he),
    fun he => (h'.parent (h.has he)).trans (h.parent he)⟩

end Grown

theorem ne_nextId_of_has (he : d.Has e) : e ≠ d.nextId := by
  rintro rfl
  exact Nat.lt_irrefl _ he

theorem role?_insertUnder_of_has (x : Element) (p : ElementId) (he : d.Has e) :
    (d.insertUnder x p).role? e = d.role? e := by
  unfold role?
  rw [get?_insertUnder, if_neg (ne_nextId_of_has he)]

theorem role?_insertUnder_nextId (d : Document) (x : Element) (p : ElementId) :
    (d.insertUnder x p).role? d.nextId = some x.role := by
  unfold role?
  rw [get?_insertUnder, if_pos rfl]
  rfl

/-- The slots stay in place as long as the links and roles of the elements do. -/
theorem WellBuilt.slots_of_eq (h : d.WellBuilt) (hparent : ∀ {e}, d.Has e → d'.parent? e = d.parent? e)
    (hrole : ∀ {e}, d.Has e → d'.role? e = d.role? e) : ∀ s ∈ d.slots, d'.IsChild s.element s.template ∧
      d'.role? s.element = some (.slot s.name) ∧ d'.role? s.template = some .template := by
  rintro s hs
  obtain ⟨hchild, hslot, htemplate⟩ := h.slots s hs
  exact ⟨(hparent (has_of_role? hslot)).trans hchild, (hrole (has_of_role? hslot)).trans hslot,
    (hrole (has_of_role? htemplate)).trans htemplate⟩

theorem WellBuilt.insert (h : d.WellBuilt) (x : Element) : (d.insert x).WellBuilt :=
  ⟨h.toIsForest.insert x, h.slots_of_eq (fun _ => rfl) fun he => role?_insertUnder_of_has x d.nextId he⟩

theorem WellBuilt.addStyle (h : d.WellBuilt) (text : String) : (d.addStyle text).WellBuilt :=
  ⟨⟨h.known, h.once, h.acyclic⟩, h.slots⟩

theorem root?_of_has (he : d.Has e) : d.root? = some ⟨0⟩ := by
  unfold Has size at he
  unfold root?
  cases hd : d.elements with
  | nil => simp [hd] at he
  | cons _ _ => rfl

theorem WellBuilt.grown_insertUnder (h : d.WellBuilt) (x : Element) (hp : d.Has p) : d.Grown (d.insertUnder x p) := by
  have hparent : ∀ {e}, d.Has e → (d.insertUnder x p).parent? e = d.parent? e := fun he => by
    rw [h.insertUnder_eq, parent?_move, if_neg (ne_nextId_of_has he), parent?_insert]
  refine ⟨⟨h.toIsForest.insertUnder x hp, h.slots_of_eq hparent (role?_insertUnder_of_has x p)⟩, ?_,
    role?_insertUnder_of_has x p, hparent⟩
  rw [root?_of_has hp, root?_of_has ((has_insertUnder x p).mpr (.inl hp))]

theorem WellBuilt.grown_withTemplate (h : d.WellBuilt) (hc : d.Has container) (id : String) :
    d.Grown (d.withTemplate container id).1 ∧
      (d.withTemplate container id).1.role? (d.withTemplate container id).2 = some .template := by
  unfold withTemplate
  split
  · rename_i e he
    refine ⟨.refl h, ?_⟩
    unfold role?
    cases hget : d.get? e with
    | none => simpa [hget] using List.find?_some he
    | some x =>
      have hx : x.role = .template ∧ x.id = some id := by simpa [hget] using List.find?_some he
      exact congrArg some hx.1
  · exact ⟨h.grown_insertUnder _ hc, role?_insertUnder_nextId ..⟩

theorem WellBuilt.grown_addSlot (h : d.WellBuilt) {s : SlotEntry} (hchild : d.IsChild s.element s.template)
    (hslot : d.role? s.element = some (.slot s.name)) (htemplate : d.role? s.template = some .template) :
    d.Grown (d.addSlot s) := by
  refine ⟨⟨⟨h.known, h.once, h.acyclic⟩, fun entry hentry => ?_⟩, rfl, fun _ => rfl, fun _ => rfl⟩
  rcases List.mem_append.mp hentry with hentry | hentry
  · exact h.slots entry hentry
  · obtain rfl := List.mem_singleton.mp hentry
    exact ⟨hchild, hslot, htemplate⟩

theorem WellBuilt.grown_withSlot (h : d.WellBuilt) (ht : d.role? template = some .template) (name : Char)
    (id : String) : d.Grown (d.withSlot template name id).1 := by
  unfold withSlot
  split
  · exact .refl h
  · have hgrown := h.grown_insertUnder { Element.ofTag "div" with id := some id, role := .slot name }
      (has_of_role? ht)
    refine hgrown.trans (hgrown.wellBuilt.grown_addSlot ?_ (role?_insertUnder_nextId ..) ?_)
    · exact (h.isChild_insertUnder _).mpr (by rw [if_pos rfl])
    · exact (hgrown.role (has_of_role? ht)).trans ht

theorem WellBuilt.grown_materializeSlots (h : d.WellBuilt) (ht : d.role? template = some .template)
    (ss : List (GridSlot ElementId α)) : d.Grown (d.materializeSlots template ss).1 := by
  induction ss generalizing d with
  | nil => exact .refl h
  | cons s ss ih =>
    have hslot := h.grown_withSlot ht s.name s.id
    exact hslot.trans (ih hslot.wellBuilt ((hslot.role (has_of_role? ht)).trans ht))

/-- What is asked of the element itself that a chain selects. -/
def Chain.subject : Chain → Compound
  | compound c | child _ c | descendant _ c => c

theorem Chain.any_subject_of_holds {chain : Chain} (h : chain.holds d e = true) : (d.get? e).any chain.subject.holds := by
  cases chain with
  | compound => exact h
  | child => exact (Bool.and_eq_true_iff.mp h).1
  | descendant => exact (Bool.and_eq_true_iff.mp h).1

theorem has_of_chain_holds {chain : Chain} (h : chain.holds d e = true) : d.Has e := by
  obtain ⟨x, hx, -⟩ := (Option.any_eq_true _ _).mp (Chain.any_subject_of_holds h)
  exact has_iff_get?.mpr (by rw [hx]; rfl)

theorem has_of_queryOne? {selector : String} (h : d.queryOne? selector = some e) : d.Has e := by
  have hmem : e ∈ d.query selector := List.mem_of_mem_head? h
  unfold query at hmem
  cases hread : Chain.readAll? selector with
  | none => simp [hread] at hmem
  | some chains =>
    rw [hread] at hmem
    obtain ⟨_, -, hholds⟩ := List.any_eq_true.mp (List.mem_filter.mp hmem).2
    exact has_of_chain_holds hholds

theorem WellBuilt.grown_materialize (h : d.WellBuilt) (g : Grid ElementId α) : d.Grown (d.materialize g).1 := by
  unfold materialize
  split
  · exact .refl h
  · rename_i container hcontainer
    obtain ⟨htemplate, hrole⟩ := h.grown_withTemplate (has_of_queryOne? hcontainer) g.id
    exact htemplate.trans (htemplate.wellBuilt.grown_materializeSlots hrole g.slots)

theorem WellBuilt.grown_materializeAll (h : d.WellBuilt) (gs : List (Grid ElementId α)) :
    d.Grown (d.materializeAll gs).1 := by
  induction gs generalizing d with
  | nil => exact .refl h
  | cons g gs ih =>
    have hg := h.grown_materialize g
    exact hg.trans (ih hg.wellBuilt)

/-! ## Sequences of edits -/

inductive Edit (α : Type)
  | insert (x : Element)
  | insertUnder (x : Element) (parent : ElementId)
  | move (e parent : ElementId)
  | materialize (gs : List (Grid ElementId α))
  | place (ps : List Style.Position)

def edit (d : Document) : Edit α → Document
  | .insert x => d.insert x
  | .insertUnder x parent => d.insertUnder x parent
  | .move e parent => d.move e parent
  | .materialize gs => (d.materializeAll gs).1
  | .place ps => d.placeAll ps

/-- Content is inserted under elements that are there, and moved out of its own subtree. -/
def Allows (d : Document) : Edit α → Prop
  | .insert x => x.role = .content
  | .insertUnder x parent => x.role = .content ∧ d.Has parent
  | .move e parent => d.isContent e = true ∧ d.Has parent ∧ ¬ d.Under parent e
  | .materialize _ => True
  | .place _ => True

/-- The edits lead from an empty document to this one. -/
inductive Edited (config : Config) : List (Edit α) → Document → Prop
  | empty : Edited config [] (Document.empty config)
  | edit {es : List (Edit α)} {d : Document} {x : Edit α} : Edited config es d → d.Allows x →
      Edited config (es ++ [x]) (d.edit x)

theorem WellBuilt.edit (h : d.WellBuilt) {x : Edit α} (hx : d.Allows x) : (d.edit x).WellBuilt := by
  cases x with
  | insert x => exact h.insert x
  | insertUnder x p => exact (h.grown_insertUnder x hx.2).wellBuilt
  | move e p => exact h.move hx.1 hx.2.1 hx.2.2
  | materialize gs => exact (h.grown_materializeAll gs).wellBuilt
  | place ps => exact (h.rearranged_placeAll ps).wellBuilt

theorem WellBuilt.of_edited {config : Config} {es : List (Edit α)} (h : Edited config es d) : d.WellBuilt := by
  induction h with
  | empty => exact wellBuilt_empty config
  | edit _ hx ih => exact ih.edit hx

/-! ## The root -/

/-- The root is at the top until it is moved itself. -/
theorem WellBuilt.parent?_root_edit (h : d.WellBuilt) (hroot : ∀ {r}, d.root? = some r → d.parent? r = none)
    {x : Edit α} (hx : d.Allows x) (hr : (d.edit x).root? = some r) (hmove : ∀ p, x ≠ .move r p) :
    (d.edit x).parent? r = none := by
  have hgrown : ∀ {d'}, d.Grown d' → d'.root? = some r → d'.parent? r = none := fun hg hr => by
    have hr := hg.root.symm.trans hr
    exact (hg.parent (has_of_root? hr)).trans (hroot hr)
  cases x with
  | insert x =>
    by_cases hr' : d.root? = some r
    · exact hroot hr'
    · refine Option.eq_none_iff_forall_ne_some.mpr fun p hp => hr' ?_
      rw [root?_of_has (has_of_root? hr)] at hr
      exact (root?_of_has (h.has_of_isChild hp).1).trans hr
  | insertUnder x p => exact hgrown (h.grown_insertUnder x hx.2) hr
  | move e p =>
    change (d.move e p).parent? r = none
    rw [parent?_move, if_neg, hroot hr]
    rintro rfl
    exact hmove p rfl
  | materialize gs => exact hgrown (h.grown_materializeAll gs) hr
  | place ps =>
    have hplaced := h.rearranged_placeAll ps
    refine hplaced.top (hroot ?_)
    unfold root? at hr ⊢
    rwa [← hplaced.elements]

theorem parent?_root_of_edited {config : Config} {es : List (Edit α)} (h : Edited config es d)
    (hr : d.root? = some r) (hmove : ∀ p, .move r p ∉ es) : d.parent? r = none := by
  induction h generalizing r with
  | empty => cases hr
  | @edit es d x h hx ih =>
    have hd := WellBuilt.of_edited h
    refine hd.parent?_root_edit (fun {r'} hr' => ih hr' fun p hp => ?_) hx hr fun p hp => ?_
    · have hsame : r' = r := by
        have hzero := root?_of_has (has_of_root? hr)
        have hzero' := root?_of_has (has_of_root? hr')
        exact Option.some.inj ((hr'.symm.trans hzero').trans (hzero.symm.trans hr))
      exact hmove p (List.mem_append_left _ (hsame ▸ hp))
    · exact hmove p (List.mem_append_right _ (List.mem_singleton.mpr hp.symm))

/-- However a document is edited, its links stay a forest: every element is once among the children of its parent
and of no other element, and links that are kept twice are changed in the same way. No element is above itself, so
following parents and visiting subtrees come to an end. Slots stand in their templates. Placing content takes
nothing out of the tree of a root that was never moved. -/
theorem links_of_edited {config : Config} {es : List (Edit α)} {d : Document} (h : Edited config es d) :
    (∀ e p, (d.children p).count e = if d.parent? e = some p then 1 else 0) ∧
    (∀ e p, (d.move e p).tables = d.tables.reparent e p) ∧
    (∀ x p, (d.insertUnder x p).tables = d.tables.attach d.nextId p) ∧
    (∀ e, ¬ d.Below e e) ∧
    (∀ e, d.Climbs e (d.ancestors e) ∧ e ∉ d.ancestors e) ∧
    (∀ e, d.Has e → d.Visits [e] (d.walk e)) ∧
    (∀ s ∈ d.slots, d.role? s.element = some (.slot s.name) ∧ d.parent? s.element = some s.template ∧
      d.role? s.template = some .template) ∧
    ∀ r, d.root? = some r → (∀ p, .move r p ∉ es) → ∀ ps, ∀ e ∈ d.tree, e ∈ (d.placeAll ps).tree := by
  have hbuilt := WellBuilt.of_edited h
  refine ⟨hbuilt.count_children, hbuilt.tables_move, hbuilt.tables_insertUnder, hbuilt.acyclic,
    fun e => ⟨hbuilt.climbs e, fun he => ?_⟩, fun e => hbuilt.visits, fun s hs => ?_, fun r hr hmove ps e he => ?_⟩
  · exact hbuilt.acyclic e (hbuilt.mem_ancestors.mp he)
  · obtain ⟨hchild, hslot, htemplate⟩ := hbuilt.slots s hs
    exact ⟨hslot, hchild, htemplate⟩
  · have hplaced := hbuilt.rearranged_placeAll ps
    have htop := parent?_root_of_edited h hr hmove
    obtain ⟨r', hr', hunder⟩ := hbuilt.mem_tree.mp he
    obtain rfl := Option.some.inj (hr.symm.trans hr')
    refine hplaced.wellBuilt.mem_tree.mpr ⟨r, ?_, hplaced.under htop hunder⟩
    unfold root? at hr ⊢
    rwa [hplaced.elements]

/-- A paragraph is placed in the slot of a template, and what was in it is moved out of it. -/
theorem links_of_edited_paragraph :
    let slot : GridSlot ElementId Unit :=
      { Slot.single 'a' 0 0 with id := "s", element := none, extent := none, width := none, height := () }
    let grid : Grid ElementId Unit := ⟨"t", "body", "", [], [], [slot], none, none, (), ()⟩
    ∃ d, Edited Config.standard [.insert (.ofTag "body"), .insertUnder (.ofTag "p") ⟨0⟩,
        .insertUnder (.ofTag "b") ⟨1⟩, .materialize [grid], .place [⟨"p", 'a'⟩], .move ⟨2⟩ ⟨0⟩] d ∧
      d.children ⟨0⟩ = [⟨3⟩, ⟨2⟩] ∧ d.ancestors ⟨1⟩ = [⟨4⟩, ⟨3⟩, ⟨0⟩] ∧ d.Climbs ⟨1⟩ (d.ancestors ⟨1⟩) ∧
      ∀ ps, ∀ e ∈ d.tree, e ∈ (d.placeAll ps).tree := by
  intro slot grid
  have hedited := @Edited.empty Unit Config.standard
    |>.edit (x := .insert (.ofTag "body")) rfl
    |>.edit (x := .insertUnder (.ofTag "p") ⟨0⟩) ⟨rfl, Nat.zero_lt_one⟩
    |>.edit (x := .insertUnder (.ofTag "b") ⟨1⟩) ⟨rfl, Nat.one_lt_two⟩
    |>.edit (x := .materialize [grid]) trivial
    |>.edit (x := .place [⟨"p", 'a'⟩]) trivial
    |>.edit (x := .move ⟨2⟩ ⟨0⟩) (by
      refine ⟨by cbv, by cbv, fun hunder => ?_⟩
      rcases Relation.reflTransGen_iff_eq_or_transGen.mp hunder with hsame | hbelow
      · cases hsame
      · exact not_below_of_parent? (by cbv) hbelow)
  obtain ⟨-, -, -, -, hclimbs, -, -, htree⟩ := links_of_edited hedited
  refine ⟨_, hedited, by cbv, by cbv, (hclimbs ⟨1⟩).1, htree ⟨0⟩ (by cbv) (by simp)⟩

end SlotGrid.Document
