import SlotGrid.Proofs.Document.Edits

/-! # Placing content in the nearest slots

A position moves all content that it selects, one after the other, and elements of it may lie in each other. If
templates stand in content only, a move changes the slot around no element: what is cut out of the way upwards has no
template with the slot, and the slot and the template that come in offer none. So every element goes to the slot that
was around it at the beginning.
-/

namespace SlotGrid.Document

variable {d : Document} {a e p s t x : ElementId} {name : Char}

/-! ## The nearest slot -/

/-- Whether an element is that of a template with a slot of this name. -/
def Declares (d : Document) (name : Char) (t : ElementId) : Prop :=
  d.role? t = some .template ∧ (d.slotIn? t name).isSome

/-- The slot of a name in the nearest template around an element that declares it. The template stands in an element
above, and of several in the same element the first one counts. -/
def IsNearestSlot (d : Document) (e : ElementId) (name : Char) (s : ElementId) : Prop :=
  ∃ a, d.Below e a ∧ (∃ before t after, d.children a = before ++ t :: after ∧ d.role? t = some .template ∧
      d.slotIn? t name = some s ∧ ∀ c ∈ before, ¬ d.Declares name c) ∧
    ∀ a', d.Below e a' → a' = a ∨ d.Below a a' ∨ ∀ c ∈ d.children a', ¬ d.Declares name c

theorem isTemplate_iff : (d.get? e).any (fun e => decide (e.role = .template)) = true ↔ d.role? e = some .template := by
  unfold role?
  cases d.get? e <;> simp

/-- The slot of a name in the template that an element is for. -/
def slotOf? (d : Document) (name : Char) (t : ElementId) : Option ElementId :=
  if (d.get? t).any fun e => decide (e.role = .template) then d.slotIn? t name else none

theorem slotOf?_eq_some_iff : d.slotOf? name t = some s ↔ d.role? t = some .template ∧ d.slotIn? t name = some s := by
  unfold slotOf?
  rw [← isTemplate_iff]
  split_ifs with h <;> simp [h]

theorem slotOf?_eq_none_iff : d.slotOf? name t = none ↔ ¬ d.Declares name t := by
  unfold slotOf? Declares
  rw [← isTemplate_iff]
  split_ifs with h <;> simp [h]

theorem slotBelow?_eq (d : Document) (name : Char) (a : ElementId) :
    d.slotBelow? name a = (d.children a).findSome? (d.slotOf? name) := rfl

theorem slotBelow?_eq_some_iff : d.slotBelow? name a = some s ↔ ∃ before t after, d.children a = before ++ t :: after ∧
    d.role? t = some .template ∧ d.slotIn? t name = some s ∧ ∀ c ∈ before, ¬ d.Declares name c := by
  simp only [slotBelow?_eq, List.findSome?_eq_some_iff, slotOf?_eq_some_iff, slotOf?_eq_none_iff, and_assoc]

theorem slotBelow?_eq_none_iff : d.slotBelow? name a = none ↔ ∀ c ∈ d.children a, ¬ d.Declares name c := by
  simp only [slotBelow?_eq, List.findSome?_eq_none_iff, slotOf?_eq_none_iff]

theorem pairwise_ancestors (d : Document) (e : ElementId) : (d.ancestors e).Pairwise d.Below :=
  (((isChain_ancestorsWithin d d.size e).imp fun _ _ => Relation.TransGen.single).pairwise).tail

theorem IsForest.slotAround?_eq_some_iff (h : d.IsForest) :
    d.slotAround? e name = some s ↔ d.IsNearestSlot e name s := by
  unfold slotAround? IsNearestSlot
  rw [List.findSome?_eq_some_iff]
  simp only [slotBelow?_eq_some_iff, slotBelow?_eq_none_iff, ← h.mem_ancestors]
  have hpairwise := d.pairwise_ancestors e
  constructor
  · rintro ⟨front, a, rest, hancestors, hslot, hfront⟩
    rw [hancestors] at hpairwise ⊢
    obtain ⟨-, hrest, -⟩ := List.pairwise_append.mp hpairwise
    refine ⟨a, by simp, hslot, fun a' ha' => ?_⟩
    rcases List.mem_append.mp ha' with ha' | ha'
    · exact .inr (.inr (hfront a' ha'))
    · rcases List.mem_cons.mp ha' with rfl | ha'
      · exact .inl rfl
      · exact .inr (.inl (h.mem_ancestors.mpr (List.rel_of_pairwise_cons hrest ha')))
  · rintro ⟨a, ha, hslot, hnearest⟩
    obtain ⟨front, rest, hancestors⟩ := List.append_of_mem ha
    refine ⟨front, a, rest, hancestors, hslot, fun x hx => ?_⟩
    rw [hancestors] at hpairwise hnearest
    have hxa : d.Below x a := (List.pairwise_append.mp hpairwise).2.2 x hx a List.mem_cons_self
    rcases hnearest x (List.mem_append_left _ hx) with rfl | hax | hnone
    · exact absurd hxa (h.acyclic x)
    · exact absurd (hxa.trans (h.mem_ancestors.mp hax)) (h.acyclic x)
    · exact hnone

theorem IsForest.slotAround?_eq (h : d.IsForest) (e : ElementId) (name : Char) :
    d.slotAround? e name = (d.parent? e).bind fun p => (d.slotBelow? name p).or (d.slotAround? p name) := by
  unfold slotAround?
  rw [h.ancestors_eq]
  cases d.parent? e with
  | none => rfl
  | some p =>
    rw [Option.elim_some, List.findSome?_cons, Option.bind_some]
    cases d.slotBelow? name p <;> rfl

/-! ## One move -/

/-- Templates stand in content, and the elements of slots, which are no content, in those of their templates. -/
structure Framed (d : Document) : Prop extends d.IsForest where
  templates : ∀ {t p}, d.role? t = some .template → d.IsChild t p → d.isContent p = true
  slots : ∀ s ∈ d.slots, d.IsChild s.element s.template ∧ d.isContent s.element = false

theorem isContent_eq_false {role : Role} (he : d.role? e = some role) (hrole : role ≠ .content) :
    d.isContent e = false := by
  refine Bool.eq_false_iff.mpr fun hcontent => hrole ?_
  exact Option.some.inj (he.symm.trans (isContent_iff.mp hcontent))

theorem WellBuilt.framed (h : d.WellBuilt)
    (htemplates : ∀ {t p}, d.role? t = some .template → d.IsChild t p → d.isContent p = true) : d.Framed :=
  ⟨h.toIsForest, htemplates, fun s hs => ⟨(h.slots s hs).1, isContent_eq_false (h.slots s hs).2.1 nofun⟩⟩

theorem ne_of_isContent (hx : d.isContent x = true) (he : d.isContent e = false) : e ≠ x := by
  rintro rfl
  cases hx.symm.trans he

/-- The templates in an element stay in it when content moves. -/
theorem slotBelow?_move (hx : d.isContent x = true) (s : ElementId) (name : Char) (a : ElementId) :
    (d.move x s).slotBelow? name a = d.slotBelow? name a := by
  have hnone : d.slotOf? name x = none :=
    slotOf?_eq_none_iff.mpr fun hdeclares => ne_of_isContent hx (isContent_eq_false hdeclares.1 nofun) rfl
  have hkept : ∀ cs : List ElementId,
      (cs.filter (· ≠ x)).findSome? (d.slotOf? name) = cs.findSome? (d.slotOf? name) := by
    intro cs
    induction cs with
    | nil => rfl
    | cons c cs ih =>
      by_cases hc : c = x
      · rw [List.filter_cons_of_neg (by simpa using hc), ih, List.findSome?_cons, hc, hnone]
      · rw [List.filter_cons_of_pos (by simpa using hc), List.findSome?_cons, List.findSome?_cons, ih]
  have hlast : (if s = a then [x] else []).findSome? (d.slotOf? name) = none := by
    split_ifs
    · rw [List.findSome?_cons, hnone]
      rfl
    · rfl
  change ((d.move x s).children a).findSome? (d.slotOf? name) = (d.children a).findSome? (d.slotOf? name)
  rw [children_move, List.findSome?_append, hkept, hlast, Option.or_none]

namespace Framed

variable (h : d.Framed)
include h

/-- Only content has templates in it. -/
theorem slotBelow?_eq_none (ha : d.isContent a = false) (name : Char) : d.slotBelow? name a = none := by
  refine slotBelow?_eq_none_iff.mpr fun c hc hdeclares => ?_
  exact ne_of_isContent (h.templates hdeclares.1 (h.mem_children_iff.mp hc)) ha rfl

/-- The slot around content is two levels below an element above the content. -/
theorem exists_of_slotAround? (hs : d.slotAround? x name = some s) : ∃ t a, d.IsChild s t ∧ d.IsChild t a ∧
    d.Below x a ∧ d.isContent s = false ∧ d.isContent t = false ∧ d.slotBelow? name a = some s := by
  obtain ⟨a, ha, ⟨before, t, after, hchildren, htemplate, hslot, hbefore⟩, -⟩ := h.slotAround?_eq_some_iff.mp hs
  have hta : t ∈ d.children a := by
    rw [hchildren]
    exact List.mem_append_right _ List.mem_cons_self
  obtain ⟨hst, hcontent⟩ := h.slots _ (exists_of_slotIn? hslot)
  exact ⟨t, a, hst, h.mem_children_iff.mp hta, ha, hcontent, isContent_eq_false htemplate nofun,
    slotBelow?_eq_some_iff.mpr ⟨before, t, after, hchildren, htemplate, hslot, hbefore⟩⟩

theorem move_of_slotAround? (hx : d.isContent x = true) (hs : d.slotAround? x name = some s) : (d.move x s).Framed := by
  obtain ⟨t, a, hst, hta, hxa, hslot, htemplate, -⟩ := h.exists_of_slotAround? hs
  have hout := h.not_under_of_ne hst hta hxa (ne_of_isContent hx hslot) (ne_of_isContent hx htemplate)
  refine ⟨h.toIsForest.move (has_of_role? (isContent_iff.mp hx)) (h.has_of_isChild hst).1 hout, fun {t p} ht hp => ?_,
    fun entry hentry => ?_⟩
  · exact h.templates ht ((isChild_move_of_ne (ne_of_isContent hx (isContent_eq_false ht nofun))).mp hp)
  · obtain ⟨hchild, hentry⟩ := h.slots entry hentry
    exact ⟨(isChild_move_of_ne (ne_of_isContent hx hentry)).mpr hchild, hentry⟩

/-- The slot around every element stays the same when content moves to the slot that is around it. -/
theorem slotAround?_move (hx : d.isContent x = true) (hs : d.slotAround? x name = some s) (e : ElementId) :
    (d.move x s).slotAround? e name = d.slotAround? e name := by
  have hmoved := h.move_of_slotAround? hx hs
  have hclimbs := h.climbs e
  generalize d.ancestors e = above at hclimbs
  induction hclimbs with
  | @stop e hp =>
    have hne : e ≠ x := by
      rintro rfl
      rw [h.slotAround?_eq, hp] at hs
      cases hs
    rw [hmoved.slotAround?_eq, h.slotAround?_eq, parent?_move, if_neg hne, hp]
    rfl
  | @up e p _ hp _ ih =>
    by_cases hex : e = x
    · subst hex
      obtain ⟨t, a, hst, hta, -, hslot, htemplate, hbelow⟩ := h.exists_of_slotAround? hs
      -- the new way leads through the slot and its template to the element that the template stands in
      have hup : (d.move e s).parent? e = some s ∧ (d.move e s).parent? s = some t ∧ (d.move e s).parent? t = some a :=
        ⟨isChild_move_self d e s, (isChild_move_of_ne (ne_of_isContent hx hslot)).mpr hst,
          (isChild_move_of_ne (ne_of_isContent hx htemplate)).mpr hta⟩
      obtain ⟨hes, hst', hta'⟩ := hup
      rw [hs, hmoved.slotAround?_eq, hes, Option.bind_some, hmoved.slotBelow?_eq_none hslot, Option.none_or,
        hmoved.slotAround?_eq, hst', Option.bind_some, hmoved.slotBelow?_eq_none htemplate, Option.none_or,
        hmoved.slotAround?_eq, hta', Option.bind_some, slotBelow?_move hx, hbelow, Option.some_or]
    · rw [hmoved.slotAround?_eq, h.slotAround?_eq e, parent?_move, if_neg hex, hp, Option.bind_some, Option.bind_some,
        slotBelow?_move hx, ih]

end Framed

/-! ## All moves of a position -/

theorem Framed.moveToSlot (h : d.Framed) (hx : d.isContent x = true) (name : Char) : (d.moveToSlot name x).Framed ∧
    (∀ e, (d.moveToSlot name x).slotAround? e name = d.slotAround? e name) ∧
    ∀ e, (d.moveToSlot name x).parent? e =
      if e = x then (d.slotAround? x name).or (d.parent? x) else d.parent? e := by
  unfold Document.moveToSlot
  cases hs : d.slotAround? x name with
  | none =>
    refine ⟨h, fun _ => rfl, fun e => ?_⟩
    split_ifs with he
    · rw [he]
      rfl
    · rfl
  | some s => exact ⟨h.move_of_slotAround? hx hs, h.slotAround?_move hx hs, parent?_move d x s⟩

theorem isContent_moveToSlot (d : Document) (name : Char) (x e : ElementId) :
    (d.moveToSlot name x).isContent e = d.isContent e := by
  unfold moveToSlot
  cases d.slotAround? x name <;> rfl

/-- In whatever order content moves, all of it goes to the slots that were around it before. -/
theorem Framed.foldl_moveToSlot (h : d.Framed) {es : List ElementId} (hes : ∀ c ∈ es, d.isContent c = true)
    (name : Char) :
    (∀ e, (es.foldl (·.moveToSlot name) d).parent? e =
      if e ∈ es then (d.slotAround? e name).or (d.parent? e) else d.parent? e) ∧
    d.movesToSlot name es = es.filterMap fun e => (d.slotAround? e name).map (Link.mk e) := by
  induction es generalizing d with
  | nil => exact ⟨fun _ => rfl, rfl⟩
  | cons c es ih =>
    obtain ⟨hc, hes⟩ := List.forall_mem_cons.mp hes
    obtain ⟨hmoved, haround, hparent⟩ := h.moveToSlot hc name
    obtain ⟨hfold, hmoves⟩ := ih hmoved fun x hx => (isContent_moveToSlot d name c x).trans (hes x hx)
    constructor
    · intro e
      rw [List.foldl_cons, hfold, haround, hparent]
      by_cases hec : e = c
      · subst hec
        rw [if_pos rfl, if_pos List.mem_cons_self, ← Option.or_assoc, Option.or_self, ite_self]
      · rw [if_neg hec]
        simp only [List.mem_cons, hec, false_or]
    · rw [movesToSlot, hmoves]
      simp only [haround]
      cases hs : d.slotAround? c name with
      | none =>
        rw [List.filterMap_cons_none (by rw [hs]; rfl)]
        rfl
      | some s =>
        rw [List.filterMap_cons_some (by rw [hs]; rfl)]
        rfl

/-- The content that a position moves: it is selected, and there is a slot for it. -/
def Moves (d : Document) (pos : Style.Position) (e : ElementId) : Prop :=
  e ∈ d.query pos.selector ∧ d.isContent e = true ∧ ∃ s, d.IsNearestSlot e pos.slot s

/-- Elements that are not moved have the order that they had. -/
theorem sublist_children_moveAll {ms : List Link} {b : ElementId} (ha : a ∉ ms.map Link.child)
    (hb : b ∉ ms.map Link.child) (p : ElementId) :
    [a, b].Sublist ((d.moveAll ms).children p) ↔ [a, b].Sublist (d.children p) := by
  have hkept : ∀ cs : List ElementId, [a, b].Sublist cs ↔ [a, b].Sublist (cs.filter (· ∉ ms.map Link.child)) := by
    intro cs
    refine ⟨fun hab => ?_, fun hab => hab.trans List.filter_sublist⟩
    have hpair : [a, b].filter (· ∉ ms.map Link.child) = [a, b] :=
      List.filter_eq_self.mpr (by simp only [List.forall_mem_cons, decide_eq_true ha, decide_eq_true hb]; simp)
    rw [← hpair]
    exact hab.filter _
  have hmoved : (movedInto ms p).filter (· ∉ ms.map Link.child) = [] :=
    List.filter_eq_nil_iff.mpr fun c hc hnot => of_decide_eq_true hnot
      (List.mem_map_of_mem (mem_of_mem_lastMoves (mem_movedInto.mp hc)))
  rw [hkept, hkept (d.children p), children_moveAll, List.filter_append, List.filter_filter, hmoved, List.append_nil]
  simp only [Bool.and_self]

/-- Placing the content of one position moves all content that it selects to the nearest slots, as the document was
before: what moves first has no influence on where the rest goes. All other elements keep their parents, and siblings
that are not moved keep their order. -/
theorem place_into_nearest_slots (h : d.Framed) (pos : Style.Position) :
    (∀ e s, e ∈ d.query pos.selector → d.isContent e = true → d.IsNearestSlot e pos.slot s →
      (d.placeAll [pos]).parent? e = some s) ∧
    (∀ e, ¬ d.Moves pos e → (d.placeAll [pos]).parent? e = d.parent? e) ∧
    (∀ p a b, ¬ d.Moves pos a → ¬ d.Moves pos b →
      ([a, b].Sublist ((d.placeAll [pos]).children p) ↔ [a, b].Sublist (d.children p))) ∧
    ∀ es : List ElementId, (∀ e, e ∈ es ↔ e ∈ d.query pos.selector ∧ d.isContent e = true) →
      ∀ e, (es.foldl (·.moveToSlot pos.slot) d).parent? e = (d.placeAll [pos]).parent? e := by
  have hselected : ∀ e,
      e ∈ (d.query pos.selector).filter d.isContent ↔ e ∈ d.query pos.selector ∧ d.isContent e = true :=
    fun _ => List.mem_filter
  obtain ⟨hparent, hmoves⟩ := h.foldl_moveToSlot (fun c hc => ((hselected c).mp hc).2) pos.slot
  change (∀ e, (d.placeAll [pos]).parent? e = _) at hparent
  have hnone : ∀ e, ¬ d.Moves pos e → e ∈ (d.query pos.selector).filter d.isContent →
      d.slotAround? e pos.slot = none := by
    intro e he hmem
    refine Option.eq_none_iff_forall_ne_some.mpr fun s hs => he ?_
    obtain ⟨hquery, hcontent⟩ := (hselected e).mp hmem
    exact ⟨hquery, hcontent, s, h.slotAround?_eq_some_iff.mp hs⟩
  have hstays : ∀ e, ¬ d.Moves pos e →
      e ∉ (d.movesToSlot pos.slot ((d.query pos.selector).filter d.isContent)).map Link.child := by
    intro e he hmem
    rw [hmoves] at hmem
    obtain ⟨l, hl, rfl⟩ := List.mem_map.mp hmem
    obtain ⟨x, hx, hlink⟩ := List.mem_filterMap.mp hl
    obtain ⟨s, hs, rfl⟩ := Option.map_eq_some_iff.mp hlink
    rw [hnone x he hx] at hs
    cases hs
  refine ⟨fun e s hquery hcontent hs => ?_, fun e he => ?_, fun p a b ha hb => ?_, fun es hes e => ?_⟩
  · rw [hparent, if_pos ((hselected e).mpr ⟨hquery, hcontent⟩), h.slotAround?_eq_some_iff.mpr hs, Option.some_or]
  · rw [hparent]
    split_ifs with hmem
    · rw [hnone e he hmem, Option.none_or]
    · rfl
  · have hplaced : d.placeAll [pos] =
        d.moveAll (d.movesToSlot pos.slot ((d.query pos.selector).filter d.isContent)) := foldl_moveToSlot ..
    rw [hplaced]
    exact sublist_children_moveAll (hstays a ha) (hstays b hb) p
  · obtain ⟨hparent', -⟩ := h.foldl_moveToSlot (fun c hc => ((hes c).mp hc).2) pos.slot
    rw [hparent', hparent]
    simp only [hes, hselected]

/-- Of two paragraphs, one in the other, both go to the slot of the template beside the outer one. -/
theorem place_into_nearest_slots_nested :
    let slot : GridSlot ElementId Unit :=
      { Slot.single 'a' 0 0 with id := "s", element := none, extent := none, width := none, height := () }
    let grid : Grid ElementId Unit := ⟨"t", "body", "", [], [], [slot], none, none, (), ()⟩
    let d := (((((Document.empty .standard).insert (.ofTag "body")).insertUnder (.ofTag "p") ⟨0⟩).insertUnder
      (.ofTag "p") ⟨1⟩).materializeAll [grid]).1
    d.Framed ∧ d.children ⟨0⟩ = [⟨1⟩, ⟨3⟩] ∧ d.children ⟨1⟩ = [⟨2⟩] ∧ d.slotIn? ⟨3⟩ 'a' = some ⟨4⟩ ∧
      d.query "p" = [⟨1⟩, ⟨2⟩] ∧ ∀ e ∈ d.query "p", (d.placeAll [⟨"p", 'a'⟩]).parent? e = some ⟨4⟩ := by
  intro slot grid d
  have hbuilt : d.WellBuilt := (wellBuilt_empty .standard).insert (.ofTag "body")
    |>.grown_insertUnder (.ofTag "p") (p := ⟨0⟩) Nat.zero_lt_one |>.wellBuilt
    |>.grown_insertUnder (.ofTag "p") (p := ⟨1⟩) Nat.one_lt_two |>.wellBuilt
    |>.grown_materializeAll [grid] |>.wellBuilt
  have htemplates : ∀ l ∈ d.links, d.role? l.child = some .template → d.isContent l.parent = true := by decide +kernel
  have hslots : ∀ e ∈ d.query "p", d.isContent e = true ∧ d.slotAround? e 'a' = some ⟨4⟩ := by decide +kernel
  have hframed : d.Framed := hbuilt.framed fun ht hp => htemplates _ (mem_links_of_isChild hp) ht
  obtain ⟨hplaced, -⟩ := place_into_nearest_slots hframed ⟨"p", 'a'⟩
  refine ⟨hframed, by decide +kernel, by decide +kernel, by decide +kernel, by decide +kernel, fun e he => ?_⟩
  obtain ⟨hcontent, hslot⟩ := hslots e he
  exact hplaced e ⟨4⟩ he hcontent (hframed.slotAround?_eq_some_iff.mp hslot)

end SlotGrid.Document
