import SlotGrid.Document.Placement
import SlotGrid.Proofs.Document.Tree

/-! # Moving placed content

Placing content is a sequence of moves. What the elements are moved to in the end does not depend on where they
were before, so moves that find everything in place change nothing.
-/

namespace SlotGrid.Document

variable {d : Document}

/-! ## Moves in a row -/

def moveAll (d : Document) (ms : List Link) : Document := ms.foldl (fun d m => d.move m.child m.parent) d

/-- The last move of each element, in order. -/
def lastMoves (ms : List Link) : List Link := ms.foldl (fun ms m => ms.filter (·.child ≠ m.child) ++ [m]) []

/-- The elements that end up under another one, in order. -/
def movedInto (ms : List Link) (e : ElementId) : List ElementId :=
  ((lastMoves ms).filter (·.parent = e)).map Link.child

theorem lastMoves_append_singleton (ms : List Link) (m : Link) :
    lastMoves (ms ++ [m]) = (lastMoves ms).filter (·.child ≠ m.child) ++ [m] := by
  unfold lastMoves
  rw [List.foldl_append]
  rfl

theorem links_moveAll (d : Document) (ms : List Link) :
    (d.moveAll ms).links = d.links.filter (·.child ∉ ms.map Link.child) ++ lastMoves ms := by
  induction ms using List.reverseRecOn with
  | nil => simp [moveAll, lastMoves]
  | append_singleton ms m ih =>
    have hmove : (d.moveAll (ms ++ [m])).links = (d.moveAll ms).links.filter (·.child ≠ m.child) ++ [m] := by
      unfold moveAll
      rw [List.foldl_append]
      rfl
    rw [hmove, ih, lastMoves_append_singleton, List.filter_append, List.filter_filter, List.append_assoc]
    congr 2
    funext l
    rw [Bool.eq_iff_iff]
    simp [and_comm]

/-- Moves change links only. -/
theorem exists_moveAll (d : Document) (ms : List Link) : ∃ links, d.moveAll ms = { d with links } := by
  refine List.foldlRecOn (motive := fun d' : Document => ∃ links, d' = { d with links }) ms _ ⟨d.links, rfl⟩ ?_
  rintro _ ⟨links, rfl⟩ m -
  exact ⟨_, rfl⟩

theorem get?_moveAll (d : Document) (ms : List Link) (e : ElementId) : (d.moveAll ms).get? e = d.get? e := by
  obtain ⟨links, hlinks⟩ := exists_moveAll d ms
  rw [hlinks]
  rfl

theorem mem_of_mem_lastMoves {ms : List Link} {l : Link} (h : l ∈ lastMoves ms) : l ∈ ms := by
  induction ms using List.reverseRecOn with
  | nil => exact h
  | append_singleton ms m ih =>
    rw [lastMoves_append_singleton] at h
    rcases List.mem_append.mp h with h | h
    · exact List.mem_append_left _ (ih (List.mem_filter.mp h).1)
    · exact List.mem_append_right _ h

theorem exists_mem_lastMoves {ms : List Link} {e : ElementId} (h : e ∈ ms.map Link.child) :
    ∃ l ∈ lastMoves ms, l.child = e := by
  induction ms using List.reverseRecOn with
  | nil => cases h
  | append_singleton ms m ih =>
    rw [lastMoves_append_singleton]
    by_cases hm : e = m.child
    · exact ⟨m, List.mem_append_right _ List.mem_cons_self, hm.symm⟩
    · rw [List.map_append, List.mem_append] at h
      obtain ⟨l, hl, rfl⟩ := ih (h.resolve_right fun h => hm (List.mem_singleton.mp h))
      exact ⟨l, List.mem_append_left _ (List.mem_filter.mpr ⟨hl, by simpa using hm⟩), rfl⟩

/-- An element has one last move only. -/
theorem eq_of_mem_lastMoves {ms : List Link} {l l' : Link} (h : l ∈ lastMoves ms) (h' : l' ∈ lastMoves ms)
    (hchild : l.child = l'.child) : l = l' := by
  induction ms using List.reverseRecOn with
  | nil => cases h
  | append_singleton ms m ih =>
    rw [lastMoves_append_singleton] at h h'
    simp only [List.mem_append, List.mem_filter, List.mem_singleton, ne_eq, decide_not, Bool.not_eq_true',
      decide_eq_false_iff_not] at h h'
    rcases h with ⟨h, hne⟩ | rfl <;> rcases h' with ⟨h', hne'⟩ | rfl
    · exact ih h h'
    · exact absurd hchild hne
    · exact absurd hchild.symm hne'
    · rfl

theorem children_moveAll (d : Document) (ms : List Link) (e : ElementId) :
    (d.moveAll ms).children e = (d.children e).filter (· ∉ ms.map Link.child) ++ movedInto ms e := by
  unfold children movedInto
  rw [links_moveAll, List.filter_append, List.map_append, List.filter_map, List.filter_filter, List.filter_filter]
  congr 3
  funext l
  exact Bool.and_comm ..

theorem parent?_moveAll_of_not_mem {ms : List Link} {e : ElementId} (he : e ∉ ms.map Link.child) :
    (d.moveAll ms).parent? e = d.parent? e := by
  have hlast : (lastMoves ms).find? (·.child = e) = none := by
    refine List.find?_eq_none.mpr fun l hl hle => he ?_
    rw [← of_decide_eq_true hle]
    exact List.mem_map_of_mem (mem_of_mem_lastMoves hl)
  unfold parent? Keyed.get?
  rw [links_moveAll, List.find?_append, hlast, Option.or_none, List.find?_filter]
  congr 2
  funext l
  by_cases hl : l.child = e <;> simp [hl, he]

theorem parent?_moveAll_of_mem {ms : List Link} {l : Link} (hl : l ∈ lastMoves ms) :
    (d.moveAll ms).parent? l.child = some l.parent := by
  have hmoved : l.child ∈ ms.map Link.child := List.mem_map_of_mem (mem_of_mem_lastMoves hl)
  have hbefore : (d.links.filter (·.child ∉ ms.map Link.child)).find? (·.child = l.child) = none := by
    refine List.find?_eq_none.mpr fun l' hl' hle => ?_
    have hkept := of_decide_eq_true (List.mem_filter.mp hl').2
    rw [of_decide_eq_true hle] at hkept
    exact hkept hmoved
  unfold parent? Keyed.get?
  rw [links_moveAll, List.find?_append, hbefore, Option.none_or]
  cases hfind : (lastMoves ms).find? (·.child = l.child) with
  | none => exact absurd (decide_eq_true rfl) (List.find?_eq_none.mp hfind l hl)
  | some l' =>
    have hchild : l'.child = l.child := by simpa using List.find?_some hfind
    rw [eq_of_mem_lastMoves (List.mem_of_find?_eq_some hfind) hl hchild]
    rfl

/-! ## Moves that change nothing -/

/-- Every element that is moved is where it ends up: behind the elements that are not moved, in the order of the
last moves. -/
def InPlace (d : Document) (ms : List Link) : Prop :=
  ∀ e, ∃ before, d.children e = before ++ movedInto ms e ∧ ∀ c ∈ before, c ∉ ms.map Link.child

/-- Elements that have been moved are in place for the same moves. -/
theorem inPlace_moveAll (d : Document) (ms : List Link) : (d.moveAll ms).InPlace ms := by
  intro e
  refine ⟨_, children_moveAll d ms e, fun c hc => ?_⟩
  simpa using (List.mem_filter.mp hc).2

theorem InPlace.of_sameContent {d' : Document} {ms : List Link} (h : d.InPlace ms) (hd : d.SameContent d') :
    d'.InPlace ms := by
  intro e
  rw [hd.children]
  exact h e

theorem mem_movedInto {ms : List Link} {c e : ElementId} : c ∈ movedInto ms e ↔ ⟨c, e⟩ ∈ lastMoves ms := by
  unfold movedInto
  constructor
  · intro h
    obtain ⟨l, hl, rfl⟩ := List.mem_map.mp h
    obtain ⟨hlast, hp⟩ := List.mem_filter.mp hl
    obtain rfl := of_decide_eq_true hp
    exact hlast
  · exact fun h => List.mem_map.mpr ⟨_, List.mem_filter.mpr ⟨h, decide_eq_true rfl⟩, rfl⟩

theorem InPlace.children_eq {ms : List Link} (h : d.InPlace ms) (e : ElementId) :
    (d.moveAll ms).children e = d.children e := by
  obtain ⟨before, hchildren, hbefore⟩ := h e
  rw [children_moveAll, hchildren, List.filter_append]
  have hkept : before.filter (· ∉ ms.map Link.child) = before :=
    List.filter_eq_self.mpr fun c hc => decide_eq_true (hbefore c hc)
  have hmoved : (movedInto ms e).filter (· ∉ ms.map Link.child) = [] := by
    refine List.filter_eq_nil_iff.mpr fun c hc hcs => of_decide_eq_true hcs ?_
    exact List.mem_map.mpr ⟨_, mem_of_mem_lastMoves (mem_movedInto.mp hc), rfl⟩
  rw [hkept, hmoved, List.append_nil]

/-- An element that is in place has the parent that it is moved to. -/
theorem InPlace.parent?_eq {ms : List Link} (h : d.InPlace ms) (e : ElementId) :
    (d.moveAll ms).parent? e = d.parent? e := by
  by_cases he : e ∈ ms.map Link.child
  · obtain ⟨l, hl, rfl⟩ := exists_mem_lastMoves he
    rw [parent?_moveAll_of_mem hl]
    have hthere : l.child ∈ d.children l.parent := by
      obtain ⟨before, hchildren, -⟩ := h l.parent
      rw [hchildren]
      exact List.mem_append_right _ (mem_movedInto.mpr hl)
    unfold parent?
    cases hfirst : Keyed.get? Link.child l.child d.links with
    | none =>
      obtain ⟨l', hl', hchild⟩ := List.mem_map.mp hthere
      exact absurd (List.mem_map.mpr ⟨l', (List.mem_filter.mp hl').1, hchild⟩) (Keyed.get?_eq_none _ hfirst)
    | some l' =>
      obtain ⟨hl', hchild⟩ := Keyed.mem_of_get? _ hfirst
      have hmem : l.child ∈ d.children l'.parent :=
        List.mem_map.mpr ⟨l', List.mem_filter.mpr ⟨hl', decide_eq_true rfl⟩, hchild⟩
      obtain ⟨before, hchildren, hbefore⟩ := h l'.parent
      rw [hchildren] at hmem
      have hlast := (List.mem_append.mp hmem).resolve_left fun hc => hbefore _ hc he
      have heq := eq_of_mem_lastMoves (mem_movedInto.mp hlast) hl rfl
      exact congrArg (fun l => some l.parent) heq.symm
  · exact parent?_moveAll_of_not_mem he

/-- Moves that find all elements in place leave the content of the document as it is. -/
theorem InPlace.sameContent {ms : List Link} (h : d.InPlace ms) : d.SameContent (d.moveAll ms) := by
  obtain ⟨links, hlinks⟩ := exists_moveAll d ms
  refine ⟨?_, h.parent?_eq, h.children_eq, ?_, ?_, ?_, ?_⟩
  all_goals rw [hlinks]

/-! ## The moves of placed content -/

/-- The moves of some elements to the slot of a name. -/
def movesToSlot (d : Document) (name : Char) : List ElementId → List Link
  | [] => []
  | e :: es => (d.slotAround? e name).toList.map (Link.mk e) ++ (d.moveToSlot name e).movesToSlot name es

/-- The moves that placing content makes. -/
def moves (d : Document) : List Style.Position → List Link
  | [] => []
  | p :: ps => d.movesToSlot p.slot ((d.query p.selector).filter d.isContent) ++ (d.place p).moves ps

theorem moveAll_append (d : Document) (ms ms' : List Link) : d.moveAll (ms ++ ms') = (d.moveAll ms).moveAll ms' :=
  List.foldl_append

theorem foldl_moveToSlot (d : Document) (name : Char) (es : List ElementId) :
    es.foldl (·.moveToSlot name) d = d.moveAll (d.movesToSlot name es) := by
  induction es generalizing d with
  | nil => rfl
  | cons e es ih =>
    rw [List.foldl_cons, ih, movesToSlot, moveAll_append]
    congr 1
    unfold moveToSlot
    cases d.slotAround? e name <;> rfl

theorem placeAll_eq_moveAll (d : Document) (ps : List Style.Position) : d.placeAll ps = d.moveAll (d.moves ps) := by
  unfold placeAll
  induction ps generalizing d with
  | nil => rfl
  | cons p ps ih =>
    rw [List.foldl_cons, ih, moves, moveAll_append]
    unfold place
    rw [foldl_moveToSlot]

theorem child_mem_of_mem_movesToSlot {name : Char} {es : List ElementId} {m : Link} (h : m ∈ d.movesToSlot name es) :
    m.child ∈ es := by
  induction es generalizing d with
  | nil => cases h
  | cons e es ih =>
    rcases List.mem_append.mp h with h | h
    · obtain ⟨slot, -, rfl⟩ := List.mem_map.mp h
      exact List.mem_cons_self
    · exact List.mem_cons_of_mem e (ih h)

/-- Only authored content is moved. -/
theorem isContent_of_mem_moves {ps : List Style.Position} {m : Link} (h : m ∈ d.moves ps) :
    d.isContent m.child = true := by
  induction ps generalizing d with
  | nil => cases h
  | cons p ps ih =>
    rcases List.mem_append.mp h with h | h
    · exact (List.mem_filter.mp (child_mem_of_mem_movesToSlot h)).2
    · have hcontent := ih h
      unfold isContent place at hcontent
      rwa [foldl_moveToSlot, get?_moveAll] at hcontent

end SlotGrid.Document
