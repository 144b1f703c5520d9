import SlotGrid.Proofs.Document.Selection

/-! # What compounds ask

The text of a compound is a type and names with marks, in any order and as many as there are. All of it can be read.
The types and the classes are all asked for, but of several ids only the last one is.
-/

namespace SlotGrid.Document.Compound

open Style.Grammar (IsName readMarked?_of_isName readTag?_of_isName)

/-- A name with its mark. -/
inductive Part
  | id (name : String)
  | classed (name : String)
  deriving DecidableEq, Repr

namespace Part

def mark : Part → Char
  | id _ => '#'
  | classed _ => '.'

def name : Part → String
  | id name | classed name => name

def id? : Part → Option String
  | id name => some name
  | classed _ => none

def class? : Part → Option String
  | id _ => none
  | classed name => some name

def holds (e : Element) : Part → Bool
  | id name => e.id = some name
  | classed name => e.hasClass name

theorem isMark_mark (x : Part) : isMark x.mark = true := by
  cases x <;> rfl

theorem mem_filterMap_id? {parts : List Part} {name : String} : name ∈ parts.filterMap id? ↔ .id name ∈ parts := by
  rw [List.mem_filterMap]
  constructor
  · rintro ⟨x, hx, hname⟩
    cases x with
    | id _ =>
      cases hname
      exact hx
    | classed _ => cases hname
  · exact fun h => ⟨_, h, rfl⟩

theorem mem_filterMap_class? {parts : List Part} {name : String} :
    name ∈ parts.filterMap class? ↔ .classed name ∈ parts := by
  rw [List.mem_filterMap]
  constructor
  · rintro ⟨x, hx, hname⟩
    cases x with
    | id _ => cases hname
    | classed _ =>
      cases hname
      exact hx
  · exact fun h => ⟨_, h, rfl⟩

end Part

/-- The text of a compound. -/
def text (type : String) (parts : List Part) : List Char :=
  type.toList ++ parts.flatMap fun x => x.mark :: x.name.toList

/-- A type is that of an element if they differ in the case of ASCII letters at most. The star is the type of all. -/
def TypeHolds (type : String) (e : Element) : Prop := type = "" ∨ type = "*" ∨ type.toLower = e.tag.toLower

variable {type : String} {parts : List Part}

theorem segments_flatMap (hparts : ∀ x ∈ parts, IsName x.name) :
    segments (parts.flatMap fun x => x.mark :: x.name.toList) = ([], parts.map fun x => (x.mark, x.name.toList)) := by
  induction parts with
  | nil => rfl
  | cons x parts ih =>
    obtain ⟨hx, hparts⟩ := List.forall_mem_cons.mp hparts
    rw [List.flatMap_cons, List.cons_append, segments_mark x.isMark_mark, segments_append hx.not_isMark, ih hparts,
      List.append_nil, List.map_cons]

/-- Every id takes the place of the one before, and every class is added to those before. -/
theorem foldlM_readMarked? (hparts : ∀ x ∈ parts, IsName x.name) (c : Compound) :
    (parts.map fun x => (x.mark, x.name.toList)).foldlM readMarked? c = some { c with
      id := (parts.filterMap Part.id?).getLast?.or c.id, classes := c.classes ++ parts.filterMap Part.class? } := by
  induction parts generalizing c with
  | nil => simp
  | cons x parts ih =>
    obtain ⟨hx, hrest⟩ := List.forall_mem_cons.mp hparts
    rw [List.map_cons, List.foldlM_cons, readMarked?_of_isName hx]
    cases x with
    | id name =>
      refine (ih hrest { c with id := some name }).trans ?_
      rw [List.filterMap_cons_some (by rfl), List.filterMap_cons_none (by rfl), List.getLast?_cons]
      cases (parts.filterMap Part.id?).getLast? <;> rfl
    | classed name =>
      refine (ih hrest { c with classes := c.classes ++ [name] }).trans ?_
      rw [List.filterMap_cons_none (by rfl), List.filterMap_cons_some (by rfl), List.append_assoc]
      rfl

theorem exists_readTag? (htype : type = "" ∨ type = "*" ∨ IsName type) :
    ∃ tag, readTag? type.toList = some tag ∧ (∀ c ∈ type.toList, isMark c = false) ∧
      ∀ e : Element, tag.all (· = e.tag.toLower) = true ↔ TypeHolds type e := by
  unfold TypeHolds
  rcases htype with rfl | rfl | hname
  · exact ⟨none, if_pos (.inl rfl), nofun, fun e => iff_of_true rfl (.inl rfl)⟩
  · exact ⟨none, if_pos (.inr rfl), List.forall_mem_singleton.mpr rfl, fun e => iff_of_true rfl (.inr (.inl rfl))⟩
  · have hstar : type ≠ "*" := by
      rintro rfl
      exact ne_sign_of_isNameChar (hname.2 '*' (by decide)) (by decide)
    exact ⟨_, readTag?_of_isName hname, hname.not_isMark, fun e => by simp [hname.1, hstar]⟩

/-- The text of a compound is read, whatever its parts are. The compound asks for the type, all classes, and the last of
the ids. So if no two of the ids differ, it asks for all of the parts. -/
theorem read?_asks_parts (htype : type = "" ∨ type = "*" ∨ IsName type) (hparts : ∀ x ∈ parts, IsName x.name) :
    ∃ c, read? (text type parts) = some c ∧
      (∀ e, c.holds e = true ↔ TypeHolds type e ∧ (∀ name, .classed name ∈ parts → e.hasClass name = true) ∧
        ∀ name, (parts.filterMap Part.id?).getLast? = some name → e.id = some name) ∧
      ((∀ a b, .id a ∈ parts → .id b ∈ parts → a = b) →
        ∀ e, c.holds e = true ↔ TypeHolds type e ∧ ∀ x ∈ parts, x.holds e = true) := by
  obtain ⟨tag, htag, hmark, hholds⟩ := exists_readTag? htype
  have hasks : ∀ e : Element,
      ({ tag, id := (parts.filterMap Part.id?).getLast?, classes := parts.filterMap Part.class? } : Compound).holds e =
          true ↔ TypeHolds type e ∧ (∀ name, .classed name ∈ parts → e.hasClass name = true) ∧
        ∀ name, (parts.filterMap Part.id?).getLast? = some name → e.id = some name := by
    intro e
    simp only [Compound.holds, Bool.and_eq_true, hholds, and_assoc, Option.all_eq_true, decide_eq_true_iff,
      List.all_eq_true, Part.mem_filterMap_class?]
    exact and_congr_right fun _ => and_comm
  refine ⟨_, ?_, hasks, fun hids e => (hasks e).trans (and_congr_right fun _ => ?_)⟩
  · rw [text, read?_eq, segments_append hmark, segments_flatMap hparts, List.append_nil, htag, Option.bind_some,
      foldlM_readMarked? hparts]
    simp [universal]
  · constructor
    · rintro ⟨hclasses, hlast⟩ x hx
      cases x with
      | classed name => exact hclasses name hx
      | id name =>
        have hne := List.ne_nil_of_mem (Part.mem_filterMap_id?.mpr hx)
        obtain ⟨last, hlast?⟩ := Option.isSome_iff_exists.mp (List.getLast?_isSome.mpr hne)
        obtain rfl := hids _ _ hx (Part.mem_filterMap_id?.mp (List.mem_of_getLast? hlast?))
        exact decide_eq_true (hlast name hlast?)
    · intro h
      refine ⟨fun name hname => h _ hname, fun name hname => ?_⟩
      exact of_decide_eq_true (h _ (Part.mem_filterMap_id?.mp (List.mem_of_getLast? hname)))

/-- The parts alternate, and one is there twice. -/
theorem read?_asks_parts_mixed :
    let parts : List Part := [.classed "lead", .id "top", .classed "wide", .id "top"]
    ∃ c, read? "p.lead#top.wide#top".toList = some c ∧
      ∀ e, c.holds e = true ↔ TypeHolds "p" e ∧ ∀ x ∈ parts, x.holds e = true := by
  intro parts
  have hname : ∀ name ∈ ["p", "lead", "top", "wide"], IsName name := by
    simp only [List.forall_mem_cons]
    exact ⟨⟨by decide, List.all_eq_true.mp rfl⟩, ⟨by decide, List.all_eq_true.mp rfl⟩,
      ⟨by decide, List.all_eq_true.mp rfl⟩, ⟨by decide, List.all_eq_true.mp rfl⟩, nofun⟩
  have hparts : ∀ x ∈ parts, x.name ∈ ["p", "lead", "top", "wide"] := by decide
  obtain ⟨c, hread, -, hholds⟩ := read?_asks_parts (.inr (.inr (hname "p" List.mem_cons_self)))
    fun x hx => hname _ (hparts x hx)
  refine ⟨c, hread, hholds fun a b ha hb => ?_⟩
  simp only [parts, List.mem_cons, List.not_mem_nil, reduceCtorEq, Part.id.injEq, false_or, or_false, or_self] at ha hb
  rw [ha, hb]

/-- Of two ids only the second is asked for. -/
theorem not_read?_asks_parts :
    ¬ ∀ (type : String) (parts : List Part), (type = "" ∨ type = "*" ∨ IsName type) → (∀ x ∈ parts, IsName x.name) →
      ∃ c, read? (text type parts) = some c ∧
        ∀ e, c.holds e = true ↔ TypeHolds type e ∧ ∀ x ∈ parts, x.holds e = true := by
  intro h
  let e : Element := { Element.ofTag "p" with id := some "b" }
  have hparts : ∀ x ∈ [Part.id "a", Part.id "b"], IsName x.name := by
    simp only [List.forall_mem_cons]
    exact ⟨⟨by decide, List.all_eq_true.mp rfl⟩, ⟨by decide, List.all_eq_true.mp rfl⟩, nofun⟩
  obtain ⟨c, hread, hholds⟩ := h "" [.id "a", .id "b"] (.inl rfl) hparts
  have hc : read? (text "" [.id "a", .id "b"]) = some ⟨none, some "b", []⟩ := by decide +kernel
  obtain rfl := Option.some.inj (hc.symm.trans hread)
  obtain ⟨-, hall⟩ := (hholds e).mp (by decide +kernel)
  have hfirst : (Part.id "a").holds e = false := by decide
  rw [hall (.id "a") List.mem_cons_self] at hfirst
  cases hfirst

end SlotGrid.Document.Compound
