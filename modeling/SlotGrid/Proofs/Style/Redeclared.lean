import Mathlib
import SlotGrid.Style.Sheet

/-! # Declaring properties again

A block has one declaration of each property, where the property was declared first. Its value and its template are
those that were declared last, in whatever spelling the property was given.
-/

namespace SlotGrid.Style

/-! ## Spellings -/

/-- The first is the small letter of the second, which is one of A to Z. -/
def IsSmallOf (b a : Char) : Prop := ('A' ≤ a ∧ a ≤ 'Z') ∧ b.toNat = a.toNat + 32

/-- Two characters that are the same but for the case of a letter of A to Z. -/
def SameLetter (a b : Char) : Prop := a = b ∨ IsSmallOf a b ∨ IsSmallOf b a

/-- Two texts that differ in the case of letters of A to Z at most. -/
def SameSpelling (p q : String) : Prop := List.Forall₂ SameLetter p.toList q.toList

theorem toNat_toLower (c : Char) : c.toLower.toNat = if 'A' ≤ c ∧ c ≤ 'Z' then c.toNat + 32 else c.toNat := by
  unfold Char.toLower
  by_cases h : c.val ≥ 'A'.val ∧ c.val ≤ 'Z'.val
  · have hletter : 'A' ≤ c ∧ c ≤ 'Z' := h
    have hle : c.toNat ≤ 90 := h.2
    have hlt : c.toNat + 32 < 2 ^ 32 := by omega
    rw [dif_pos h, if_pos hletter]
    exact (UInt32.toNat_add _ _).trans (Nat.mod_eq_of_lt hlt)
  · have hletter : ¬ ('A' ≤ c ∧ c ≤ 'Z') := h
    rw [dif_neg h, if_neg hletter]

theorem toLower_eq_toLower_iff {a b : Char} : a.toLower = b.toLower ↔ SameLetter a b := by
  have hletter (c : Char) : 'A' ≤ c ∧ c ≤ 'Z' ↔ 65 ≤ c.toNat ∧ c.toNat ≤ 90 := Iff.rfl
  unfold SameLetter IsSmallOf
  rw [← Char.toNat_inj, ← Char.toNat_inj, toNat_toLower, toNat_toLower]
  simp only [hletter]
  split_ifs <;> omega

theorem sameSpelling_iff {p q : String} : SameSpelling p q ↔ p.toLower = q.toLower := by
  unfold SameSpelling String.toLower
  rw [← String.toList_inj, String.toList_map, String.toList_map, ← List.forall₂_eq_eq_eq, List.forall₂_map_left_iff,
    List.forall₂_map_right_iff]
  simp only [toLower_eq_toLower_iff]

instance : DecidableRel SameSpelling := fun _ _ => decidable_of_iff _ sameSpelling_iff.symm

/-! ## Blocks -/

/-- A property as it is spelled, its value, and the number of a template if the value defines one. -/
structure Addition where
  property : String
  value : String
  template : Option ℕ
  deriving DecidableEq, Repr

def Addition.declaration (a : Addition) : Declaration :=
  { Declaration.of a.property a.value with template := a.template }

namespace Block

/-- The block that declarations leave when they are added one after the other. -/
def ofList (ds : List Declaration) : Block := ds.foldl add empty

theorem ofList_append_singleton (ds : List Declaration) (d : Declaration) : ofList (ds ++ [d]) = (ofList ds).add d :=
  List.foldl_append

/-- Each property keeps the place of its first declaration. -/
theorem map_property_ofList (ds : List Declaration) :
    (ofList ds).toList.map Declaration.property = Keyed.distinct (ds.map Declaration.property) := by
  induction ds using List.reverseRecOn with
  | nil => rfl
  | append_singleton ds d ih =>
    rw [ofList_append_singleton, add, Keyed.map_put, ih, List.map_append, List.map_singleton,
      Keyed.distinct_append_singleton]
    simp only [Keyed.mem_distinct]

/-- The last declaration of a property is found. -/
theorem get?_ofList (ds : List Declaration) (property : String) :
    (ofList ds).get? property = ds.reverse.find? (·.property = property.toLower) := by
  induction ds using List.reverseRecOn with
  | nil => rfl
  | append_singleton ds d ih =>
    unfold get? at ih ⊢
    rw [ofList_append_singleton, add, Keyed.get?_put, ih, List.reverse_append, List.reverse_singleton,
      List.singleton_append, List.find?_cons]
    by_cases h : d.property = property.toLower <;> simp [h]

def ofAdditions (as : List Addition) : Block := ofList (as.map Addition.declaration)

theorem map_property_ofAdditions (as : List Addition) :
    (ofAdditions as).toList.map Declaration.property = Keyed.distinct (as.map (·.property.toLower)) := by
  rw [ofAdditions, map_property_ofList, List.map_map]
  rfl

theorem get?_ofAdditions (as : List Addition) (p : String) :
    (ofAdditions as).get? p =
      (as.reverse.find? (SameSpelling ·.property p)).map fun a => ⟨p.toLower, a.value, a.template⟩ := by
  have hfinds : (fun d : Declaration => decide (d.property = p.toLower)) ∘ Addition.declaration =
      fun a => decide (SameSpelling a.property p) :=
    funext fun a => decide_eq_decide.mpr sameSpelling_iff.symm
  rw [ofAdditions, get?_ofList, ← List.map_reverse, List.find?_map, hfinds]
  refine Option.map_congr fun a ha => ?_
  have hspelling : SameSpelling a.property p := by simpa using List.find?_some ha
  rw [← sameSpelling_iff.mp hspelling]
  rfl

/-- Whatever is added to a block, it has one declaration of each property in lower case, in the order in which the
properties were added first. What it has for a property in any spelling is the value and the template, or that there is
none, of the last addition with that property in any spelling. -/
theorem block_of_additions (as : List Addition) :
    let b := ofAdditions as
    (b.toList.map Declaration.property).Nodup ∧
    b.toList.map Declaration.property = Keyed.distinct (as.map (·.property.toLower)) ∧
    ∀ p, b.get? p = (as.reverse.find? (SameSpelling ·.property p)).map fun a => ⟨p.toLower, a.value, a.template⟩ := by
  refine ⟨?_, map_property_ofAdditions as, get?_ofAdditions as⟩
  rw [map_property_ofAdditions]
  exact Keyed.nodup_distinct _

example : ofAdditions [⟨"Display", "x", some 0⟩, ⟨"color", "y", none⟩, ⟨"disPLAY", "z", none⟩] =
    ⟨[⟨"display", "z", none⟩, ⟨"color", "y", none⟩]⟩ := by
  cbv

end Block

end SlotGrid.Style
