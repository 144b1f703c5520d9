import SlotGrid.Proofs.Style.Frames

/-! # Streams that are alike

Streams may have the same items in different places of a text. Skipping leaves such streams alike, and the values
that are read from them are equal.
-/

namespace SlotGrid.Style

/-- Items that differ in nothing but their places in the text. -/
def Alike : List Item → List Item → Prop := List.Forall₂ fun i j => i.unplaced = j.unplaced

namespace Item

variable {i j : Item}

theorem kind_eq_of_unplaced (h : i.unplaced = j.unplaced) : i.kind = j.kind := by
  simpa using congrArg kind h

theorem name?_eq_of_unplaced (h : i.unplaced = j.unplaced) : i.name? = j.name? := by
  simpa using congrArg name? h

theorem valueText_eq_of_unplaced (h : i.unplaced = j.unplaced) : i.valueText = j.valueText := by
  have hl : i.lexeme = j.lexeme := by simpa using congrArg lexeme h
  unfold valueText
  rw [kind_eq_of_unplaced h, hl]

end Item

/-- Places in the text are counted from where the text begins. -/
theorem alike_items (n m : ℕ) (cs : List Char) : Alike (Cursor.items ⟨n, cs⟩) (Cursor.items ⟨m, cs⟩) := by
  induction hl : cs.length using Nat.strong_induction_on generalizing n m cs with
  | _ l ih =>
    cases cs with
    | nil =>
      rw [Cursor.items_nil, Cursor.items_nil]
      exact .nil
    | cons c cs =>
      obtain ⟨hne, hsplits⟩ := scan_splits c cs
      have hlength := congrArg List.length hsplits
      have hpos := List.length_pos_iff.mpr hne
      rw [List.length_append] at hlength
      rw [Cursor.items_cons, Cursor.items_cons]
      refine .cons ?_ (ih _ (by omega) _ _ _ rfl)
      unfold Item.ofScan
      split <;> rfl

namespace Alike

variable {is js : List Item}

theorem refl (is : List Item) : Alike is is := List.forall₂_same.mpr fun _ _ => rfl

theorem length_eq (h : Alike is js) : is.length = js.length := List.Forall₂.length_eq h

theorem append {is' js' : List Item} (h : Alike is js) (h' : Alike is' js') : Alike (is ++ is') (js ++ js') :=
  List.rel_append h h'

theorem valueText_eq (h : Alike is js) : valueText is = valueText js := by
  have hf : is.flatMap Item.valueText = js.flatMap Item.valueText := by
    induction h with
    | nil => rfl
    | cons hij _ ih => rw [List.flatMap_cons, List.flatMap_cons, ih, Item.valueText_eq_of_unplaced hij]
  unfold valueText
  rw [hf]

theorem filter (h : Alike is js) {f : Item → Bool} (hf : ∀ i j : Item, i.unplaced = j.unplaced → f i = f j) :
    Alike (is.filter f) (js.filter f) := by
  induction h with
  | nil => exact .nil
  | cons hij _ ih =>
    rw [List.filter_cons, List.filter_cons, hf _ _ hij]
    split_ifs
    · exact .cons hij ih
    · exact ih

theorem declarationItems (h : Alike is js) :
    Alike (Stream.declarationItems is) (Stream.declarationItems js) := by
  unfold Stream.declarationItems
  induction h with
  | nil => exact .nil
  | cons hij _ ih =>
    rw [List.takeWhile_cons, List.takeWhile_cons, Item.kind_eq_of_unplaced hij]
    split
    · exact .cons hij ih
    · exact .nil

theorem skipDeclaration (h : Alike is js) :
    Alike (Stream.skipDeclaration is) (Stream.skipDeclaration js) := by
  unfold Stream.skipDeclaration
  induction h with
  | nil => exact .nil
  | cons hij h ih =>
    rw [List.dropWhile_cons, List.dropWhile_cons, Item.kind_eq_of_unplaced hij]
    split_ifs
    · exact ih
    · exact .cons hij h

theorem uncommented (h : Alike is js) : Alike (is.filter (!·.isComment)) (js.filter (!·.isComment)) := by
  refine h.filter fun i j hij => ?_
  have hcomment : ∀ i : Item, i.unplaced.isComment = i.isComment := fun i => by cases i <;> rfl
  rw [← hcomment i, hij, hcomment j]

theorem skipRule (h : Alike is js) (depth : ℕ) : Alike (Stream.skipRule depth is) (Stream.skipRule depth js) := by
  induction h generalizing depth with
  | nil => exact .nil
  | cons hij h ih =>
    unfold Stream.skipRule
    rw [Item.kind_eq_of_unplaced hij]
    split
    · exact ih _
    · split_ifs
      · exact h
      · exact ih _
    · exact ih _

end Alike

namespace Stream

variable {s : Stream}

/-- A declaration ends where something stands that ends it. -/
theorem declarationItems_append (is : List Item) (hs : s.kind.endsDeclaration = true) :
    declarationItems (is ++ s) = declarationItems is := by
  unfold declarationItems
  induction is with
  | nil =>
    cases s with
    | nil => rfl
    | cons i t => exact List.takeWhile_cons_of_neg (by simpa [kind] using hs)
  | cons i is ih => rw [List.cons_append, List.takeWhile_cons, List.takeWhile_cons, ih]

theorem skipDeclaration_of_ends (hs : s.kind.endsDeclaration = true) : s.skipDeclaration = s := by
  cases s with
  | nil => rfl
  | cons i s => exact List.dropWhile_cons_of_neg (by simpa [kind] using hs)

theorem skipDeclaration_append (is : List Item) (hs : s.kind.endsDeclaration = true) :
    skipDeclaration (is ++ s) = skipDeclaration is ++ s := by
  induction is with
  | nil => exact skipDeclaration_of_ends hs
  | cons i is ih =>
    unfold skipDeclaration at ih ⊢
    rw [List.cons_append, List.dropWhile_cons, List.dropWhile_cons, ih]
    split_ifs <;> rfl

/-- An at-rule ends in the same place of both streams, or goes on with what is behind them. -/
theorem skipAtRule_append {is js : List Item} (h : Alike is js) (depth : ℕ) :
    (∃ is' js', Alike is' js' ∧ ∀ s t, skipAtRule depth (is ++ s) = is' ++ s ∧ skipAtRule depth (js ++ t) = js' ++ t) ∨
      ∃ depth', ∀ s t, skipAtRule depth (is ++ s) = skipAtRule depth' s ∧
        skipAtRule depth (js ++ t) = skipAtRule depth' t := by
  induction h generalizing depth with
  | nil => exact .inr ⟨depth, fun _ _ => ⟨rfl, rfl⟩⟩
  | cons hij h ih =>
    simp only [List.cons_append, skipAtRule]
    rw [Item.kind_eq_of_unplaced hij]
    split
    · split_ifs
      · exact .inl ⟨_, _, h, fun _ _ => ⟨rfl, rfl⟩⟩
      · exact ih depth
    · exact ih (depth + 1)
    · split_ifs
      · exact .inl ⟨_, _, h, fun _ _ => ⟨rfl, rfl⟩⟩
      · exact ih (depth - 1)
    · exact ih depth

end Stream

end SlotGrid.Style
