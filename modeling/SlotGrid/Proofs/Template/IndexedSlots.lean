import SlotGrid.Proofs.Checked
import SlotGrid.Proofs.Template.Growth
import SlotGrid.Template.IndexedSlots

/-! # The index of slots

Whatever is inserted and expanded, the index holds the position of every name in the list and nothing else. So the
slots with an index are those without one, and the slot of a name is the last that was inserted, with the cells that
it has taken since.
-/

namespace SlotGrid

namespace Slot

@[simp] theorem name_offer (s : Slot) (row column : ℕ) : (s.offer row column).name = s.name := by
  unfold offer
  cases h : s.expand row column with
  | error e => rfl
  | ok s' => exact name_expand h

end Slot

namespace Slots

variable {ss : Slots} {s : Slot} {name : Char}

theorem name_of_get? (h : ss.get? name = some s) : s.name = name := (Keyed.mem_of_get? _ h).2

theorem get?_insert (ss : Slots) (s : Slot) (name : Char) :
    (ss.insert s).get? name = if s.name = name then some s else ss.get? name :=
  Keyed.get?_put Slot.name name s ss.toList

/-- A slot that refuses a cell could as well be put back where it stands. -/
theorem getD_expand (h : ss.get? name = some s) (row column : ℕ) :
    (ss.expand s row column).toOption.getD ss = ss.insert (s.offer row column) := by
  obtain rfl := name_of_get? h
  unfold expand Slot.offer
  cases s.expand row column with
  | ok s' => rfl
  | error e => exact congrArg mk (Keyed.put_of_get? _ h).symm

theorem edit_expand (ss : Slots) (name : Char) (row column : ℕ) :
    ss.edit (.expand name row column) = (ss.get? name).elim ss fun s => ss.insert (s.offer row column) := by
  rw [edit]
  cases hget : ss.get? name with
  | none => rfl
  | some s => exact getD_expand hget row column

end Slots

/-! ## The index -/

namespace IndexedSlots

variable {ss ss' : IndexedSlots} {s : Slot} {name : Char} {i : ℕ}

/-- The names are different, and the index holds their positions. -/
structure Consistent (ss : IndexedSlots) : Prop where
  nodup_names : ss.names.Nodup
  index_eq : ss.index = ss.names.zipIdx

theorem consistent_empty : empty.Consistent := ⟨List.nodup_nil, rfl⟩

namespace Consistent

theorem position?_eq_some_iff (h : ss.Consistent) : ss.position? name = some i ↔ ss.names[i]? = some name := by
  have hfst : (ss.index.map Prod.fst).Nodup := by
    rw [h.index_eq, List.zipIdx_map_fst]
    exact h.nodup_names
  rw [position?, Option.map_eq_some_iff, ← List.mk_mem_zipIdx_iff_getElem?, ← h.index_eq]
  constructor
  · rintro ⟨⟨name', i'⟩, hget, rfl⟩
    obtain ⟨hmem, rfl⟩ := Keyed.mem_of_get? _ hget
    exact hmem
  · exact fun hmem => ⟨(name, i), Keyed.get?_of_mem Prod.fst hfst hmem, rfl⟩

theorem not_mem_names (h : ss.Consistent) (hp : ss.position? name = none) : name ∉ ss.names := by
  intro hmem
  obtain ⟨i, hi⟩ := List.mem_iff_getElem?.mp hmem
  rw [h.position?_eq_some_iff.mpr hi] at hp
  cases hp

/-- A position in the index is one in the list, and the slot there has the name. -/
theorem exists_slotAt (h : ss.Consistent) (hp : ss.position? name = some i) :
    ∃ s, ss.slotAt i = .ok s ∧ s.name = name ∧ ss.toSlots.get? name = some s := by
  have hname := h.position?_eq_some_iff.mp hp
  rw [names, List.getElem?_map, Option.map_eq_some_iff] at hname
  obtain ⟨s, hs, rfl⟩ := hname
  refine ⟨s, ?_, rfl, Keyed.get?_of_mem _ h.nodup_names (List.mem_of_getElem? hs)⟩
  rw [slotAt, hs, Option.elim_some]

theorem get?_of_position? (h : ss.Consistent) (hp : ss.position? name = none) : ss.toSlots.get? name = none := by
  by_contra hsome
  obtain ⟨s, hs⟩ := Option.ne_none_iff_exists'.mp hsome
  obtain ⟨hmem, rfl⟩ := Keyed.mem_of_get? _ hs
  exact h.not_mem_names hp (List.mem_map_of_mem hmem)

theorem get?_eq (h : ss.Consistent) (name : Char) : ss.get? name = .ok (ss.toSlots.get? name) := by
  unfold get?
  cases hp : ss.position? name with
  | none => rw [h.get?_of_position? hp]
  | some i =>
    obtain ⟨s, hs, -, hget⟩ := h.exists_slotAt hp
    rw [hget]
    simp only [hs]
    rfl

/-- Replacing a slot changes no name, so that the index stays right. -/
theorem replaceAt (h : ss.Consistent) (hp : ss.position? s.name = some i) :
    ∃ ss', ss.replaceAt i s = .ok ss' ∧ ss'.Consistent ∧ ss'.toSlots = ss.toSlots.insert s := by
  have hname := h.position?_eq_some_iff.mp hp
  obtain ⟨hi, hget⟩ := List.getElem?_eq_some_iff.mp hname
  have hsize : i < ss.size := by rwa [names, List.length_map] at hi
  have hnames : names ⟨ss.toList.set i s, ss.index⟩ = ss.names := by
    rw [names, List.map_set, ← hget]
    exact List.set_getElem_self hi
  refine ⟨_, if_pos hsize, ⟨?_, ?_⟩, congrArg Slots.mk (Keyed.put_eq_set _ h.nodup_names hname).symm⟩
  · rw [hnames]
    exact h.nodup_names
  · rw [hnames]
    exact h.index_eq

theorem insert (h : ss.Consistent) (s : Slot) :
    ∃ ss', ss.insert s = .ok ss' ∧ ss'.Consistent ∧ ss'.toSlots = ss.toSlots.insert s := by
  unfold IndexedSlots.insert
  cases hp : ss.position? s.name with
  | some i => exact h.replaceAt hp
  | none =>
    -- A new name is added behind the others and to the index, where it gets the old length as its position.
    have hnew := h.not_mem_names hp
    have hnames (index) : names ⟨ss.toList ++ [s], index⟩ = ss.names ++ [s.name] := by
      rw [names, List.map_append, List.map_singleton, names]
    have hindex : s.name ∉ ss.index.map Prod.fst := by
      rwa [h.index_eq, List.zipIdx_map_fst]
    refine ⟨_, rfl, ⟨?_, ?_⟩, congrArg Slots.mk (Keyed.put_of_not_mem _ hnew).symm⟩
    · rw [hnames]
      exact List.concat_eq_append ▸ h.nodup_names.concat hnew
    · rw [hnames, Keyed.put_of_not_mem _ hindex, List.zipIdx_append, ← h.index_eq, Nat.zero_add, names, List.length_map]
      rfl

theorem modify (h : ss.Consistent) {f : Slot → Slot} (hf : ∀ s, (f s).name = s.name) (name : Char) :
    ∃ ss', ss.modify name f = .ok ss' ∧ ss'.Consistent ∧
      ss'.toSlots = (ss.toSlots.get? name).elim ss.toSlots fun s => ss.toSlots.insert (f s) := by
  unfold IndexedSlots.modify
  cases hp : ss.position? name with
  | none =>
    rw [h.get?_of_position? hp]
    exact ⟨ss, rfl, h, rfl⟩
  | some i =>
    obtain ⟨s, hs, rfl, hget⟩ := h.exists_slotAt hp
    rw [hget]
    simp only [hs]
    exact h.replaceAt (hf s ▸ hp)

theorem edit (h : ss.Consistent) (e : SlotEdit) :
    ∃ ss', ss.edit e = .ok ss' ∧ ss'.Consistent ∧ ss'.toSlots = ss.toSlots.edit e := by
  cases e with
  | insert s => exact h.insert s
  | expand name row column =>
    rw [Slots.edit_expand]
    exact h.modify (fun s => s.name_offer row column) name

end Consistent

/-- The slots with an index go through the same edits as those without one. -/
theorem exists_edits (edits : List SlotEdit) :
    ∃ ss, edits.foldlM edit empty = .ok ss ∧ ss.Consistent ∧ ss.toSlots = edits.foldl Slots.edit .empty := by
  induction edits using List.reverseRecOn with
  | nil => exact ⟨_, rfl, consistent_empty, rfl⟩
  | append_singleton edits e ih =>
    obtain ⟨ss, hss, hconsistent, hslots⟩ := ih
    obtain ⟨ss', hss', hconsistent', hslots'⟩ := hconsistent.edit e
    refine ⟨ss', Checked.foldlM_append_singleton.mpr ⟨ss, hss, hss'⟩, hconsistent', ?_⟩
    rw [List.foldl_append, hslots', hslots]
    rfl

end IndexedSlots

/-! ## What edits leave -/

namespace SlotEdit

/-- The name of the slot that is inserted. -/
def inserted? : SlotEdit → Option Char
  | insert s => some s.name
  | expand _ _ _ => none

/-- The cell that the slot of a name is offered. -/
def offered? (name : Char) : SlotEdit → Option (ℕ × ℕ)
  | insert _ => none
  | expand name' row column => if name' = name then some (row, column) else none

end SlotEdit

/-- The slot after it was offered some cells. -/
def Slot.offerAll (s : Slot) (cells : List (ℕ × ℕ)) : Slot := cells.foldl (fun s c => s.offer c.1 c.2) s

theorem Slot.offerAll_append (s : Slot) (cells cells' : List (ℕ × ℕ)) :
    s.offerAll (cells ++ cells') = (s.offerAll cells).offerAll cells' :=
  List.foldl_append

namespace Slots

variable {ss : Slots} {name : Char}

theorem get?_edit_expand (ss : Slots) (name' name : Char) (row column : ℕ) :
    (ss.edit (.expand name' row column)).get? name =
      if name' = name then (ss.get? name).map (·.offer row column) else ss.get? name := by
  rw [edit_expand]
  cases hget : ss.get? name' with
  | none =>
    rw [Option.elim_none]
    split_ifs with hname
    · rw [← hname, hget, Option.map_none]
    · rfl
  | some s =>
    rw [Option.elim_some, get?_insert, Slot.name_offer, name_of_get? hget]
    split_ifs with hname
    · rw [← hname, hget, Option.map_some]
    · rfl

/-- An edit that inserts no slot of a name offers a cell to the one that is there, or nothing. -/
theorem get?_edit {e : SlotEdit} (h : e.inserted? ≠ some name) :
    (ss.edit e).get? name = (ss.get? name).map (·.offerAll (e.offered? name).toList) := by
  cases e with
  | insert s =>
    have hname : s.name ≠ name := fun he => h (congrArg some he)
    rw [edit, get?_insert, if_neg hname]
    exact Option.map_id'.symm
  | expand name' row column =>
    rw [get?_edit_expand, SlotEdit.offered?]
    split_ifs
    · rfl
    · exact Option.map_id'.symm

/-- Without insertions of a name, its slot takes one cell after the other of those that it is offered. -/
theorem get?_edits {edits : List SlotEdit} (h : ∀ s, .insert s ∈ edits → s.name ≠ name) (ss : Slots) :
    (edits.foldl edit ss).get? name = (ss.get? name).map (·.offerAll (edits.filterMap (SlotEdit.offered? name))) := by
  induction edits generalizing ss with
  | nil => simp [Slot.offerAll]
  | cons e edits ih =>
    have he : e.inserted? ≠ some name := by
      cases e with
      | insert s => simpa [SlotEdit.inserted?] using h s List.mem_cons_self
      | expand _ _ _ => nofun
    -- The cell of the first edit, if it has one for this slot, is offered before those of the rest.
    have hcells : (e :: edits).filterMap (SlotEdit.offered? name) =
        (e.offered? name).toList ++ edits.filterMap (SlotEdit.offered? name) := by
      cases ho : e.offered? name <;> simp [ho]
    rw [List.foldl_cons, ih (fun s hs => h s (List.mem_cons_of_mem e hs)), get?_edit he, Option.map_map, hcells]
    simp only [Slot.offerAll_append]
    rfl

theorem names_edit (ss : Slots) (e : SlotEdit) :
    (ss.edit e).names =
      e.inserted?.elim ss.names fun name => if name ∈ ss.names then ss.names else ss.names ++ [name] := by
  cases e with
  | insert s => exact Keyed.map_put Slot.name s ss.toList
  | expand name row column =>
    rw [edit_expand, SlotEdit.inserted?, Option.elim_none]
    cases hget : ss.get? name with
    | none => rfl
    | some s =>
      have hmem : s.name ∈ ss.names := List.mem_map_of_mem (Keyed.mem_of_get? _ hget).1
      rw [Option.elim_some, names, insert, Keyed.map_put, Slot.name_offer]
      exact if_pos hmem

theorem names_edits (edits : List SlotEdit) :
    (edits.foldl edit empty).names = Keyed.distinct (edits.filterMap SlotEdit.inserted?) := by
  induction edits using List.reverseRecOn with
  | nil => rfl
  | append_singleton edits e ih =>
    rw [List.foldl_append, List.foldl_cons, List.foldl_nil, names_edit, ih, List.filterMap_append]
    cases he : e.inserted? with
    | none => simp [he]
    | some name => simp [he, Keyed.distinct_append_singleton]

end Slots

/-- Whatever slots are inserted and expanded, every position in the index is one in the list. The names are different,
they stand in the order in which they were inserted first, and the index maps each to the position of its slot and has
no others. The slot of a name is the last that was inserted, with the cells that it has taken since, and the slots are
those that the same edits leave without an index. -/
theorem indexed_slots_of_edits (edits : List SlotEdit) :
    ∃ ss, edits.foldlM IndexedSlots.edit .empty = .ok ss ∧
      (ss.names.Nodup ∧ ss.names = Keyed.distinct (edits.filterMap SlotEdit.inserted?)) ∧
      (∀ name i, ss.position? name = some i ↔ ss.names[i]? = some name) ∧
      (∀ name, (∀ s, .insert s ∈ edits → s.name ≠ name) → ss.get? name = .ok none) ∧
      (∀ before s after, edits = before ++ .insert s :: after → (∀ s', .insert s' ∈ after → s'.name ≠ s.name) →
        ss.get? s.name = .ok (some (s.offerAll (after.filterMap (SlotEdit.offered? s.name))))) ∧
      ss.toSlots = edits.foldl Slots.edit .empty := by
  obtain ⟨ss, hss, hconsistent, hslots⟩ := IndexedSlots.exists_edits edits
  refine ⟨ss, hss, ⟨hconsistent.nodup_names, ?_⟩, fun _ _ => hconsistent.position?_eq_some_iff, ?_, ?_, hslots⟩
  · rw [← Slots.names_edits, ← hslots]
    rfl
  · intro name hname
    rw [hconsistent.get?_eq, hslots, Slots.get?_edits hname]
    rfl
  · rintro before s after rfl hafter
    rw [hconsistent.get?_eq, hslots, List.foldl_append, List.foldl_cons, Slots.get?_edits hafter, Slots.edit,
      Slots.get?_insert, if_pos rfl, Option.map_some]

/-- The slot of a name is replaced and grows again, while another one stays and refuses a cell. -/
theorem indexed_slots_of_replaced :
    let a : Slot := .single 'a' 3 3
    let edits : List SlotEdit := [.insert (.single 'a' 0 0), .insert (.single 'b' 0 1), .expand 'a' 0 1, .insert a,
      .expand 'b' 2 2, .expand 'a' 3 4, .expand 'c' 0 0]
    ∃ ss, edits.foldlM IndexedSlots.edit .empty = .ok ss ∧ ss.names = ['a', 'b'] ∧ ss.position? 'b' = some 1 ∧
      ss.get? 'c' = .ok none ∧ ss.get? 'a' = .ok (some ⟨'a', 3, 3, 1, 2, 3, 4⟩) := by
  intro a edits
  obtain ⟨ss, hss, ⟨-, hnames⟩, hindex, hnone, hlast, -⟩ := indexed_slots_of_edits edits
  replace hnames : ss.names = ['a', 'b'] := hnames.trans (by decide)
  refine ⟨ss, hss, hnames, (hindex 'b' 1).mpr (by rw [hnames]; rfl), hnone 'c' (by simp [edits, a, Slot.single]), ?_⟩
  exact hlast (edits.take 3) a (edits.drop 4) rfl (by simp [edits])

end SlotGrid
