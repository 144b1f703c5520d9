import SlotGrid.Proofs.Template.Rectangles

/-! # Partitions of templates

Rows of different lengths make a template exactly if one of them has a cell and the cells of every name form
a rectangle once the rows are filled up. The slots of the template then share its cells among them.
-/

namespace SlotGrid

/-- The name at a place of rows that are filled up with empty cells to the longest of them. -/
def paddedName (rows : List Row) (row column : Nat) : Option Char :=
  rows[row]?.bind fun r =>
    if column < Template.columnsOf rows then some (r.cells[column]?.getD emptyName) else none

theorem getElem?_append_replicate {α : Type} {xs : List α} {n i : Nat} (a : α) (h : i < xs.length + n) :
    (xs ++ List.replicate n a)[i]? = some (xs[i]?.getD a) := by
  rw [List.getElem?_append]
  split_ifs with hi
  · rw [List.getElem?_eq_getElem hi]
    rfl
  · rw [List.getElem?_eq_none (not_lt.mp hi), List.getElem?_replicate, if_pos (by omega)]
    rfl

namespace Row

theorem length_pad {r : Row} {n : Nat} (h : r.cells.length ≤ n) : (r.pad n).cells.length = n := by
  rw [pad, List.length_append, List.length_replicate]
  omega

theorem getElem?_pad {r : Row} {n : Nat} (h : r.cells.length ≤ n) (column : Nat) :
    (r.pad n).cells[column]? = if column < n then some (r.cells[column]?.getD emptyName) else none := by
  split_ifs with hc
  · exact getElem?_append_replicate emptyName (by omega)
  · exact List.getElem?_eq_none (by rw [length_pad h]; omega)

end Row

namespace Template

/-- A template whose rows have a cell for every column and whose slots are the rectangles of its names. -/
structure Partitioned (t : Template) : Prop where
  length_eq : ∀ r ∈ t.rows, r.cells.length = t.columnCount
  slots : t.slots.Partition (t.rows.map Row.cells)

theorem foldl_max_le {xs : List Nat} {a n : Nat} : xs.foldl max a ≤ n ↔ a ≤ n ∧ ∀ x ∈ xs, x ≤ n := by
  induction xs generalizing a with
  | nil => simp
  | cons x xs ih => rw [List.foldl_cons, ih, List.forall_mem_cons, max_le_iff, and_assoc]

theorem columnsOf_le {rows : List Row} {n : Nat} :
    columnsOf rows ≤ n ↔ ∀ r ∈ rows, r.cells.length ≤ n := by
  rw [columnsOf, foldl_max_le, List.forall_mem_map]
  simp only [Nat.zero_le, true_and]

theorem length_le_columnsOf {rows : List Row} {r : Row} (hr : r ∈ rows) :
    r.cells.length ≤ columnsOf rows :=
  columnsOf_le.mp le_rfl r hr

theorem columnsOf_ne_zero {rows : List Row} : columnsOf rows ≠ 0 ↔ ∃ r ∈ rows, r.cells ≠ [] := by
  rw [ne_eq, ← Nat.le_zero, columnsOf_le]
  simp only [Nat.le_zero, List.length_eq_zero_iff]
  push Not
  rfl

theorem nameAt_pad (rows : List Row) (row column : Nat) :
    nameAt ((rows.map (·.pad (columnsOf rows))).map Row.cells) row column = paddedName rows row column := by
  unfold nameAt paddedName
  rw [List.map_map, List.getElem?_map, Option.bind_map]
  cases hr : rows[row]? with
  | none => rfl
  | some r => exact Row.getElem?_pad (length_le_columnsOf (List.mem_of_getElem? hr)) column

/-- The template with these rows and widths and with slots for its names. -/
def filled (selector css : String) (rows : List Row) (widths : List Width) (slots : Slots) : Template :=
  { selector, css
    rows := rows.map (·.pad (columnsOf rows))
    widths := (widths ++ List.replicate (columnsOf rows) Width.equal).take (columnsOf rows)
    slots }

variable {selector css : String} {rows : List Row} {widths : List Width} {t : Template}

theorem ofRows_eq_ok :
    ofRows selector css rows widths = .ok t ↔
      columnsOf rows ≠ 0 ∧ ∃ slots, t = filled selector css rows widths slots ∧
        Slots.ofRows ((rows.map (·.pad (columnsOf rows))).map Row.cells) = .ok slots := by
  unfold ofRows
  by_cases h : columnsOf rows = 0
  · simp [h, throw, throwThe, MonadExceptOf.throw, bind, Except.bind]
  · simp only [h, if_false]
    constructor
    · intro ht
      refine ⟨h, ?_⟩
      obtain ⟨slots, hs, ht⟩ := Checked.bind_eq_ok.mp ht
      cases ht
      exact ⟨slots, rfl, hs⟩
    · rintro ⟨-, slots, rfl, hs⟩
      exact Checked.bind_eq_ok.mpr ⟨slots, hs, rfl⟩

theorem columnCount_filled {slots : Slots} :
    (filled selector css rows widths slots).columnCount = columnsOf rows := by
  rw [columnCount, filled, List.length_take, List.length_append, List.length_replicate]
  omega

theorem getElem?_widths_filled {slots : Slots} {column : Nat} (h : column < columnsOf rows) :
    (filled selector css rows widths slots).widths[column]? = some (widths[column]?.getD .equal) := by
  rw [filled, List.getElem?_take_of_lt h]
  exact getElem?_append_replicate Width.equal (by omega)

theorem cell?_filled {slots : Slots} (row column : Nat) :
    (filled selector css rows widths slots).cell? row column = paddedName rows row column := by
  rw [cell?_eq_nameAt]
  exact nameAt_pad rows row column

theorem partitioned_of_ofRows (h : ofRows selector css rows widths = .ok t) : t.Partitioned := by
  obtain ⟨-, slots, rfl, hs⟩ := ofRows_eq_ok.mp h
  refine ⟨?_, Slots.partition_of_ofRows hs⟩
  intro r' hr'
  obtain ⟨r, hr, rfl⟩ := List.mem_map.mp hr'
  exact (Row.length_pad (length_le_columnsOf hr)).trans columnCount_filled.symm

/-- A template has a row and a column. -/
theorem pos_of_ofRows (h : ofRows selector css rows widths = .ok t) : 0 < t.rowCount ∧ 0 < t.columnCount := by
  obtain ⟨hc, slots, rfl, -⟩ := ofRows_eq_ok.mp h
  obtain ⟨r, hr, -⟩ := columnsOf_ne_zero.mp hc
  constructor
  · exact (List.length_pos_of_mem hr).trans_eq (List.length_map _).symm
  · exact columnCount_filled.symm ▸ Nat.pos_of_ne_zero hc

theorem exists_ofRows_iff :
    (∃ t, ofRows selector css rows widths = .ok t) ↔
      (∃ r ∈ rows, r.cells ≠ []) ∧ ∀ name, FormsRectangle (paddedName rows) name := by
  have hrect := fun name => formsRectangle_congr (nameAt_pad rows) name
  simp only [ofRows_eq_ok, ← columnsOf_ne_zero, ← hrect, ← Slots.exists_ofRows_iff]
  constructor
  · rintro ⟨t, hc, slots, -, hs⟩
    exact ⟨hc, slots, hs⟩
  · rintro ⟨hc, slots, hs⟩
    exact ⟨_, hc, slots, rfl, hs⟩

namespace Partitioned

theorem cell?_eq_some_iff (ht : t.Partitioned) {s : Slot} (hs : s ∈ t.slots.toList) (r c : Nat) :
    t.cell? r c = some s.name ↔ s.Covers r c := by
  rw [cell?_eq_nameAt]
  exact ht.slots.cell_iff s hs r c

theorem cell?_isSome_iff (ht : t.Partitioned) (r c : Nat) :
    (t.cell? r c).isSome ↔ r < t.rowCount ∧ c < t.columnCount := by
  unfold cell? rowCount
  by_cases hr : r < t.rows.length
  · rw [List.getElem?_eq_getElem hr, Option.bind_some, isSome_getElem?,
      ht.length_eq _ (List.getElem_mem hr)]
    simp only [hr, true_and]
  · rw [List.getElem?_eq_none (by omega)]
    simp [hr]

theorem mem_names_of_cell? (ht : t.Partitioned) {r c : Nat} {name : Char} (h : t.cell? r c = some name) :
    name ∈ t.slots.names := by
  rw [cell?_eq_nameAt] at h
  rw [ht.slots.names_eq, Keyed.mem_distinct, ← map_name_cellsOf]
  exact List.mem_map.mpr ⟨⟨r, c, name⟩, mem_cellsOf.mpr h, rfl⟩

theorem nodup_names (ht : t.Partitioned) : t.slots.names.Nodup :=
  ht.slots.names_eq ▸ Keyed.nodup_distinct _

theorem endRow_lt (ht : t.Partitioned) {s : Slot} (hs : s ∈ t.slots.toList) :
    s.endRow < t.rowCount ∧ s.endColumn < t.columnCount := by
  have hshape := ht.slots.wellShaped s hs
  have h₁ := hshape.rowspan_pos
  have h₂ := hshape.colspan_pos
  have hcorner : s.Covers s.endRow s.endColumn := by
    unfold Slot.Covers Slot.endRow Slot.endColumn; omega
  rw [← ht.cell?_isSome_iff, (ht.cell?_eq_some_iff hs ..).mpr hcorner]
  rfl

/-- Every place of the grid is covered by one slot. -/
theorem existsUnique_covers (ht : t.Partitioned) {r c : Nat} (hr : r < t.rowCount) (hc : c < t.columnCount) :
    ∃! s, s ∈ t.slots.toList ∧ s.Covers r c := by
  obtain ⟨name, hname⟩ := Option.isSome_iff_exists.mp ((ht.cell?_isSome_iff r c).mpr ⟨hr, hc⟩)
  obtain ⟨s, hs, rfl⟩ := List.mem_map.mp (ht.mem_names_of_cell? hname)
  refine ⟨s, ⟨hs, (ht.cell?_eq_some_iff hs r c).mp hname⟩, ?_⟩
  rintro s' ⟨hs', hcov⟩
  rw [← ht.cell?_eq_some_iff hs', hname, Option.some.injEq] at hcov
  exact (List.inj_on_of_nodup_map ht.nodup_names hs hs' hcov).symm

end Partitioned

end Template

/-! ## The theorem -/

/-- Rows make a template exactly if one has a cell and the names of the filled grid form rectangles; the slots
of the template are these rectangles. -/
theorem template_exists_iff_rectangles (selector css : String) (rows : List Row) (widths : List Width) :
    ((∃ t, Template.ofRows selector css rows widths = .ok t) ↔
      (∃ r ∈ rows, r.cells ≠ []) ∧ ∀ name, FormsRectangle (paddedName rows) name) ∧
    ∀ t, Template.ofRows selector css rows widths = .ok t →
      t.rows.map Row.height = rows.map Row.height ∧
      (∀ r ∈ t.rows, r.cells.length = Template.columnsOf rows) ∧
      (∀ r c, t.cell? r c = paddedName rows r c) ∧
      t.widths.length = Template.columnsOf rows ∧
      (∀ c < Template.columnsOf rows, t.widths[c]? = some (widths[c]?.getD .equal)) ∧
      t.slots.names = Keyed.distinct (t.rows.flatMap Row.cells) ∧
      (∀ s ∈ t.slots.toList, ∀ r c, t.cell? r c = some s.name ↔ s.Covers r c) ∧
      ∀ r < t.rowCount, ∀ c < t.columnCount, ∃! s, s ∈ t.slots.toList ∧ s.Covers r c := by
  refine ⟨Template.exists_ofRows_iff, fun t h => ?_⟩
  have ht := Template.partitioned_of_ofRows h
  obtain ⟨-, slots, rfl, -⟩ := Template.ofRows_eq_ok.mp h
  have hcount : (Template.filled selector css rows widths slots).columnCount = Template.columnsOf rows :=
    Template.columnCount_filled
  refine ⟨?_, ?_, Template.cell?_filled, hcount, ?_, ?_, ?_, ?_⟩
  · rw [Template.filled, List.map_map]
    rfl
  · exact hcount ▸ ht.length_eq
  · intro c hc
    exact Template.getElem?_widths_filled hc
  · rw [ht.slots.names_eq, List.flatMap_def]
  · intro s hs
    exact ht.cell?_eq_some_iff hs
  · intro r hr c hc
    exact ht.existsUnique_covers hr hc

theorem template_of_three_rows :
    ∃ t, Template.ofRows "body" ""
        [⟨['a', 'a', 'b'], .auto⟩, ⟨['c', 'c', 'b'], .equal⟩, ⟨['d'], .auto⟩] [.minContent] = .ok t ∧
      t.cell? 1 2 = some 'b' ∧ t.cell? 2 2 = some '.' ∧ t.widths[0]? = some .minContent ∧
      t.widths[2]? = some .equal ∧ ∃! s, s ∈ t.slots.toList ∧ s.Covers 1 2 := by
  obtain ⟨t, ht⟩ : ∃ t, Template.ofRows "body" ""
      [⟨['a', 'a', 'b'], .auto⟩, ⟨['c', 'c', 'b'], .equal⟩, ⟨['d'], .auto⟩] [.minContent] = .ok t := ⟨_, rfl⟩
  obtain ⟨hheight, hrow, hcell, hlength, hwidth, -, -, hslot⟩ := (template_exists_iff_rectangles ..).2 t ht
  have hrows : t.rowCount = 3 := by simpa [Template.rowCount] using congrArg List.length hheight
  have hcolumns : t.columnCount = 3 := hlength
  exact ⟨t, ht, hcell 1 2, hcell 2 2, hwidth 0 (by decide), hwidth 2 (by decide),
    hslot 1 (by omega) 2 (by omega)⟩

end SlotGrid
