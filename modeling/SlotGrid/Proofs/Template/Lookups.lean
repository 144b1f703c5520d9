import SlotGrid.Proofs.Sizing.Reached

/-! # Slots along rows and columns

The slots of a row or column are looked up by the names in it. These lookups list the slots whose rectangles
cross the row or column, in the order in which they lie there.
-/

namespace SlotGrid

theorem getElem?_filterMap_of_isSome {α β : Type} {f : α → Option β} {xs : List α} (h : ∀ x ∈ xs, (f x).isSome)
    (i : ℕ) : (xs.filterMap f)[i]? = xs[i]?.bind f := by
  induction xs generalizing i with
  | nil => rfl
  | cons x xs ih =>
    obtain ⟨hx, hxs⟩ := List.forall_mem_cons.mp h
    obtain ⟨y, hy⟩ := Option.isSome_iff_exists.mp hx
    rw [List.filterMap_cons_some hy]
    cases i with
    | zero => exact hy.symm
    | succ i => exact ih hxs i

namespace Keyed

variable {κ : Type} [DecidableEq κ]

/-- Elements are listed in the order in which they first occur. -/
theorem pairwise_distinct (ks : List κ) :
    (distinct ks).Pairwise fun a b => ∃ i : ℕ, ks[i]? = some a ∧ ∀ j ≤ i, ks[j]? ≠ some b := by
  induction ks with
  | nil => exact List.Pairwise.nil
  | cons k ks ih =>
    refine List.pairwise_cons.mpr ⟨fun b hb => ⟨0, rfl, fun j hj => ?_⟩, ?_⟩
    · obtain rfl := Nat.le_zero.mp hj
      simpa using fun he => (of_decide_eq_true (List.mem_filter.mp hb).2) he.symm
    · refine (ih.filter _).imp_of_mem fun {a b} _ hb ⟨i, hi, hbefore⟩ => ⟨i + 1, hi, fun j hj => ?_⟩
      cases j with
      | zero => simpa using fun he => (of_decide_eq_true (List.mem_filter.mp hb).2) he.symm
      | succ j => exact hbefore j (by omega)

end Keyed

/-! ## Lines of names -/

namespace Slots

/-- A line of names in which each slot that crosses it has the places from `start` to `stop`, and no other slot has
any. -/
structure LieAlong (slots : Slots) (names : List Char) (crosses : Slot → Prop) (start stop : Slot → ℕ) : Prop where
  nodup_names : slots.names.Nodup
  known : ∀ name ∈ names, name ∈ slots.names
  place_iff : ∀ s ∈ slots.toList, ∀ i, names[i]? = some s.name ↔ crosses s ∧ start s ≤ i ∧ i ≤ stop s
  start_le : ∀ s ∈ slots.toList, start s ≤ stop s

namespace LieAlong

variable {slots : Slots} {names : List Char} {crosses : Slot → Prop} {start stop : Slot → ℕ} {s : Slot}

theorem place_start (h : slots.LieAlong names crosses start stop) (hs : s ∈ slots.toList) (hc : crosses s) :
    names[start s]? = some s.name :=
  (h.place_iff s hs _).mpr ⟨hc, le_rfl, h.start_le s hs⟩

theorem crosses_of_mem (h : slots.LieAlong names crosses start stop) (hs : s ∈ slots.toList) (hn : s.name ∈ names) :
    crosses s := by
  obtain ⟨i, hi⟩ := List.mem_iff_getElem?.mp hn
  exact ((h.place_iff s hs i).mp hi).1

/-- The slots that are looked up are the ones that cross the line. -/
theorem mem_iff (h : slots.LieAlong names crosses start stop) :
    s ∈ (Keyed.distinct names).filterMap slots.get? ↔ s ∈ slots.toList ∧ crosses s := by
  rw [List.mem_filterMap]
  constructor
  · rintro ⟨name, hname, hget⟩
    obtain ⟨hs, rfl⟩ := Keyed.mem_of_get? _ hget
    exact ⟨hs, h.crosses_of_mem hs (Keyed.mem_distinct.mp hname)⟩
  · rintro ⟨hs, hc⟩
    have hname : s.name ∈ names := List.mem_of_getElem? (h.place_start hs hc)
    exact ⟨s.name, Keyed.mem_distinct.mpr hname, Keyed.get?_of_mem _ h.nodup_names hs⟩

/-- The slots come in the order of their places. -/
theorem pairwise (h : slots.LieAlong names crosses start stop) :
    ((Keyed.distinct names).filterMap slots.get?).Pairwise fun a b => start a < start b := by
  rw [List.pairwise_filterMap]
  refine (Keyed.pairwise_distinct names).imp_of_mem fun {x y} _ hy ⟨i, hi, hbefore⟩ a hgeta b hgetb => ?_
  obtain ⟨ha, rfl⟩ := Keyed.mem_of_get? _ hgeta
  obtain ⟨hb, rfl⟩ := Keyed.mem_of_get? _ hgetb
  have hstart := h.place_start hb (h.crosses_of_mem hb (Keyed.mem_distinct.mp hy))
  have hle : start a ≤ i := ((h.place_iff a ha i).mp hi).2.1
  have hlt : i < start b := not_le.mp fun hle => hbefore _ hle hstart
  omega

/-- No name in the line is without a slot. -/
theorem map_name (h : slots.LieAlong names crosses start stop) :
    ((Keyed.distinct names).filterMap slots.get?).map Slot.name = Keyed.distinct names := by
  rw [List.map_filterMap]
  refine (List.filterMap_congr fun name hname => ?_).trans List.filterMap_some
  obtain ⟨s, hs, rfl⟩ := List.mem_map.mp (h.known name (Keyed.mem_distinct.mp hname))
  have hget : slots.get? s.name = some s := Keyed.get?_of_mem _ h.nodup_names hs
  rw [hget, Option.map_some]

end LieAlong

end Slots

/-! ## Rows and columns of templates -/

namespace Template

variable {t : Template}

/-- The names in a row from left to right. -/
def namesAcross (t : Template) (row : ℕ) : List Char := t.rows[row]?.elim [] Row.cells

theorem getElem?_namesAcross (t : Template) (row column : ℕ) : (t.namesAcross row)[column]? = t.cell? row column := by
  unfold namesAcross cell?
  cases t.rows[row]? <;> rfl

namespace Partitioned

/-- The names in a column from top to bottom. -/
theorem getElem?_namesDown (ht : t.Partitioned) (row column : ℕ) :
    (t.rows.filterMap (·.cells[column]?))[row]? = t.cell? row column := by
  by_cases hc : column < t.columnCount
  · refine getElem?_filterMap_of_isSome (fun r hr => ?_) row
    rw [isSome_getElem?, ht.length_eq r hr]
    exact hc
  · have hnone : ∀ r ∈ t.rows, r.cells[column]? = none := fun r hr =>
      List.getElem?_eq_none ((ht.length_eq r hr).trans_le (not_lt.mp hc))
    have hcell : ¬ (t.cell? row column).isSome := fun h => hc ((ht.cell?_isSome_iff row column).mp h).2
    rw [List.filterMap_eq_nil_iff.mpr hnone, Option.not_isSome_iff_eq_none.mp hcell]
    rfl

theorem lieAlong_row (ht : t.Partitioned) (row : ℕ) :
    t.slots.LieAlong (t.namesAcross row) (fun s => s.row ≤ row ∧ row ≤ s.endRow) Slot.column Slot.endColumn := by
  refine ⟨ht.nodup_names, fun name hname => ?_, fun s hs column => ?_, fun s hs => ?_⟩
  · obtain ⟨column, hcolumn⟩ := List.mem_iff_getElem?.mp hname
    rw [getElem?_namesAcross] at hcolumn
    exact ht.mem_names_of_cell? hcolumn
  · rw [getElem?_namesAcross, ht.cell?_eq_some_iff hs, Slot.Covers, and_assoc]
  · have hpos := (ht.slots.wellShaped s hs).colspan_pos
    unfold Slot.endColumn
    omega

theorem lieAlong_column (ht : t.Partitioned) (column : ℕ) :
    t.slots.LieAlong (t.rows.filterMap (·.cells[column]?)) (fun s => s.column ≤ column ∧ column ≤ s.endColumn)
      Slot.row Slot.endRow := by
  refine ⟨ht.nodup_names, fun name hname => ?_, fun s hs row => ?_, fun s hs => ?_⟩
  · obtain ⟨row, hrow⟩ := List.mem_iff_getElem?.mp hname
    rw [ht.getElem?_namesDown] at hrow
    exact ht.mem_names_of_cell? hrow
  · rw [ht.getElem?_namesDown, ht.cell?_eq_some_iff hs, Slot.Covers]
    tauto
  · have hpos := (ht.slots.wellShaped s hs).rowspan_pos
    unfold Slot.endRow
    omega

theorem namesInColumn_eq (ht : t.Partitioned) (column : ℕ) :
    t.namesInColumn column = (t.slotsInColumn column).map Slot.name :=
  (ht.lieAlong_column column).map_name.symm

theorem slotsInRow_eq_nil (ht : t.Partitioned) {row : ℕ} (h : t.rowCount ≤ row) : t.slotsInRow row = [] := by
  refine List.eq_nil_iff_forall_not_mem.mpr fun s hmem => ?_
  obtain ⟨hs, -, hend⟩ := (ht.lieAlong_row row).mem_iff.mp hmem
  exact absurd (ht.endRow_lt hs).1 (by omega)

theorem slotsInColumn_eq_nil (ht : t.Partitioned) {column : ℕ} (h : t.columnCount ≤ column) :
    t.slotsInColumn column = [] := by
  refine List.eq_nil_iff_forall_not_mem.mpr fun s hmem => ?_
  obtain ⟨hs, -, hend⟩ := (ht.lieAlong_column column).mem_iff.mp hmem
  exact absurd (ht.endRow_lt hs).2 (by omega)

end Partitioned

end Template

namespace Grid

variable {ε α : Type} [Quantity α] {g : Grid ε α}

/-- Columns have the names of their slots. -/
theorem Sound.map_names_builtColumns (hg : g.Sound) :
    g.builtColumns.map GridColumn.names =
      (List.range g.template.columnCount).map fun c => (g.template.slotsInColumn c).map Slot.name := by
  have hfresh : g.builtColumns.map GridColumn.names = g.freshColumns.map GridColumn.names := by
    rw [← hg.map_fresh_builtColumns, List.map_map]
    rfl
  rw [hfresh]
  simp only [← hg.partitioned.namesInColumn_eq]
  refine List.ext_getElem (by simp [freshColumns, template, Template.columnCount]) fun i _ _ => ?_
  simp [freshColumns]

end Grid

/-- The lookups of a template that was built and its slots agree: a row or column lists exactly the slots that cross it,
from left to right or from top to bottom, and none outside of the grid, and the columns of a grid with this template
keep the names of their slots. -/
theorem lookups_agree {selector css : String} {rows : List Row} {widths : List Width} {t : Template}
    (h : Template.ofRows selector css rows widths = .ok t) :
    (∀ row, (∀ s, s ∈ t.slotsInRow row ↔ s ∈ t.slots.toList ∧ s.row ≤ row ∧ row ≤ s.endRow) ∧
      (t.slotsInRow row).Pairwise fun a b => a.column < b.column) ∧
    (∀ column, (∀ s, s ∈ t.slotsInColumn column ↔ s ∈ t.slots.toList ∧ s.column ≤ column ∧ column ≤ s.endColumn) ∧
      (t.slotsInColumn column).Pairwise fun a b => a.row < b.row) ∧
    (∀ row, t.rowCount ≤ row → t.slotsInRow row = []) ∧
    (∀ column, t.columnCount ≤ column → t.slotsInColumn column = []) ∧
    ∀ {ε α : Type} [Quantity α] {kind : Measure ε α → Prop} (g : Grid ε α), g.Reached kind → g.template = t →
      g.builtColumns.map GridColumn.names =
        (List.range t.columnCount).map fun column => (t.slotsInColumn column).map Slot.name := by
  have ht := Template.partitioned_of_ofRows h
  refine ⟨fun row => ?_, fun column => ?_, fun _ => ht.slotsInRow_eq_nil, fun _ => ht.slotsInColumn_eq_nil, ?_⟩
  · exact ⟨fun s => (ht.lieAlong_row row).mem_iff, (ht.lieAlong_row row).pairwise⟩
  · exact ⟨fun s => (ht.lieAlong_column column).mem_iff, (ht.lieAlong_column column).pairwise⟩
  · rintro ε α _ kind g hg rfl
    exact hg.sound.map_names_builtColumns

theorem lookups_in_three_rows :
    ∃ t, Template.ofRows "body" "" [⟨['a', 'a', 'b'], .auto⟩, ⟨['c', 'c', 'b'], .equal⟩, ⟨['d'], .auto⟩] [] = .ok t ∧
      (∀ s, s ∈ t.slotsInRow 1 ↔ s ∈ t.slots.toList ∧ s.row ≤ 1 ∧ 1 ≤ s.endRow) ∧
      ((t.slotsInColumn 2).Pairwise fun a b => a.row < b.row) ∧ t.slotsInRow 3 = [] ∧ t.slotsInColumn 3 = [] ∧
      (Grid.ofTemplate t : Grid Unit Float).builtColumns.map GridColumn.names =
        [['a', 'c', 'd'], ['a', 'c', '.'], ['b', '.']] := by
  obtain ⟨t, ht, hrows, hcount, hnames⟩ : ∃ t, Template.ofRows "body" ""
      [⟨['a', 'a', 'b'], .auto⟩, ⟨['c', 'c', 'b'], .equal⟩, ⟨['d'], .auto⟩] [] = .ok t ∧
      t.rowCount = 3 ∧ t.columnCount = 3 ∧
      ((List.range t.columnCount).map fun column => (t.slotsInColumn column).map Slot.name) =
        [['a', 'c', 'd'], ['a', 'c', '.'], ['b', '.']] := ⟨_, rfl, by decide, by decide, by decide⟩
  obtain ⟨hrow, hcolumn, hbelow, hbehind, hgrid⟩ := lookups_agree ht
  have hreached : (Grid.ofTemplate t : Grid Unit Float).Reached fun _ => True := .built ht
  exact ⟨t, ht, (hrow 1).1, (hcolumn 2).2, hbelow 3 hrows.le, hbehind 3 hcount.le,
    (hgrid _ hreached (Grid.template_ofTemplate t)).trans hnames⟩

end SlotGrid
