import SlotGrid.Proofs.Checked
import SlotGrid.Proofs.Template.Growth
import SlotGrid.Proofs.Template.Reading

/-! # Rectangles of names

The scan of a grid knows exactly the cells read so far. It never fails on a grid in which the cells of every
name form a rectangle, and when it ends without an error its slots are those rectangles.
-/

namespace SlotGrid

/-- The cells of a name form one rectangle, which is empty if there are none. -/
def FormsRectangle (grid : Nat → Nat → Option Char) (name : Char) : Prop :=
  ∃ top bottom left right, ∀ row column,
    grid row column = some name ↔ (top ≤ row ∧ row ≤ bottom) ∧ left ≤ column ∧ column ≤ right

/-- With two cells a rectangle has the ones between them. -/
theorem FormsRectangle.between {grid : Nat → Nat → Option Char} {name : Char} (h : FormsRectangle grid name)
    {r₁ c₁ r₂ c₂ r c : Nat} (h₁ : grid r₁ c₁ = some name) (h₂ : grid r₂ c₂ = some name)
    (hr : min r₁ r₂ ≤ r ∧ r ≤ max r₁ r₂) (hc : min c₁ c₂ ≤ c ∧ c ≤ max c₁ c₂) : grid r c = some name := by
  obtain ⟨top, bottom, left, right, hg⟩ := h
  rw [hg] at h₁ h₂ ⊢
  omega

theorem formsRectangle_congr {grid grid' : Nat → Nat → Option Char} (h : ∀ r c, grid r c = grid' r c)
    (name : Char) : FormsRectangle grid name ↔ FormsRectangle grid' name := by
  simp only [FormsRectangle, h]

theorem Slot.formsRectangle {s : Slot} {grid : Nat → Nat → Option Char}
    (h : ∀ r c, grid r c = some s.name ↔ s.Covers r c) : FormsRectangle grid s.name :=
  ⟨s.row, s.endRow, s.column, s.endColumn, fun r c => by rw [h]; unfold Covers; tauto⟩

theorem formsRectangle_of_absent {grid : Nat → Nat → Option Char} {name : Char}
    (h : ∀ r c, grid r c ≠ some name) : FormsRectangle grid name :=
  ⟨1, 0, 0, 0, fun r c => ⟨fun hn => absurd hn (h r c), fun hn => by omega⟩⟩

/-! ## What a scan knows -/

/-- What a cell turns the slot of its name into, if there is one. -/
def SlotScan.Takes (s : SlotScan) (c : Cell) (slot' : Slot) : Prop :=
  match s.slots.get? c.name with
  | some slot => slot.expand c.row c.column = .ok slot'
  | none => slot' = .single c.name c.row c.column

theorem SlotScan.take_eq_ok {s s' : SlotScan} {c : Cell} :
    s.take c = .ok s' ↔
      s.checkLeft c.name = .ok () ∧ ∃ slot', s.Takes c slot' ∧ s' = ⟨s.slots.insert slot', some c.name⟩ := by
  unfold take Takes
  rw [Checked.bind_eq_ok]
  cases hg : s.slots.get? c.name with
  | some slot =>
    simp only [Slots.expand]
    cases he : slot.expand c.row c.column with
    | error e => simp [Except.map, bind, Except.bind]
    | ok slot' =>
      constructor
      · rintro ⟨_, hleft, h⟩
        cases h
        exact ⟨hleft, slot', rfl, rfl⟩
      · rintro ⟨hleft, _, h, rfl⟩
        cases h
        exact ⟨(), hleft, rfl⟩
  | none =>
    constructor
    · rintro ⟨_, hleft, h⟩
      cases h
      exact ⟨hleft, _, rfl, rfl⟩
    · rintro ⟨hleft, _, rfl, rfl⟩
      exact ⟨(), hleft, rfl⟩

/-- The state of a scan after some cells were read. -/
structure Scanned (read : List Cell) (s : SlotScan) : Prop where
  names_eq : s.slots.names = Keyed.distinct (read.map Cell.name)
  wellShaped : ∀ slot ∈ s.slots.toList, slot.WellShaped
  took_iff : ∀ slot ∈ s.slots.toList, ∀ r c, slot.Took r c ↔ ⟨r, c, slot.name⟩ ∈ read

namespace Scanned

variable {read : List Cell} {s s' : SlotScan} {c : Cell}

theorem start : Scanned [] .start where
  names_eq := rfl
  wellShaped := by simp [SlotScan.start, Slots.empty]
  took_iff := by simp [SlotScan.start, Slots.empty]

theorem nodup_names (h : Scanned read s) : s.slots.names.Nodup :=
  h.names_eq ▸ Keyed.nodup_distinct _

theorem not_read (h : Scanned read s) {name : Char} (hg : s.slots.get? name = none) (row column : Nat) :
    ⟨row, column, name⟩ ∉ read := by
  intro ha
  have hn : name ∉ s.slots.names := Keyed.get?_eq_none _ hg
  rw [h.names_eq, Keyed.mem_distinct] at hn
  exact hn (List.mem_map_of_mem (f := Cell.name) ha)

/-- Putting in a slot that has taken one more cell leaves the other slots as they are. -/
theorem put (h : Scanned read s) {slot : Slot} (hname : slot.name = c.name) (hshape : slot.WellShaped)
    (htook : ∀ r k, slot.Took r k ↔ ⟨r, k, c.name⟩ ∈ read ∨ r = c.row ∧ k = c.column) :
    Scanned (read ++ [c]) ⟨s.slots.insert slot, some c.name⟩ where
  names_eq := by
    have hn := h.names_eq
    unfold Slots.names at hn
    rw [Slots.names, Slots.insert, Keyed.map_put, hname, hn, List.map_append, List.map_singleton,
      Keyed.distinct_append_singleton]
    simp only [Keyed.mem_distinct]
  wellShaped := by
    intro x hx
    rcases (Keyed.mem_put _ h.nodup_names).mp hx with rfl | ⟨hx, -⟩
    · exact hshape
    · exact h.wellShaped x hx
  took_iff := by
    intro x hx r k
    rw [List.mem_append, List.mem_singleton]
    rcases (Keyed.mem_put _ h.nodup_names).mp hx with rfl | ⟨hx, hne⟩
    · rw [htook, hname]
      cases c
      simp only [Cell.mk.injEq, and_true]
    · rw [h.took_iff x hx]
      have hc : (⟨r, k, x.name⟩ : Cell) ≠ c := by
        rintro rfl
        exact hne hname.symm
      simp only [hc, or_false]

theorem takes (h : Scanned read s) {slot : Slot} (ht : s.Takes c slot) :
    slot.name = c.name ∧ slot.WellShaped ∧
      ∀ r k, slot.Took r k ↔ ⟨r, k, c.name⟩ ∈ read ∨ r = c.row ∧ k = c.column := by
  unfold SlotScan.Takes at ht
  cases hg : s.slots.get? c.name with
  | some old =>
    simp only [hg] at ht
    obtain ⟨hmem, hname⟩ := Keyed.mem_of_get? _ hg
    have hold := h.wellShaped old hmem
    refine ⟨(Slot.name_expand ht).trans hname, hold.expand ht, fun r k => ?_⟩
    rw [Slot.took_expand hold ht, h.took_iff old hmem, hname]
  | none =>
    simp only [hg] at ht
    subst ht
    refine ⟨rfl, Slot.wellShaped_single .., fun r k => ?_⟩
    rw [Slot.took_single]
    simp only [h.not_read hg r k, false_or]

theorem take (h : Scanned read s) (ht : s.take c = .ok s') : Scanned (read ++ [c]) s' := by
  obtain ⟨-, slot, hslot, rfl⟩ := SlotScan.take_eq_ok.mp ht
  obtain ⟨hname, hshape, htook⟩ := h.takes hslot
  exact h.put hname hshape htook

/-- What the scan of some cells has collected. -/
theorem of_foldlM (hs : read.foldlM SlotScan.take .start = .ok s) : Scanned read s := by
  induction read using List.reverseRecOn generalizing s with
  | nil =>
    cases hs
    exact start
  | append_singleton read c ih =>
    obtain ⟨u, hu, ht⟩ := Checked.foldlM_append_singleton.mp hs
    exact (ih hu).take ht

end Scanned

/-! ## Grids of rectangles -/

section Rectangles

variable {rows : List (List Char)} {grid : Nat → Nat → Option Char} {read rest : List Cell} {s : SlotScan} {c : Cell}

/-- A grid whose cells have been read up to one that is read next. What is behind that cell is not known. -/
structure ReadUpTo (grid : Nat → Nat → Option Char) (read : List Cell) (c : Cell) : Prop where
  next : grid c.row c.column = some c.name
  mem_iff : ∀ a : Cell, a ∈ read ↔ grid a.row a.column = some a.name ∧ a.Before c

theorem readUpTo_nameAt (hcells : cellsOf rows = read ++ c :: rest) : ReadUpTo (nameAt rows) read c where
  next := by
    rw [← mem_cellsOf, hcells]
    exact List.mem_append_right _ List.mem_cons_self
  mem_iff := mem_left_iff hcells

/-- A slot knows its cells before the one that is read next. -/
theorem Scanned.took_iff_before (h : Scanned read s) (hg : ReadUpTo grid read c) {slot : Slot}
    (hm : slot ∈ s.slots.toList) (r k : Nat) :
    slot.Took r k ↔ grid r k = some slot.name ∧ (r < c.row ∨ r = c.row ∧ k < c.column) := by
  rw [h.took_iff slot hm, hg.mem_iff]
  rfl

/-- A slot of a rectangle that is still open goes on right after its last cell. -/
theorem Slot.WellShaped.next_of_open {slot : Slot} (hs : slot.WellShaped) (hopen : slot.isClosed ≠ true)
    (htook : ∀ r k, slot.Took r k → grid r k = some slot.name) (hrect : FormsRectangle grid slot.name) :
    grid slot.lastRow (slot.lastColumn + 1) = some slot.name := by
  rw [ne_eq, hs.isClosed_iff] at hopen
  obtain ⟨h₁, h₂, h₃, h₄, h₅⟩ := hs
  unfold Slot.endColumn at hopen
  have hcorner : slot.Took slot.row slot.endColumn := by unfold Slot.Took Slot.endColumn; omega
  have hlast : slot.Took slot.lastRow slot.lastColumn := by unfold Slot.Took; omega
  unfold Slot.endColumn at hcorner
  exact hrect.between (htook _ _ hcorner) (htook _ _ hlast) (by omega) (by omega)

/-- In a grid of rectangles the only slot that may be open is the one that the next cell belongs to. -/
theorem Scanned.next_of_open (h : Scanned read s) (hg : ReadUpTo grid read c) {slot : Slot}
    (hm : slot ∈ s.slots.toList) (hrect : FormsRectangle grid slot.name)
    (hopen : slot.isClosed ≠ true) : c = ⟨slot.lastRow, slot.lastColumn + 1, slot.name⟩ := by
  have htook := h.took_iff_before hg hm
  have hs := h.wellShaped slot hm
  have hnext := hs.next_of_open hopen (fun r k hk => ((htook r k).mp hk).1) hrect
  have hlast := ((htook slot.lastRow slot.lastColumn).mp hs.took_last).2
  have hafter : ¬ (slot.lastRow < c.row ∨ slot.lastRow = c.row ∧ slot.lastColumn + 1 < c.column) :=
    fun hb => Slot.not_took_next ((htook _ _).mpr ⟨hnext, hb⟩)
  have hplace : c.row = slot.lastRow ∧ c.column = slot.lastColumn + 1 := by omega
  have hc := hg.next
  rw [hplace.1, hplace.2, hnext, Option.some.injEq] at hc
  cases c
  simp_all

/-- Whatever lies between the first cell of a slot and the next one of its rectangle was taken. -/
theorem Scanned.took_between (h : Scanned read s) (hg : ReadUpTo grid read c) {slot : Slot}
    (hm : slot ∈ s.slots.toList) (hname : slot.name = c.name) (hrect : FormsRectangle grid slot.name)
    {r k : Nat} (hr : slot.row ≤ r ∧ r ≤ c.row)
    (hk : min slot.column c.column ≤ k ∧ k ≤ max slot.column c.column)
    (hbefore : r < c.row ∨ r = c.row ∧ k < c.column) : slot.Took r k := by
  have htook := h.took_iff_before hg hm
  have hfirst := (htook slot.row slot.column).mp (h.wellShaped slot hm).took_first
  have hc : grid c.row c.column = some slot.name := by rw [hname, hg.next]
  exact (htook r k).mpr ⟨hrect.between hfirst.1 hc (by omega) hk, hbefore⟩

/-- A slot that goes on in a later row has filled its last one, and starts the next in its first column. -/
theorem Scanned.starts_row (h : Scanned read s) (hg : ReadUpTo grid read c) {slot : Slot}
    (hm : slot ∈ s.slots.toList) (hname : slot.name = c.name) (hrect : FormsRectangle grid slot.name)
    (hlt : slot.lastRow < c.row) :
    c.row = slot.lastRow + 1 ∧ slot.lastColumn = slot.endColumn ∧ c.column = slot.column := by
  have hbetween := fun r k => h.took_between hg hm hname hrect (r := r) (k := k)
  have hs := h.wellShaped slot hm
  have hrow_le := hs.row_le
  refine ⟨?_, ?_, ?_⟩
  · by_contra hne
    have hb := (hbetween (slot.lastRow + 1) slot.column (by omega) (by omega) (by omega)).row_le
    omega
  · by_contra hne
    rw [← hs.isClosed_iff] at hne
    exact absurd (congrArg Cell.row (h.next_of_open hg hm hrect hne)) hlt.ne'
  · rcases Nat.lt_trichotomy c.column slot.column with hcol | hcol | hcol
    · have hb := (hbetween slot.row c.column (by omega) (by omega) (by omega)).column_le
      omega
    · exact hcol
    · have hb := (hbetween c.row slot.column (by omega) (by omega) (by omega)).row_le
      omega

/-- A slot takes the next cell of its rectangle. -/
theorem Scanned.exists_expand (h : Scanned read s) (hg : ReadUpTo grid read c) {slot : Slot}
    (hm : slot ∈ s.slots.toList) (hname : slot.name = c.name)
    (hrect : FormsRectangle grid slot.name) :
    ∃ slot', slot.expand c.row c.column = .ok slot' := by
  have hbetween := fun r k => h.took_between hg hm hname hrect (r := r) (k := k)
  have hs := h.wellShaped slot hm
  have hlast := ((h.took_iff_before hg hm _ _).mp hs.took_last).2
  have hrow_le := hs.row_le
  have hcolumn_le := hs.column_le
  unfold Slot.expand
  split_ifs with hnext hrow hout hstart
  · exact ⟨_, rfl⟩
  · have hb := (hbetween slot.row c.column (by omega) (by omega) (by omega)).le_endColumn hs
    omega
  · exact ⟨_, rfl⟩
  · exact ⟨_, rfl⟩
  · exfalso
    rcases hlast with hlt | ⟨heq, hlt⟩
    · exact hstart (h.starts_row hg hm hname hrect hlt)
    · exact Slot.not_took_next (hbetween slot.lastRow (slot.lastColumn + 1) (by omega) (by omega) (by omega))

/-- The next cell of a grid of rectangles is always taken. -/
theorem Scanned.exists_take (h : Scanned read s) (hg : ReadUpTo grid read c)
    (hrect : ∀ name, FormsRectangle grid name) : ∃ s', s.take c = .ok s' := by
  have hleft : s.checkLeft c.name = .ok () := by
    unfold SlotScan.checkLeft
    split
    · rename_i left _
      split_ifs with hne
      · rfl
      · cases hget : s.slots.get? left with
        | none => rfl
        | some slot =>
          obtain ⟨hm, rfl⟩ := Keyed.mem_of_get? _ hget
          have hc : slot.isClosed = true := by
            by_contra hopen
            exact hne (congrArg Cell.name (h.next_of_open hg hm (hrect _) hopen)).symm
          simp [Slot.requireClosed, hc]
    · rfl
  have htakes : ∃ slot, s.Takes c slot := by
    unfold SlotScan.Takes
    cases hget : s.slots.get? c.name with
    | none => exact ⟨_, rfl⟩
    | some slot =>
      obtain ⟨hm, hname⟩ := Keyed.mem_of_get? _ hget
      exact h.exists_expand hg hm hname (hrect _)
  obtain ⟨slot, hslot⟩ := htakes
  exact ⟨_, SlotScan.take_eq_ok.mpr ⟨hleft, slot, hslot, rfl⟩⟩

/-- Every beginning of a grid of rectangles is read without an error. -/
theorem exists_foldlM_take (hrect : ∀ name, FormsRectangle (nameAt rows) name)
    (hcells : cellsOf rows = read ++ rest) : ∃ s, read.foldlM SlotScan.take .start = .ok s := by
  induction read using List.reverseRecOn generalizing rest with
  | nil => exact ⟨_, rfl⟩
  | append_singleton read c ih =>
    rw [List.append_assoc] at hcells
    obtain ⟨s, hs⟩ := ih hcells
    obtain ⟨s', hs'⟩ := (Scanned.of_foldlM hs).exists_take (readUpTo_nameAt hcells) hrect
    exact ⟨s', Checked.foldlM_append_singleton.mpr ⟨s, hs, hs'⟩⟩

end Rectangles

/-! ## Slots of a grid -/

/-- The slots of a grid are exactly its names, each with the rectangle of its cells. -/
structure Slots.Partition (slots : Slots) (rows : List (List Char)) : Prop where
  names_eq : slots.names = Keyed.distinct rows.flatten
  wellShaped : ∀ s ∈ slots.toList, s.WellShaped
  cell_iff : ∀ s ∈ slots.toList, ∀ r c, nameAt rows r c = some s.name ↔ s.Covers r c

theorem Slots.ofRows_eq_ok {rows : List (List Char)} {slots : Slots} :
    Slots.ofRows rows = .ok slots ↔
      ∃ s, (cellsOf rows).foldlM SlotScan.take .start = .ok s ∧
        (∀ slot ∈ s.slots.toList, slot.requireClosed = .ok ()) ∧ s.slots = slots := by
  unfold Slots.ofRows
  rw [Checked.bind_eq_ok]
  constructor
  · rintro ⟨s, hs, h⟩
    obtain ⟨_, hclosed, h⟩ := Checked.bind_eq_ok.mp h
    cases h
    exact ⟨s, hs, Checked.forM_eq_ok.mp hclosed, rfl⟩
  · rintro ⟨s, hs, hclosed, rfl⟩
    exact ⟨s, hs, Checked.bind_eq_ok.mpr ⟨(), Checked.forM_eq_ok.mpr hclosed, rfl⟩⟩

theorem Slot.requireClosed_eq_ok {s : Slot} : s.requireClosed = .ok () ↔ s.isClosed = true := by
  unfold requireClosed
  split_ifs with h <;> simp [h]

theorem Slots.partition_of_ofRows {rows : List (List Char)} {slots : Slots}
    (h : Slots.ofRows rows = .ok slots) : slots.Partition rows := by
  obtain ⟨s, hs, hclosed, rfl⟩ := Slots.ofRows_eq_ok.mp h
  have hscan := Scanned.of_foldlM hs
  refine ⟨?_, hscan.wellShaped, fun slot hm r c => ?_⟩
  · rw [hscan.names_eq, map_name_cellsOf]
  · have hshape := hscan.wellShaped slot hm
    rw [← hshape.took_iff_covers (Slot.requireClosed_eq_ok.mp (hclosed slot hm)), hscan.took_iff slot hm,
      mem_cellsOf]

/-- A grid has slots exactly if the cells of every name form a rectangle. -/
theorem Slots.exists_ofRows_iff {rows : List (List Char)} :
    (∃ slots, Slots.ofRows rows = .ok slots) ↔ ∀ name, FormsRectangle (nameAt rows) name := by
  constructor
  · rintro ⟨slots, h⟩ name
    have hp := Slots.partition_of_ofRows h
    by_cases hn : name ∈ rows.flatten
    · rw [← Keyed.mem_distinct, ← hp.names_eq] at hn
      obtain ⟨s, hs, rfl⟩ := List.mem_map.mp hn
      exact Slot.formsRectangle (hp.cell_iff s hs)
    · refine formsRectangle_of_absent fun r c hg => hn ?_
      rw [← map_name_cellsOf]
      exact List.mem_map.mpr ⟨⟨r, c, name⟩, mem_cellsOf.mpr hg, rfl⟩
  · intro hrect
    obtain ⟨s, hs⟩ := exists_foldlM_take hrect (List.append_nil _).symm
    have hscan := Scanned.of_foldlM hs
    refine ⟨s.slots, Slots.ofRows_eq_ok.mpr ⟨s, hs, fun slot hm => ?_, rfl⟩⟩
    rw [Slot.requireClosed_eq_ok]
    have htook : ∀ r k, slot.Took r k ↔ nameAt rows r k = some slot.name := by
      intro r k
      rw [hscan.took_iff slot hm, mem_cellsOf]
    by_contra hopen
    exact Slot.not_took_next ((htook _ _).mpr
      ((hscan.wellShaped slot hm).next_of_open hopen (fun r k => (htook r k).mp) (hrect _)))

end SlotGrid
