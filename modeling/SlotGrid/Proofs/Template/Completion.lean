import SlotGrid.Proofs.Template.Partition

/-! # Completions

The scan of a grid fails at the first cell that leaves no way to complete the cells read so far to a grid of
rectangles. While it has not failed, a slot is open only if the last cell belongs to it, and the rest of its row and
names of their own for all other cells complete the grid. The cell that it blames has the name of a slot that is no
rectangle, even though what is behind the cell is not known then.
-/

namespace SlotGrid

/-! ## Completed grids -/

/-- The name of a cell in a completed grid: a character, or one of as many other names as are needed. -/
inductive Label
  | char (c : Char)
  | fresh (n : Nat)
  deriving DecidableEq, Repr

/-- A grid of this size in which the cells of every label form a rectangle. -/
structure IsRectangular (rows columns : Nat) (grid : Nat → Nat → Option Label) : Prop where
  isSome_iff : ∀ r c, (grid r c).isSome ↔ r < rows ∧ c < columns
  rectangle : ∀ label, ∃ top bottom left right, ∀ r c,
    grid r c = some label ↔ (top ≤ r ∧ r ≤ bottom) ∧ left ≤ c ∧ c ≤ right

/-- Whether some cells are those of a grid of this size in which all cells of a label form a rectangle. -/
def Completable (rows columns : Nat) (cells : List Cell) : Prop :=
  ∃ grid, IsRectangular rows columns grid ∧ ∀ a ∈ cells, grid a.row a.column = some (.char a.name)

/-- All rows have this length. -/
def Uniform (rows : List (List Char)) (columns : Nat) : Prop := ∀ r ∈ rows, r.length = columns

namespace Uniform

variable {rows : List (List Char)} {columns : Nat}

theorem isSome_nameAt_iff (h : Uniform rows columns) (r c : Nat) :
    (nameAt rows r c).isSome ↔ r < rows.length ∧ c < columns := by
  unfold nameAt
  by_cases hr : r < rows.length
  · rw [List.getElem?_eq_getElem hr, Option.bind_some, isSome_getElem?, h _ (List.getElem_mem hr)]
    simp only [hr, true_and]
  · rw [List.getElem?_eq_none (by omega)]
    simp [hr]

theorem exists_mem_cellsOf (h : Uniform rows columns) {r c : Nat} (hr : r < rows.length) (hc : c < columns) :
    ∃ name, ⟨r, c, name⟩ ∈ cellsOf rows := by
  obtain ⟨name, hname⟩ := Option.isSome_iff_exists.mp ((h.isSome_nameAt_iff r c).mpr ⟨hr, hc⟩)
  exact ⟨name, mem_cellsOf.mpr hname⟩

theorem lt_of_mem_cellsOf (h : Uniform rows columns) {a : Cell} (ha : a ∈ cellsOf rows) :
    a.row < rows.length ∧ a.column < columns := by
  rw [← h.isSome_nameAt_iff, mem_cellsOf.mp ha]
  rfl

end Uniform

/-! ## Open slots -/

section Open

variable {read : List Cell} {s s' : SlotScan} {c : Cell} {slot : Slot}

theorem Slot.last_of_expand {slot' : Slot} {row column : Nat} (h : slot.expand row column = .ok slot') :
    slot'.lastRow = row ∧ slot'.lastColumn = column := by
  obtain ⟨-, -, -, rfl⟩ | ⟨-, -, -, -, rfl⟩ | ⟨-, -, -, rfl⟩ := Slot.expand_cases h <;> exact ⟨rfl, rfl⟩

theorem SlotScan.last_of_takes (h : s.Takes c slot) : slot.lastRow = c.row ∧ slot.lastColumn = c.column := by
  unfold Takes at h
  split at h
  · exact Slot.last_of_expand h
  · subst h
    exact ⟨rfl, rfl⟩

/-- A slot of which the last cell was read before may be open only if it goes on. -/
theorem SlotScan.closed_of_checkLeft {left name : Char} (h : s.checkLeft name = .ok ())
    (hprevious : s.previous = some left) (hne : left ≠ name) (hget : s.slots.get? left = some slot) :
    slot.isClosed = true := by
  unfold checkLeft at h
  rw [hprevious] at h
  simp only [hne, if_false, hget, Option.elim_some] at h
  exact Slot.requireClosed_eq_ok.mp h

theorem previous_of_foldlM (h : (read ++ [c]).foldlM SlotScan.take .start = .ok s) : s.previous = some c.name := by
  obtain ⟨u, -, ht⟩ := Checked.foldlM_append_singleton.mp h
  obtain ⟨-, slot, -, rfl⟩ := SlotScan.take_eq_ok.mp ht
  rfl

/-- The last cell of an open slot is the last that was read. -/
theorem last_of_open (h : read.foldlM SlotScan.take .start = .ok s) (hm : slot ∈ s.slots.toList)
    (hopen : slot.isClosed ≠ true) : ∃ before, read = before ++ [⟨slot.lastRow, slot.lastColumn, slot.name⟩] := by
  induction read using List.reverseRecOn generalizing s with
  | nil =>
    cases h
    cases hm
  | append_singleton read c ih =>
    obtain ⟨u, hu, ht⟩ := Checked.foldlM_append_singleton.mp h
    obtain ⟨hleft, slot', htakes, rfl⟩ := SlotScan.take_eq_ok.mp ht
    have hu' := Scanned.of_foldlM hu
    obtain ⟨hname, -, -⟩ := hu'.takes htakes
    rcases (Keyed.mem_put _ hu'.nodup_names).mp hm with rfl | ⟨hm, hne⟩
    · obtain ⟨hrow, hcolumn⟩ := SlotScan.last_of_takes htakes
      exact ⟨read, by rw [hrow, hcolumn, hname]⟩
    · obtain ⟨before, rfl⟩ := ih hu hm
      rw [hname] at hne
      exact absurd (SlotScan.closed_of_checkLeft hleft (previous_of_foldlM hu) hne
        (Keyed.get?_of_mem _ hu'.nodup_names hm)) hopen

end Open

/-! ## A completion -/

namespace Slot

variable {slot : Slot} {r c : Nat}

theorem Took.covers (h : slot.Took r c) (hs : slot.WellShaped) : slot.Covers r c := by
  obtain ⟨h₁, h₂, h₃, h₄, h₅⟩ := hs
  unfold Took Covers endRow endColumn at *
  omega

/-- What a slot covers and has not taken is the rest of its last row. -/
theorem rest_of_not_took (hs : slot.WellShaped) (hcovers : slot.Covers r c) (h : ¬ slot.Took r c) :
    slot.isClosed ≠ true ∧ r = slot.lastRow ∧ slot.lastColumn < c := by
  rw [ne_eq, hs.isClosed_iff]
  obtain ⟨h₁, h₂, h₃, h₄, h₅⟩ := hs
  unfold Took Covers endRow endColumn at *
  omega

/-- A cell of the last column was taken. -/
theorem WellShaped.took_corner (hs : slot.WellShaped) : slot.Took slot.row slot.endColumn := by
  obtain ⟨h₁, h₂, h₃, h₄, h₅⟩ := hs
  unfold Took endColumn
  omega

end Slot

namespace Slots

variable {slots : Slots} {slot : Slot} {rows columns r c n : Nat} {label : Label} {name : Char}

def at? (slots : Slots) (r c : Nat) : Option Slot := slots.toList.find? fun s => s.Covers r c

/-- The cells that slots cover in a grid of this size, with names of their own for the others. -/
def completed (slots : Slots) (rows columns r c : Nat) : Option Label :=
  if r < rows ∧ c < columns then some ((slots.at? r c).elim (.fresh (Nat.pair r c)) fun s => .char s.name) else none

theorem of_at? (h : slots.at? r c = some slot) : slot ∈ slots.toList ∧ slot.Covers r c :=
  ⟨List.mem_of_find?_eq_some h, by simpa using List.find?_some h⟩

theorem exists_at?_of_covers (hm : slot ∈ slots.toList) (h : slot.Covers r c) : ∃ slot', slots.at? r c = some slot' :=
  Option.isSome_iff_exists.mp (List.find?_isSome.mpr ⟨slot, hm, decide_eq_true h⟩)

theorem completed_eq_char_iff : slots.completed rows columns r c = some (.char name) ↔
    (r < rows ∧ c < columns) ∧ ∃ slot, slots.at? r c = some slot ∧ slot.name = name := by
  unfold completed
  split_ifs with hwithin
  · cases slots.at? r c <;> simp [hwithin]
  · simp [hwithin]

theorem completed_eq_fresh_iff : slots.completed rows columns r c = some (.fresh n) ↔
    (r < rows ∧ c < columns) ∧ slots.at? r c = none ∧ Nat.pair r c = n := by
  unfold completed
  split_ifs with hwithin
  · cases slots.at? r c <;> simp [hwithin]
  · simp [hwithin]

end Slots

section Completed

variable {rows : List (List Char)} {columns : Nat} {read rest : List Cell} {s : SlotScan} {slot slot' : Slot}
  {r c : Nat}

theorem within_of_covers (hrows : Uniform rows columns) (hcells : cellsOf rows = read ++ rest) (hs : Scanned read s)
    (hm : slot ∈ s.slots.toList) (h : slot.Covers r c) : r < rows.length ∧ c < columns := by
  have hshape := hs.wellShaped slot hm
  have hwithin : ∀ r c, slot.Took r c → r < rows.length ∧ c < columns := fun r c htook =>
    hrows.lt_of_mem_cellsOf (hcells ▸ List.mem_append_left rest ((hs.took_iff slot hm r c).mp htook))
  have hlast := hwithin _ _ hshape.took_last
  have hcorner := hwithin _ _ hshape.took_corner
  have hrowspan := hshape.rowspan_eq
  have hrow := hshape.row_le
  unfold Slot.Covers Slot.endRow at h
  omega

/-- The rest of the last row of an open slot has not been read. -/
theorem not_read_of_open (hcells : cellsOf rows = read ++ rest) (hs : read.foldlM SlotScan.take .start = .ok s)
    (hm : slot ∈ s.slots.toList) (hopen : slot.isClosed ≠ true) (hc : slot.lastColumn < c) (name : Char) :
    ⟨slot.lastRow, c, name⟩ ∉ read := by
  obtain ⟨before, rfl⟩ := last_of_open hs hm hopen
  have hp := pairwise_before_cellsOf rows
  rw [hcells, List.append_assoc, List.pairwise_append] at hp
  intro hread
  rcases List.mem_append.mp hread with hbefore | hlast
  · have hb := hp.2.2 _ hbefore _ (List.mem_append_left rest (List.mem_singleton_self _))
    unfold Cell.Before at hb
    dsimp only at hb
    omega
  · cases List.mem_singleton.mp hlast
    exact hc.ne rfl

theorem eq_of_covers (hcells : cellsOf rows = read ++ rest) (hs : read.foldlM SlotScan.take .start = .ok s)
    (hm : slot ∈ s.slots.toList) (hm' : slot' ∈ s.slots.toList) (h : slot.Covers r c) (h' : slot'.Covers r c) :
    slot = slot' := by
  have hscan := Scanned.of_foldlM hs
  refine List.inj_on_of_nodup_map hscan.nodup_names hm hm' ?_
  have hread : ∀ {t t' : Slot}, t ∈ s.slots.toList → t' ∈ s.slots.toList → t.Covers r c → t.Took r c →
      t'.Covers r c → t'.Took r c := by
    intro t t' ht ht' hcovers htook hcovers'
    by_contra hnot
    obtain ⟨hopen, rfl, hc⟩ := Slot.rest_of_not_took (hscan.wellShaped t' ht') hcovers' hnot
    exact not_read_of_open hcells hs ht' hopen hc t.name ((hscan.took_iff t ht _ _).mp htook)
  by_cases htook : slot.Took r c
  · have hname := (hscan.took_iff slot hm r c).mp htook
    have hname' := (hscan.took_iff slot' hm' r c).mp (hread hm hm' h htook h')
    have hat : ∀ {name}, ⟨r, c, name⟩ ∈ read → nameAt rows r c = some name := fun hmem =>
      mem_cellsOf.mp (hcells ▸ List.mem_append_left rest hmem)
    exact Option.some.inj ((hat hname).symm.trans (hat hname'))
  · have htook' : ¬ slot'.Took r c := fun ht => htook (hread hm' hm h' ht h)
    obtain ⟨hopen, -, -⟩ := Slot.rest_of_not_took (hscan.wellShaped slot hm) h htook
    obtain ⟨hopen', -, -⟩ := Slot.rest_of_not_took (hscan.wellShaped slot' hm') h' htook'
    obtain ⟨before, hlast⟩ := last_of_open hs hm hopen
    obtain ⟨before', hlast'⟩ := last_of_open hs hm' hopen'
    rw [hlast] at hlast'
    exact congrArg Cell.name (List.singleton_injective (List.append_inj_right' hlast' rfl))

theorem completed_eq_name_iff (hrows : Uniform rows columns) (hcells : cellsOf rows = read ++ rest)
    (hs : read.foldlM SlotScan.take .start = .ok s) (hm : slot ∈ s.slots.toList) :
    s.slots.completed rows.length columns r c = some (.char slot.name) ↔ slot.Covers r c := by
  rw [Slots.completed_eq_char_iff]
  constructor
  · rintro ⟨-, slot', hat, hname⟩
    obtain ⟨hm', hcovers⟩ := Slots.of_at? hat
    rwa [← List.inj_on_of_nodup_map (Scanned.of_foldlM hs).nodup_names hm' hm hname]
  · intro h
    obtain ⟨slot', hat⟩ := Slots.exists_at?_of_covers hm h
    obtain ⟨hm', hcovers⟩ := Slots.of_at? hat
    exact ⟨within_of_covers hrows hcells (Scanned.of_foldlM hs) hm h, slot', hat,
      congrArg Slot.name (eq_of_covers hcells hs hm' hm hcovers h)⟩

theorem isRectangular_completed (hrows : Uniform rows columns) (hcells : cellsOf rows = read ++ rest)
    (hs : read.foldlM SlotScan.take .start = .ok s) :
    IsRectangular rows.length columns (s.slots.completed rows.length columns) where
  isSome_iff r c := by
    unfold Slots.completed
    split_ifs with h <;> simp [h]
  rectangle := by
    have hempty : ∀ label, (∀ r c, s.slots.completed rows.length columns r c ≠ some label) →
        ∃ top bottom left right, ∀ r c, s.slots.completed rows.length columns r c = some label ↔
          (top ≤ r ∧ r ≤ bottom) ∧ left ≤ c ∧ c ≤ right := fun label hne =>
      ⟨1, 0, 0, 0, fun r c => ⟨fun h => absurd h (hne r c), fun h => by omega⟩⟩
    rintro (name | n)
    · by_cases hname : ∃ slot ∈ s.slots.toList, slot.name = name
      · obtain ⟨slot, hm, rfl⟩ := hname
        refine ⟨slot.row, slot.endRow, slot.column, slot.endColumn, fun r c => ?_⟩
        rw [completed_eq_name_iff hrows hcells hs hm]
        unfold Slot.Covers
        tauto
      · refine hempty _ fun r c h => hname ?_
        obtain ⟨-, slot, hat, hslot⟩ := Slots.completed_eq_char_iff.mp h
        exact ⟨slot, (Slots.of_at? hat).1, hslot⟩
    · -- the only cell that can have the label is the one that the number stands for
      have hplace : ∀ r c, s.slots.completed rows.length columns r c = some (.fresh n) →
          r = n.unpair.1 ∧ c = n.unpair.2 := by
        intro r c h
        rw [← (Slots.completed_eq_fresh_iff.mp h).2.2, Nat.unpair_pair]
        exact ⟨rfl, rfl⟩
      by_cases hn : s.slots.completed rows.length columns n.unpair.1 n.unpair.2 = some (.fresh n)
      · refine ⟨n.unpair.1, n.unpair.1, n.unpair.2, n.unpair.2, fun r c => ⟨fun h => ?_, fun h => ?_⟩⟩
        · obtain ⟨rfl, rfl⟩ := hplace r c h
          exact ⟨⟨le_rfl, le_rfl⟩, le_rfl, le_rfl⟩
        · rwa [le_antisymm h.1.2 h.1.1, le_antisymm h.2.2 h.2.1]
      · refine hempty _ fun r c h => hn ?_
        obtain ⟨hr, hc⟩ := hplace r c h
        rwa [← hr, ← hc]

/-- Cells that are read without an error can be completed. -/
theorem completable_of_foldlM (hrows : Uniform rows columns) (hcells : cellsOf rows = read ++ rest)
    (hs : read.foldlM SlotScan.take .start = .ok s) : Completable rows.length columns read := by
  refine ⟨_, isRectangular_completed hrows hcells hs, fun a ha => ?_⟩
  have hscan := Scanned.of_foldlM hs
  have hname : a.name ∈ s.slots.names := by
    rw [hscan.names_eq, Keyed.mem_distinct]
    exact List.mem_map_of_mem (f := Cell.name) ha
  obtain ⟨slot, hm, hslot⟩ := List.mem_map.mp hname
  have htook : slot.Took a.row a.column := (hscan.took_iff slot hm _ _).mpr (hslot ▸ ha)
  rw [← hslot]
  exact (completed_eq_name_iff hrows hcells hs hm).mpr (htook.covers (hscan.wellShaped slot hm))

/-- The characters of a completed grid. -/
def charAt (grid : Nat → Nat → Option Label) (r c : Nat) : Option Char :=
  (grid r c).bind fun
    | .char name => some name
    | .fresh _ => none

theorem charAt_eq_some_iff {grid : Nat → Nat → Option Label} {name : Char} :
    charAt grid r c = some name ↔ grid r c = some (.char name) := by
  unfold charAt
  constructor
  · intro h
    obtain ⟨label, hlabel, hname⟩ := Option.bind_eq_some_iff.mp h
    cases label with
    | char => rw [hlabel, Option.some.inj hname]
    | fresh => cases hname
  · intro h
    rw [h]
    rfl

/-- A cell up to which cells can be completed is read without an error. -/
theorem exists_take_of_completable {k : Cell} (hrows : Uniform rows columns) (hcells : cellsOf rows = read ++ k :: rest)
    (hs : read.foldlM SlotScan.take .start = .ok s) (h : Completable rows.length columns (read ++ [k])) :
    ∃ s', s.take k = .ok s' := by
  obtain ⟨grid, hgrid, hagree⟩ := h
  have hread : ∀ a ∈ read, grid a.row a.column = some (.char a.name) := fun a ha =>
    hagree a (List.mem_append_left [k] ha)
  have hnext : charAt grid k.row k.column = some k.name :=
    charAt_eq_some_iff.mpr (hagree k (List.mem_append_right read (List.mem_singleton_self k)))
  have hupTo : ReadUpTo (charAt grid) read k := by
    refine ⟨hnext, fun a => ?_⟩
    rw [charAt_eq_some_iff]
    constructor
    · intro ha
      exact ⟨hread a ha, ((mem_left_iff hcells a).mp ha).2⟩
    · rintro ⟨hlabel, hbefore⟩
      have hwithin := (hgrid.isSome_iff a.row a.column).mp (by rw [hlabel]; rfl)
      obtain ⟨name, hname⟩ := hrows.exists_mem_cellsOf hwithin.1 hwithin.2
      have hmem := (mem_left_iff hcells ⟨a.row, a.column, name⟩).mpr ⟨mem_cellsOf.mp hname, hbefore⟩
      have heq := (hread _ hmem).symm.trans hlabel
      cases a
      cases heq
      exact hmem
  refine (Scanned.of_foldlM hs).exists_take hupTo fun name => ?_
  obtain ⟨top, bottom, left, right, hrect⟩ := hgrid.rectangle (.char name)
  exact ⟨top, bottom, left, right, fun r c => charAt_eq_some_iff.trans (hrect r c)⟩

end Completed

/-! ## Errors -/

section Errors

variable {rows : List (List Char)} {columns : Nat} {read rest : List Cell} {s : SlotScan} {k : Cell} {slot : Slot}
  {e : TemplateError}

theorem Slot.eq_of_expand_eq_error {row column : Nat} (h : slot.expand row column = .error e) :
    e = .notRectangular slot.name row column ∨ e = .notAdjacent slot.name row column := by
  unfold Slot.expand at h
  split_ifs at h
  · exact .inl (Except.error.inj h).symm
  · exact .inr (Except.error.inj h).symm

theorem SlotScan.exists_of_checkLeft_eq_error {name : Char} (h : s.checkLeft name = .error e) :
    ∃ slot ∈ s.slots.toList, slot.name ≠ name ∧ slot.isClosed ≠ true ∧
      e = .notRectangular slot.name slot.lastRow slot.lastColumn := by
  unfold checkLeft at h
  split at h
  · rename_i left hleft
    split_ifs at h with hne
    cases hget : s.slots.get? left with
    | none =>
      rw [hget] at h
      cases h
    | some slot =>
      rw [hget, Option.elim_some, Slot.requireClosed] at h
      split_ifs at h with hopen
      obtain ⟨hm, rfl⟩ := Keyed.mem_of_get? _ hget
      exact ⟨slot, hm, hne, hopen, (Except.error.inj h).symm⟩
  · cases h

/-- A cell cannot be taken because of the open slot on its left, or because of the slot of its name. -/
theorem SlotScan.take_eq_error (h : s.take k = .error e) :
    s.checkLeft k.name = .error e ∨
      ∃ slot ∈ s.slots.toList, slot.name = k.name ∧ slot.expand k.row k.column = .error e := by
  unfold take at h
  rcases Checked.bind_eq_error.mp h with hleft | ⟨_, -, h⟩
  · exact .inl hleft
  · refine .inr ?_
    cases hget : s.slots.get? k.name with
    | none =>
      rw [hget] at h
      cases h
    | some slot =>
      rw [hget] at h
      obtain ⟨hm, hname⟩ := Keyed.mem_of_get? _ hget
      refine ⟨slot, hm, hname, ?_⟩
      simp only [Slots.expand] at h
      cases hexpand : slot.expand k.row k.column with
      | error e' =>
        simp only [hexpand] at h
        cases h
        rfl
      | ok slot' =>
        simp only [hexpand] at h
        cases h

/-- An error is about a cell that has been read, and its name forms no rectangle. -/
theorem exists_blamed (hcells : cellsOf rows = read ++ k :: rest) (hs : Scanned read s) (h : s.take k = .error e) :
    ∃ a ∈ read ++ [k], (e = .notRectangular a.name a.row a.column ∨ e = .notAdjacent a.name a.row a.column) ∧
      ¬ FormsRectangle (nameAt rows) a.name := by
  have hupTo := readUpTo_nameAt hcells
  rcases SlotScan.take_eq_error h with hleft | ⟨slot, hm, hname, hexpand⟩
  · obtain ⟨slot, hm, hne, hopen, he⟩ := SlotScan.exists_of_checkLeft_eq_error hleft
    have hlast := (hs.took_iff slot hm _ _).mp (hs.wellShaped slot hm).took_last
    refine ⟨⟨slot.lastRow, slot.lastColumn, slot.name⟩, List.mem_append_left [k] hlast, .inl he, fun hrect => ?_⟩
    exact hne (congrArg Cell.name (hs.next_of_open hupTo hm hrect hopen)).symm
  · refine ⟨k, List.mem_append_right read (List.mem_singleton_self k), ?_, fun hrect => ?_⟩
    · rw [← hname]
      exact Slot.eq_of_expand_eq_error hexpand
    · rw [← hname] at hrect
      obtain ⟨slot', hslot'⟩ := hs.exists_expand hupTo hm hname hrect
      cases hexpand.symm.trans hslot'

/-- No slot is open at the end of a grid of equally long rows: the rest of its row would not have been read. -/
theorem closed_of_foldlM_cellsOf (hrows : Uniform rows columns)
    (hs : (cellsOf rows).foldlM SlotScan.take .start = .ok s) (hm : slot ∈ s.slots.toList) : slot.isClosed = true := by
  by_contra hopen
  have hcells := (List.append_nil (cellsOf rows)).symm
  have hscan := Scanned.of_foldlM hs
  have hshape := hscan.wellShaped slot hm
  have hend : slot.lastColumn < slot.endColumn := by
    rw [hshape.isClosed_iff] at hopen
    have := hshape.took_last.le_endColumn hshape
    omega
  have hlast := within_of_covers hrows hcells hscan hm (hshape.took_last.covers hshape)
  have hcorner := within_of_covers hrows hcells hscan hm (hshape.took_corner.covers hshape)
  obtain ⟨name, hname⟩ := hrows.exists_mem_cellsOf hlast.1 hcorner.2
  exact not_read_of_open hcells hs hm hopen hend name hname

/-- The slots of a grid of equally long rows cannot be found because one of its cells cannot be taken. -/
theorem exists_of_ofRows_eq_error (hrows : Uniform rows columns) (h : Slots.ofRows rows = .error e) :
    ∃ read k rest s, cellsOf rows = read ++ k :: rest ∧ read.foldlM SlotScan.take .start = .ok s ∧
      s.take k = .error e := by
  unfold Slots.ofRows at h
  rcases Checked.bind_eq_error.mp h with hscan | ⟨s, hs, h⟩
  · exact Checked.exists_of_foldlM_eq_error hscan
  · rcases Checked.bind_eq_error.mp h with hclosed | ⟨_, -, h⟩
    · obtain ⟨slot, hm, hslot⟩ := Checked.exists_of_forM_eq_error hclosed
      rw [Slot.requireClosed_eq_ok.mpr (closed_of_foldlM_cellsOf hrows hs hm)] at hslot
      cases hslot
    · cases h

end Errors

namespace Template

variable {selector css : String} {rows : List Row} {widths : List Width} {e : TemplateError}

/-- The cells of rows that are filled up to the longest of them. -/
def paddedRows (rows : List Row) : List (List Char) := (rows.map (·.pad (columnsOf rows))).map Row.cells

theorem uniform_paddedRows (rows : List Row) : Uniform (paddedRows rows) (columnsOf rows) := by
  unfold Uniform paddedRows
  rw [List.forall_mem_map, List.forall_mem_map]
  exact fun r hr => Row.length_pad (length_le_columnsOf hr)

theorem length_paddedRows (rows : List Row) : (paddedRows rows).length = rows.length :=
  (List.length_map _).trans (List.length_map _)

theorem eq_empty_or_of_ofRows_eq_error (h : ofRows selector css rows widths = .error e) :
    e = .empty ∨ Slots.ofRows (paddedRows rows) = .error e := by
  unfold ofRows at h
  dsimp only at h
  split_ifs at h
  · exact .inl (Except.error.inj h).symm
  · rcases Checked.bind_eq_error.mp h with hslots | ⟨_, -, h⟩
    · exact .inr hslots
    · cases h

end Template

/-- Rows that are no template are so because of a cell of a name that forms no rectangle, unless they have no cells at
all. The scan fails as soon as it can be known: the cells in front of the one that it has come to can be completed to a
grid of rectangles, and with that one they cannot. -/
theorem error_at_first_hopeless_cell {selector css : String} {rows : List Row} {widths : List Width} {e : TemplateError}
    {name : Char} {row column : Nat} (h : Template.ofRows selector css rows widths = .error e)
    (he : e = .notAdjacent name row column ∨ e = .notRectangular name row column) :
    paddedName rows row column = some name ∧ ¬ FormsRectangle (paddedName rows) name ∧
      ∃ read k rest s, cellsOf (Template.paddedRows rows) = read ++ k :: rest ∧
        read.foldlM SlotScan.take .start = .ok s ∧ s.take k = .error e ∧
        Completable rows.length (Template.columnsOf rows) read ∧
        ¬ Completable rows.length (Template.columnsOf rows) (read ++ [k]) := by
  have hrows := Template.uniform_paddedRows rows
  have hofRows : Slots.ofRows (Template.paddedRows rows) = .error e := by
    rcases Template.eq_empty_or_of_ofRows_eq_error h with rfl | hofRows
    · rcases he with he | he <;> cases he
    · exact hofRows
  obtain ⟨read, k, rest, s, hcells, hs, htake⟩ := exists_of_ofRows_eq_error hrows hofRows
  obtain ⟨a, ha, hblame, hrect⟩ := exists_blamed hcells (Scanned.of_foldlM hs) htake
  obtain ⟨rfl, rfl, rfl⟩ : a.name = name ∧ a.row = row ∧ a.column = column := by
    rcases hblame with rfl | rfl <;> rcases he with he | he <;> cases he <;> exact ⟨rfl, rfl, rfl⟩
  have hmem : a ∈ cellsOf (Template.paddedRows rows) := by
    rw [hcells, List.append_cons]
    exact List.mem_append_left rest ha
  refine ⟨?_, ?_, read, k, rest, s, hcells, hs, htake, ?_, fun hcompletable => ?_⟩
  · rw [← Template.nameAt_pad]
    exact mem_cellsOf.mp hmem
  · rwa [← formsRectangle_congr (Template.nameAt_pad rows)]
  · rw [← Template.length_paddedRows]
    exact completable_of_foldlM hrows hcells hs
  · rw [← Template.length_paddedRows] at hcompletable
    obtain ⟨s', hs'⟩ := exists_take_of_completable hrows hcells hs hcompletable
    cases htake.symm.trans hs'

/-- The slot in the second row breaks off in front of the cell that the scan has come to, and is blamed for it. -/
theorem error_at_short_slot :
    Template.ofRows "body" "" [⟨['a', 'b', 'b', 'b'], .auto⟩, ⟨['c', 'b', 'b'], .equal⟩] [] =
      .error (.notRectangular 'b' 1 2) ∧
    ∃ read k rest s, cellsOf [['a', 'b', 'b', 'b'], ['c', 'b', 'b', '.']] = read ++ k :: rest ∧
      read.foldlM SlotScan.take .start = .ok s ∧ s.take k = .error (.notRectangular 'b' 1 2) ∧
      Completable 2 4 read ∧ ¬ Completable 2 4 (read ++ [k]) := by
  have h : Template.ofRows "body" "" [⟨['a', 'b', 'b', 'b'], .auto⟩, ⟨['c', 'b', 'b'], .equal⟩] [] =
      .error (.notRectangular 'b' 1 2) := by rfl
  exact ⟨h, (error_at_first_hopeless_cell h (.inr rfl)).2.2⟩

end SlotGrid
