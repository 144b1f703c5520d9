import SlotGrid.Proofs.Session.Run
import SlotGrid.Proofs.Style.Numbers

/-! # Links and ids of a session

A session that has parsed any texts one after another has numbered their templates through. The numbers in its sheets
lead to the right templates, and the ids made of them are all different.
-/

namespace SlotGrid

/-! ## Ids -/

namespace Config

variable {c : Config} {i j : ℕ} {n m : Char}

theorem underscore_notMem_toString (n : ℕ) : '_' ∉ (toString n).toList := by
  rw [Nat.toString_eq_ofList_toDigits, String.toList_ofList]
  exact Nat.underscore_not_in_toDigits

/-- A number has no underscore, and something with an underscore follows it in the id of a slot. -/
theorem templateId_ne_slotId : c.templateId i ≠ slotId (c.templateId j) c.slotInfix n := by
  intro h
  have hlist := congrArg String.toList h
  simp only [templateId, slotId, String.toList_append, List.append_assoc, List.append_cancel_left_eq] at hlist
  apply underscore_notMem_toString (i + 1)
  rw [hlist]
  simp

/-- The ids of slots are equally long behind the numbers. -/
theorem slotId_inj : slotId (c.templateId i) c.slotInfix n = slotId (c.templateId j) c.slotInfix m ↔ i = j ∧ n = m := by
  constructor
  · intro h
    have hlist := congrArg String.toList h
    simp only [slotId, String.toList_append, List.append_assoc] at hlist
    obtain ⟨hid, hrest⟩ := List.append_inj' hlist (by simp)
    refine ⟨c.templateId_injective (String.toList_injective hid), ?_⟩
    simpa using hrest
  · rintro ⟨rfl, rfl⟩
    rfl

/-- A template in use under its number. -/
def grid (c : Config) (i : ℕ) (t : Template) : Grid ElementId Float :=
  (Grid.ofTemplate t).named (c.templateId i) c.slotInfix

end Config

/-- The ids of a grid and of its slots. -/
def Grid.ids {ε α : Type} (g : Grid ε α) : List String := g.id :: g.slots.map GridSlot.id

namespace Config

variable {c : Config} {i j : ℕ} {t t' : Template} {x : String}

theorem ids_grid (c : Config) (i : ℕ) (t : Template) :
    (c.grid i t).ids = c.templateId i :: t.slots.names.map (slotId (c.templateId i) c.slotInfix) := by
  simp [Grid.ids, grid, Grid.named, Grid.ofTemplate, Slots.names, Function.comp_def]

theorem nodup_ids_grid (h : t.Built) : (c.grid i t).ids.Nodup := by
  obtain ⟨_, _, _, _, ht⟩ := h
  rw [ids_grid, List.nodup_cons]
  constructor
  · intro hmem
    obtain ⟨n, -, hn⟩ := List.mem_map.mp hmem
    exact templateId_ne_slotId hn.symm
  · refine (Template.partitioned_of_ofRows ht).nodup_names.map ?_
    intro n m h
    exact (slotId_inj.mp h).2

/-- An id belongs to the template of one number. -/
theorem eq_of_mem_ids (h : x ∈ (c.grid i t).ids) (h' : x ∈ (c.grid j t').ids) : i = j := by
  rw [ids_grid, List.mem_cons, List.mem_map] at h h'
  rcases h with rfl | ⟨n, -, rfl⟩ <;> rcases h' with h' | ⟨m, -, h'⟩
  · exact c.templateId_injective h'
  · exact absurd h'.symm templateId_ne_slotId
  · exact absurd h'.symm templateId_ne_slotId
  · exact (slotId_inj.mp h').1.symm

end Config

namespace Session

open Style

/-- Parses texts one after another. -/
def parseAll (s : Session) : List String → List Sheet × Session
  | [] => ([], s)
  | text :: texts =>
    let (sheet, s) := s.parse text
    let (sheets, s) := s.parseAll texts
    (sheet :: sheets, s)

theorem grids_foldl_register (s : Session) (ts : List Template) :
    (ts.foldl register s).grids = s.grids ++ ts.mapIdx fun i t => s.config.grid (s.grids.length + i) t := by
  induction ts generalizing s with
  | nil => simp
  | cons t ts ih =>
    rw [List.foldl_cons, ih]
    simp [register, Config.grid, List.mapIdx_cons, Nat.add_assoc, Nat.add_comm 1]

theorem config_parse (s : Session) (text : String) : (s.parse text).2.config = s.config := config_foldl_register s _

theorem grids_parse (s : Session) (text : String) :
    (s.parse text).2.grids = s.grids ++
      (Style.parse s.grids.length text).templates.mapIdx fun i t => s.config.grid (s.grids.length + i) t :=
  grids_foldl_register s _

/-- The sheets that a session has parsed carry numbers of its grids, which are templates under their numbers. -/
structure Linked (sheets : List Sheet) (s : Session) : Prop where
  links : ∀ sheet ∈ sheets, ∀ r ∈ sheet.rules, ∀ d ∈ r.declarations.toList, ∀ i, d.template = some i →
    d.property = "display" ∧ ∃ g, s.grids[i]? = some g ∧ g.selector = r.selector ∧ g.css = d.value
  nodup : (sheets.flatMap fun sheet => sheet.rules.flatMap Rule.numbers).Nodup
  grids : ∀ i g, s.grids[i]? = some g → ∃ t : Template, t.Built ∧ g = s.config.grid i t

namespace Linked

variable {sheets : List Sheet} {s : Session}

theorem lt (h : s.Linked sheets) {i : ℕ} (hi : i ∈ sheets.flatMap fun sheet => sheet.rules.flatMap Rule.numbers) :
    i < s.grids.length := by
  obtain ⟨sheet, hsheet, hi⟩ := List.mem_flatMap.mp hi
  obtain ⟨r, hr, hi⟩ := List.mem_flatMap.mp hi
  obtain ⟨d, hd, hi⟩ := Progress.mem_numbers.mp hi
  obtain ⟨-, g, hg, -⟩ := h.links sheet hsheet r hr d hd i hi
  exact (List.getElem?_eq_some_iff.mp hg).1

/-- Another text is numbered where the session has come to. -/
theorem parse (h : s.Linked sheets) (text : String) : (s.parse text).2.Linked (sheets ++ [(s.parse text).1]) := by
  obtain ⟨hlinks, hnodup⟩ := linked_parse s.grids.length text
  have hgrids := grids_parse s text
  constructor
  · rw [List.forall_mem_append, List.forall_mem_singleton]
    constructor
    · intro sheet hsheet r hr d hd i hi
      obtain ⟨hproperty, g, hg, hg'⟩ := h.links sheet hsheet r hr d hd i hi
      refine ⟨hproperty, g, ?_, hg'⟩
      rw [hgrids, List.getElem?_append_left (List.getElem?_eq_some_iff.mp hg).1]
      exact hg
    · intro r hr d hd i hi
      obtain ⟨hproperty, k, t, rfl, ht, hselector, hcss⟩ := hlinks r hr d hd i hi
      refine ⟨hproperty, s.config.grid (s.grids.length + k) t, ?_, hselector, hcss⟩
      rw [hgrids, List.getElem?_append_right (Nat.le_add_right _ _)]
      simp [ht]
  · rw [List.flatMap_append, List.flatMap_singleton, List.nodup_append]
    refine ⟨h.nodup, hnodup, ?_⟩
    rintro i hi _ hi' rfl
    have hlt := h.lt hi
    obtain ⟨r, hr, hi'⟩ := List.mem_flatMap.mp hi'
    obtain ⟨d, hd, hi'⟩ := Progress.mem_numbers.mp hi'
    obtain ⟨-, k, -, rfl, -⟩ := hlinks r hr d hd i hi'
    omega
  · intro i g hg
    rw [config_parse]
    rw [hgrids, List.getElem?_append] at hg
    split_ifs at hg with hlt
    · exact h.grids i g hg
    · rw [List.getElem?_mapIdx, Option.map_eq_some_iff] at hg
      obtain ⟨t, ht, rfl⟩ := hg
      refine ⟨t, built_of_mem_parse (List.mem_of_getElem? ht), ?_⟩
      congr 1
      omega

theorem parseAll (h : s.Linked sheets) (texts : List String) :
    (s.parseAll texts).2.Linked (sheets ++ (s.parseAll texts).1) ∧ (s.parseAll texts).2.config = s.config := by
  induction texts generalizing s sheets with
  | nil => exact ⟨(List.append_nil sheets).symm ▸ h, rfl⟩
  | cons text texts ih =>
    obtain ⟨hlinked, hconfig⟩ := ih (h.parse text)
    rw [List.append_assoc] at hlinked
    exact ⟨hlinked, hconfig.trans (config_parse s text)⟩

theorem nodup_ids (h : s.Linked sheets) : (s.grids.flatMap Grid.ids).Nodup := by
  rw [List.nodup_flatMap]
  constructor
  · intro g hg
    obtain ⟨i, hi⟩ := List.mem_iff_getElem?.mp hg
    obtain ⟨t, ht, rfl⟩ := h.grids i g hi
    exact Config.nodup_ids_grid ht
  · rw [List.pairwise_iff_getElem]
    intro i j hi hj hlt x hx hx'
    obtain ⟨t, -, ht⟩ := h.grids i _ (List.getElem?_eq_getElem hi)
    obtain ⟨t', -, ht'⟩ := h.grids j _ (List.getElem?_eq_getElem hj)
    rw [ht] at hx
    rw [ht'] at hx'
    exact hlt.ne (Config.eq_of_mem_ids hx hx')

end Linked

/-- Whatever texts a new session parses, a number that a declaration carries is that of a template with its value and
the selector of its rule, and no other declaration carries it. The ids of templates are made of their numbers, those of
slots of the ids of templates and the names of the slots, and no two of all these are the same. -/
theorem numbers_and_ids_of_parseAll (config : Config) (texts : List String) :
    let sheets := ((new config).parseAll texts).1
    let s := ((new config).parseAll texts).2
    (∀ sheet ∈ sheets, ∀ r ∈ sheet.rules, ∀ d ∈ r.declarations.toList, ∀ i, d.template = some i →
      d.property = "display" ∧ ∃ g, s.grids[i]? = some g ∧ g.selector = r.selector ∧ g.css = d.value) ∧
    (sheets.flatMap fun sheet => sheet.rules.flatMap Rule.numbers).Nodup ∧
    (∀ i g, s.grids[i]? = some g → g.id = config.templatePrefix ++ toString (i + 1) ∧
      ∀ x ∈ g.slots, x.id = g.id ++ "_" ++ config.slotInfix ++ "_" ++ x.name.toString) ∧
    (s.grids.flatMap Grid.ids).Nodup := by
  intro sheets s
  have hnew : (new config).Linked [] := ⟨nofun, List.nodup_nil, nofun⟩
  obtain ⟨hlinked, hconfig⟩ := hnew.parseAll texts
  refine ⟨hlinked.links, hlinked.nodup, ?_, hlinked.nodup_ids⟩
  intro i g hg
  obtain ⟨t, -, rfl⟩ := hlinked.grids i g hg
  rw [hconfig]
  constructor
  · rfl
  · intro x hx
    obtain ⟨y, -, rfl⟩ := List.mem_map.mp hx
    rfl

end Session

end SlotGrid
