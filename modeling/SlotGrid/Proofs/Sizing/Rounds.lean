import SlotGrid.Proofs.Sizing.Columns

/-! # Rounds of widening

Columns are widened in rounds. A round is the last one if all columns are pinned or none has to be, and otherwise it
pins a column. So the rounds end without a limit, after one more than there are columns at most, and a limit that is
not smaller changes nothing. Nothing is asked of the arithmetic: it may round, and a comparison may be false both ways.
-/

namespace SlotGrid

namespace Widening

section

variable {α : Type} [Quantity α] {available : α} {n n' : ℕ} {cs : List (Column α)} {widths widths' : List α}

/-- The rounds that columns take if nothing limits their number, and the widths that they lead to. -/
inductive EndsAfter (available : α) : ℕ → List (Column α) → List α → Prop
  | full {cs : List (Column α)} (h : expandable cs = 0) : EndsAfter available 1 cs (cs.map Column.preferred)
  | shared {cs : List (Column α)} (h : expandable cs ≠ 0) (hwide : cs.any (isNarrow (share available cs)) = false) :
    EndsAfter available 1 cs (cs.map fun c => if c.pinned then c.preferred else share available cs)
  | pinned {n : ℕ} {cs : List (Column α)} {widths : List α} (h : expandable cs ≠ 0)
    (hnarrow : cs.any (isNarrow (share available cs)) = true)
    (hrest : EndsAfter available n (cs.map (pin (share available cs))) widths) : EndsAfter available (n + 1) cs widths

/-- With a limit the rounds lead to the same widths, if they are within it. -/
theorem rounds?_eq_some_iff {cap : ℕ} :
    rounds? available cap cs = some widths ↔ ∃ n ≤ cap, EndsAfter available n cs widths := by
  constructor
  · intro h
    induction cap generalizing cs with
    | zero => cases h
    | succ cap ih =>
      unfold rounds? at h
      dsimp only at h
      split_ifs at h with hfull hnarrow
      · cases h
        exact ⟨1, Nat.le_add_left 1 cap, .full hfull⟩
      · obtain ⟨n, hn, hrest⟩ := ih h
        exact ⟨n + 1, Nat.succ_le_succ hn, .pinned hfull hnarrow hrest⟩
      · cases h
        exact ⟨1, Nat.le_add_left 1 cap, .shared hfull (Bool.eq_false_iff.mpr hnarrow)⟩
  · rintro ⟨n, hn, h⟩
    induction h generalizing cap with
    | full hfull =>
      obtain ⟨cap, rfl⟩ := Nat.exists_eq_add_of_le' hn
      rw [rounds?, if_pos hfull]
    | shared hfull hwide =>
      obtain ⟨cap, rfl⟩ := Nat.exists_eq_add_of_le' hn
      rw [rounds?, if_neg hfull]
      exact if_neg (Bool.eq_false_iff.mp hwide)
    | pinned hfull hnarrow _ ih =>
      obtain ⟨cap, rfl⟩ := Nat.exists_eq_succ_of_ne_zero (Nat.ne_zero_of_lt hn)
      rw [rounds?, if_neg hfull]
      exact (if_pos hnarrow).trans (ih (Nat.le_of_succ_le_succ hn))

theorem EndsAfter.unique (h : EndsAfter available n cs widths) (h' : EndsAfter available n' cs widths') :
    n = n' ∧ widths = widths' := by
  induction h generalizing n' widths' with
  | full hfull =>
    cases h' with
    | full => exact ⟨rfl, rfl⟩
    | shared hfull' => exact absurd hfull hfull'
    | pinned hfull' => exact absurd hfull hfull'
  | shared hfull hwide =>
    cases h' with
    | full hfull' => exact absurd hfull' hfull
    | shared => exact ⟨rfl, rfl⟩
    | pinned _ hnarrow => exact absurd (hwide.symm.trans hnarrow) Bool.false_ne_true
  | pinned hfull hnarrow _ ih =>
    cases h' with
    | full hfull' => exact absurd hfull' hfull
    | shared _ hwide => exact absurd (hwide.symm.trans hnarrow) Bool.false_ne_true
    | pinned _ _ hrest =>
      obtain ⟨rfl, rfl⟩ := ih hrest
      exact ⟨rfl, rfl⟩

/-- The rounds end, and all but one of them pin a column that may still grow. -/
theorem exists_endsAfter (available : α) (cs : List (Column α)) :
    ∃ n ≤ expandable cs + 1, ∃ widths, EndsAfter available n cs widths := by
  obtain ⟨widths, h⟩ := exists_rounds available (Nat.lt_succ_self (expandable cs))
  obtain ⟨n, hn, hends⟩ := rounds?_eq_some_iff.mp h
  exact ⟨n, hn, widths, hends⟩

theorem EndsAfter.rounds?_eq (h : EndsAfter available n cs widths) (cap : ℕ) :
    rounds? available cap cs = if n ≤ cap then some widths else none := by
  split_ifs with hcap
  · exact rounds?_eq_some_iff.mpr ⟨n, hcap, h⟩
  · rw [Option.eq_none_iff_forall_ne_some]
    intro widths' hrounds
    obtain ⟨n', hn', h'⟩ := rounds?_eq_some_iff.mp hrounds
    exact hcap ((h.unique h').1 ▸ hn')

end

end Widening

namespace Grid

variable {ε α : Type} [Quantity α]

theorem fitColumns_ne_notConverged {available : α} {extents : List (Extent α)} (config : Config) (cap : ℕ) :
    fitColumns available (config.roundLimit extents.length) extents ≠ .error (.notConverged cap) := by
  obtain ⟨widths, h, -⟩ := exists_fitColumns available (lt_roundLimit config extents.length)
  rw [h]
  exact nofun

/-- The width pass may fail for lack of an element, but its rounds are never too many. -/
theorem sizeColumns_ne_notConverged (m : Measure ε α) (config : Config) (g : Grid ε α) (cap : ℕ) :
    g.sizeColumns m config ≠ .error (.notConverged cap) := by
  intro h
  unfold sizeColumns at h
  rcases Checked.bind_eq_error.mp h with hcontainer | ⟨container, -, h⟩
  · unfold elementOrError at hcontainer
    cases hg : g.element <;> simp [hg] at hcontainer
  rcases Checked.bind_eq_error.mp h with hslots | ⟨slots, -, h⟩
  · obtain ⟨s, -, hs⟩ := Checked.exists_of_mapM_eq_error hslots
    rw [GridSlot.measure_eq] at hs
    split_ifs at hs
    cases hs
  rcases Checked.bind_eq_error.mp h with hwidths | ⟨widths, -, h⟩
  · exact fitColumns_ne_notConverged config cap hwidths
  rcases Checked.bind_eq_error.mp h with hcolumns | ⟨_, -, h⟩
  · obtain ⟨s, -, hs⟩ := Checked.exists_of_forM_eq_error hcolumns
    unfold GridSlot.toSlot Slot.requireColumns Slot.requireWithin at hs
    split_ifs at hs
    cases hs
  · cases h

end Grid

/-- However quantities are added, divided and compared, columns are widened in no more rounds than there are columns
and one more. The limit of every setting is enough for them, and with it they come to the widths that they come to
without a limit, so that no grid fails for too many rounds. -/
theorem widening_ends_in_rounds (ε : Type) {α : Type} [Quantity α] :
    (∀ (preferred : List α) (available : α), ∃ n widths,
      Widening.EndsAfter available n (preferred.map (⟨·, false⟩)) widths ∧ n ≤ preferred.length + 1 ∧
      widths.length = preferred.length ∧
      (∀ cap, Widening.widen? preferred available cap = if n ≤ cap then some widths else none) ∧
      ∀ config : Config,
        Widening.widen? preferred available (config.roundLimit preferred.length) = some widths) ∧
    ∀ (m : Measure ε α) (config : Config) (g : Grid ε α) (cap : ℕ),
      g.sizeColumns m config ≠ .error (.notConverged cap) := by
  refine ⟨fun preferred available => ?_, Grid.sizeColumns_ne_notConverged⟩
  obtain ⟨n, hn, widths, hends⟩ := Widening.exists_endsAfter available (preferred.map (⟨·, false⟩))
  rw [Widening.expandable_unpinned] at hn
  have hwiden : ∀ cap, Widening.widen? preferred available cap = if n ≤ cap then some widths else none :=
    hends.rounds?_eq
  refine ⟨n, widths, hends, hn, ?_, hwiden, fun config => ?_⟩
  · exact (Widening.length_rounds (Widening.rounds?_eq_some_iff.mpr ⟨n, le_rfl, hends⟩)).trans (List.length_map _)
  · rw [hwiden, if_pos (hn.trans (Grid.lt_roundLimit config _))]

/-- Three columns that are pinned one after the other take the round that is left. -/
example : Widening.widen? [(0 : Exact), 4, 7] 12 3 = none ∧
    Widening.widen? [(0 : Exact), 4, 7] 12 4 = some [0, 4, 7] := by
  decide +kernel

end SlotGrid
