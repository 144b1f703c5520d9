import SlotGrid.Proofs.Checked
import SlotGrid.Style.Lexer

/-! # The lexemes of a text

However often the next item of a text is asked for, the items read so far account for all characters before
the cursor: no character is lost or read twice, and every call before the end of the text moves on.
-/

namespace SlotGrid.Style

/-! ## Giving back -/

namespace Probe

/-- Giving back succeeds exactly if no more is given back than was read since the start of the token. -/
theorem isSome_giveBack?_iff (n : ℕ) (p : Probe) : (p.giveBack? n).isSome ↔ n ≤ p.taken.length := by
  fun_induction giveBack? n p with
  | case1 p => simp
  | case2 n c taken cs ih => rw [ih, List.length_cons, Nat.succ_le_succ_iff]
  | case3 n cs => simp

end Probe

namespace Form

/-- The attempts at the front of a text give back no more characters than they have read since the start of the
token, and one that fails ends where the token starts. -/
structure InTime (cs : List Char) : Prop where
  givenBack_le : ∀ f : Form,
    ((Probe.start cs).follow f.opening).1 ≤ ((Probe.start cs).follow f.opening).2.taken.length
  ends : ∀ fs : List Form, ∃ a, attemptAll? fs (.start cs) = some a ∧ ∀ p, a = .givenBack p → p = .start cs

theorem inTime (cs : List Char) : InTime cs := by
  constructor
  · intro f
    rw [← Probe.isSome_giveBack?_iff, Probe.giveBack?_follow]
    rfl
  · intro fs
    rcases attemptAll?_start fs cs with h | ⟨s, h, -⟩
    · refine ⟨_, h, fun p hp => ?_⟩
      injection hp with hp
      exact hp.symm
    · refine ⟨_, h, fun p hp => ?_⟩
      cases hp

end Form

/-! ## Calls -/

namespace Cursor

/-- The items that the first `n` calls read, and the cursor after them. At the end of the text a call reads
nothing. -/
def read : ℕ → Cursor → List Item × Cursor
  | 0, c => ([], c)
  | n + 1, c =>
    match c.next? with
    | none => ([], c)
    | some (i, d) => (i :: (d.read n).1, (d.read n).2)

/-- The items read before a cursor account for the text before it. -/
structure Accounted (c : Cursor) (text : List Char) (is : List Item) : Prop where
  lexemes : is.flatMap Item.lexeme ++ c.rest = text
  position : c.position = (is.flatMap Item.lexeme).length
  positions : ∀ before i after, is = before ++ i :: after →
    i.position = (before.flatMap Item.lexeme).length
  lexeme_ne_nil : ∀ i ∈ is, i.lexeme ≠ []

theorem accounted_start (text : String) : (start text).Accounted text.toList [] := by
  refine ⟨rfl, rfl, fun before i after h => ?_, fun i hi => absurd hi List.not_mem_nil⟩
  exact absurd h.symm (List.append_ne_nil_of_right_ne_nil before (List.cons_ne_nil i after))

/-- A call keeps the account. -/
theorem Accounted.next {text : List Char} {is : List Item} {c d : Cursor} {i : Item}
    (h : c.Accounted text is) (hn : c.next? = some (i, d)) : d.Accounted text (is ++ [i]) := by
  obtain ⟨hne, hrest, hposition, hafter⟩ := next?_splits hn
  constructor
  · rw [List.flatMap_append, List.flatMap_singleton, List.append_assoc, hrest]
    exact h.lexemes
  · rw [List.flatMap_append, List.flatMap_singleton, List.length_append, hafter, h.position]
  · intro before j after he
    rcases List.eq_nil_or_concat after with rfl | ⟨after, k, rfl⟩
    · obtain ⟨rfl, hij⟩ := List.append_inj' he rfl
      obtain rfl := List.singleton_inj.mp hij
      exact hposition.trans h.position
    · rw [List.concat_eq_append, ← List.cons_append, ← List.append_assoc] at he
      exact h.positions before j after (List.append_inj' he rfl).1
  · intro j hj
    rcases List.mem_append.mp hj with hj | hj
    · exact h.lexeme_ne_nil j hj
    · obtain rfl := List.mem_singleton.mp hj
      exact hne

theorem Accounted.read {text : List Char} {is : List Item} {c : Cursor} (h : c.Accounted text is) (n : ℕ) :
    (c.read n).2.Accounted text (is ++ (c.read n).1) := by
  induction n generalizing is c with
  | zero =>
    rw [Cursor.read, List.append_nil]
    exact h
  | succ n ih =>
    unfold Cursor.read
    cases hn : c.next? with
    | none =>
      rw [List.append_nil]
      exact h
    | some r =>
      have hd := ih (h.next hn)
      rwa [List.append_assoc] at hd

/-- The next call reads an item that starts at the cursor and leaves the cursor after its start, unless the text
is at its end. -/
def MovesOn (c : Cursor) : Prop :=
  (c.rest = [] ∧ c.next? = none) ∨
    ∃ i d, c.next? = some (i, d) ∧ i.position = c.position ∧ c.position < d.position

theorem movesOn (c : Cursor) : c.MovesOn := by
  cases hn : c.next? with
  | none =>
    refine .inl ⟨?_, hn⟩
    unfold next? at hn
    split at hn
    · assumption
    · cases hn
  | some r =>
    obtain ⟨i, d⟩ := r
    obtain ⟨hne, -, hposition, hafter⟩ := next?_splits hn
    have hlength := List.length_pos_iff.mpr hne
    exact .inr ⟨i, d, hn, hposition, by omega⟩

end Cursor

/-! ## Tokens of a text -/

theorem eq_map_token_of_tokens? {text : String} {ts : List Token} (h : tokens? text = .ok ts) :
    (Cursor.start text).items = ts.map .token := by
  unfold tokens? at h
  generalize (Cursor.start text).items = is at h
  induction is generalizing ts with
  | nil =>
    cases h
    rfl
  | cons i is ih =>
    rw [List.mapM_cons] at h
    obtain ⟨t, ht, h⟩ := Checked.bind_eq_ok.mp h
    obtain ⟨us, hus, h⟩ := Checked.bind_eq_ok.mp h
    cases h
    cases i with
    | token t' =>
      cases ht
      rw [List.map_cons, ← ih hus]
    | openAddress => cases ht

theorem lexemes_of_tokens? {text : String} {ts : List Token} (h : tokens? text = .ok ts) :
    ts.flatMap Token.lexeme = text.toList := by
  have hitems := (Cursor.start text).flatMap_lexeme_items
  rw [eq_map_token_of_tokens? h, List.flatMap_map] at hitems
  exact hitems

end SlotGrid.Style
