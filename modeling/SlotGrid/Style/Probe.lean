/-! # Reading ahead

Whether some characters start a token is often known only after several of them are read. A probe remembers
what was read since the start of the token, so that it can be given back when another kind of token has to
be tried; it cannot give back more than that.
-/

namespace SlotGrid.Style

/-- The characters read since the start of a token, the last one first, and the characters that follow. -/
structure Probe where
  taken : List Char
  rest : List Char
  deriving DecidableEq, Repr

namespace Probe

/-- At the start of a token. -/
def start (cs : List Char) : Probe := ⟨[], cs⟩

/-- Reads one character, unless there is none. -/
def bump : Probe → Probe
  | ⟨taken, c :: cs⟩ => ⟨c :: taken, cs⟩
  | ⟨taken, []⟩ => ⟨taken, []⟩

/-- Gives back the last `n` characters. It fails if fewer have been read since the start of the token. -/
def giveBack? : Nat → Probe → Option Probe
  | 0, p => some p
  | n + 1, ⟨c :: taken, cs⟩ => giveBack? n ⟨taken, c :: cs⟩
  | _ + 1, ⟨[], _⟩ => none

/-- Reads characters of the given classes as long as they are there, and counts them. -/
def follow : List (Char → Bool) → Probe → Nat × Probe
  | [], p => (0, p)
  | _ :: _, ⟨taken, []⟩ => (0, ⟨taken, []⟩)
  | accepts :: more, ⟨taken, c :: cs⟩ =>
    if accepts c then
      let (n, q) := follow more (bump ⟨taken, c :: cs⟩)
      (n + 1, q)
    else (0, ⟨taken, c :: cs⟩)

theorem giveBack?_succ (n : Nat) (p : Probe) : p.giveBack? (n + 1) = (p.giveBack? n).bind (giveBack? 1) := by
  induction n generalizing p with
  | zero => rfl
  | succ n ih =>
    obtain ⟨taken, cs⟩ := p
    cases taken with
    | nil => rfl
    | cons c taken => exact ih ⟨taken, c :: cs⟩

/-- Giving back what was followed leads back to where it began. -/
theorem giveBack?_follow (es : List (Char → Bool)) (p : Probe) :
    (p.follow es).2.giveBack? (p.follow es).1 = some p := by
  fun_induction follow es p with
  | case1 => rfl
  | case2 => rfl
  | case3 accepts more taken c cs h n q hq ih =>
    rw [hq] at ih
    rw [giveBack?_succ, ih]
    rfl
  | case4 => rfl

/-- The characters before and after the place. -/
def text (p : Probe) : List Char := p.taken.reverse ++ p.rest

theorem text_follow (es : List (Char → Bool)) (p : Probe) : (p.follow es).2.text = p.text := by
  fun_induction follow es p with
  | case1 => rfl
  | case2 => rfl
  | case3 accepts more taken c cs h n q hq ih =>
    rw [hq] at ih
    rw [ih]
    simp [text, bump]
  | case4 => rfl

theorem length_follow (es : List (Char → Bool)) (p : Probe) :
    (p.follow es).2.taken.length = p.taken.length + (p.follow es).1 := by
  fun_induction follow es p with
  | case1 => rfl
  | case2 => rfl
  | case3 accepts more taken c cs h n q hq ih =>
    rw [hq] at ih
    rw [ih]
    simp only [bump, List.length_cons]
    omega
  | case4 => rfl

end Probe

end SlotGrid.Style
