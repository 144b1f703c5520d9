import SlotGrid.Proofs.Style.Spelling

/-! # What stands behind a token

A token is known only with a look at what stands behind it. It is still the same token if the text ends there, or if
a plain space stands there instead of other spaces or of a comment: whatever a token could go on with in the new text,
it could go on with in the old one.
-/

namespace SlotGrid.Style

/-- A reader of characters of a class and of escapes. -/
structure PieceReader.Accepts (r : PieceReader) (p : Char → Bool) : Prop where
  nil : r.read [] = none
  escape : ∀ cs, r.read ('\\' :: cs) = escapeAfter cs
  literal : ∀ c cs, c ≠ '\\' → r.read (c :: cs) = if p c then some (.literal c, cs) else none

theorem accepts_nameReader : nameReader.Accepts isNameChar :=
  ⟨rfl, fun _ => rfl, fun c cs hc => by simp [nameReader, namePiece?]⟩

theorem accepts_addressReader : addressReader.Accepts isUrlChar :=
  ⟨rfl, fun _ => rfl, fun c cs hc => by simp [addressReader, addressPiece?]⟩

/-! ## Texts that are cut short -/

/-- The second text is the first one up to a place where it ends, or has a plain space instead of a blank or of the
start of a comment. Where this place is behind a backslash, it makes no escape that was none before. -/
inductive Cut : List Char → List Char → Prop
  | done (s : List Char) : Cut s []
  | gap {a : Char} (h : isSpace a ∨ a = '/') (s t : List Char) : Cut (a :: s) (' ' :: t)
  | cons {c : Char} {s t : List Char} (h : Cut s t) (hc : startsEscape (c :: t) → startsEscape (c :: s)) :
    Cut (c :: s) (c :: t)

namespace Cut

variable {s t : List Char} {p : Char → Bool}

theorem of_cons {c : Char} (h : Cut s (c :: t)) (hc : c ≠ ' ') : ∃ s', s = c :: s' ∧ Cut s' t := by
  cases h with
  | gap => exact absurd rfl hc
  | cons h => exact ⟨_, rfl, h⟩

/-- Where the old text does not go on with a class, the new one does not. -/
theorem stops (h : Cut s t) (hp : p ' ' = false) (hs : ∀ c ∈ s.head?, p c = false) : ∀ c ∈ t.head?, p c = false := by
  cases h with
  | done => nofun
  | gap => simpa using hp
  | cons => exact hs

theorem startsEscape_of (h : Cut s t) (ht : startsEscape t) : startsEscape s := by
  cases h with
  | done => cases ht
  | gap => cases ht
  | cons h hc => exact hc ht

theorem startsIdent_of (h : Cut s t) (ht : startsIdent t) : startsIdent s := by
  fun_cases startsIdent t with
  | case1 cs =>
    obtain ⟨s, rfl, hrest⟩ := h.of_cons (by decide)
    have hs : startsEscape s := hrest.startsEscape_of ht
    obtain ⟨s, rfl, -⟩ := hrest.of_cons (by decide)
    exact hs
  | case2 c cs hc =>
    obtain ⟨s, rfl, hrest⟩ := h.of_cons (by decide)
    have hstart : isNameStart c := by simpa [startsIdent] using ht
    obtain ⟨s, rfl, -⟩ := hrest.of_cons fun hspace => by simp [hspace, isNameStart, isForeign] at hstart
    simpa [startsIdent] using ht
  | case3 cs =>
    have hs := h.startsEscape_of ht
    obtain ⟨s, rfl, -⟩ := h.of_cons (by decide)
    exact hs
  | case4 c cs hescape hdash hstroke =>
    have hstart : isNameStart c := by simpa [startsIdent] using ht
    obtain ⟨s, rfl, -⟩ := h.of_cons fun hspace => by simp [hspace, isNameStart, isForeign] at hstart
    have hc : c ≠ '-' := by
      rintro rfl
      cases hstart
    simpa [startsIdent, hc] using hstart
  | case5 => cases ht

/-- What the old text does not go on with, the new one does not, be it a character or an escape. -/
theorem read_eq_none {r : PieceReader} (hr : r.Accepts p) (hp : p ' ' = false) (h : Cut s t) (hs : r.read s = none) :
    r.read t = none := by
  cases h with
  | done => exact hr.nil
  | gap => rw [hr.literal _ _ (by decide), hp, if_neg Bool.false_ne_true]
  | @cons c s t h hc =>
    by_cases hstroke : c = '\\'
    · subst hstroke
      rw [hr.escape] at hs ⊢
      by_contra hne
      obtain ⟨p, hp⟩ := Option.ne_none_iff_exists'.mp hne
      obtain ⟨p', rest, hs'⟩ := startsEscape_iff.mp (hc (startsEscape_iff.mpr ⟨_, _, hp⟩))
      rw [hs] at hs'
      cases hs'
    · rw [hr.literal c _ hstroke] at hs ⊢
      split_ifs at hs ⊢
      rfl

end Cut

/-- A text ends with the digits of an escape, and a space behind it would belong to the escape. -/
def EndsInDigits (x : List Char) : Prop :=
  ∃ ds, ds ≠ [] ∧ ds.length ≤ 6 ∧ (∀ d ∈ ds, isHexDigit d = true) ∧ '\\' :: ds <:+ x

/-- The characters of a token end in the same way in front of `t` as in front of `s`: a plain space takes no part in
an escape that ends with them. -/
structure Behind (x s t : List Char) : Prop where
  cut : Cut s t
  unescaped : t.head? = some ' ' → s.head? = some '/' → ¬ EndsInDigits x
  unstruck : t.head? = some ' ' → x.getLast? = some '\\' → ∀ a ∈ s.head?, isLineBreak a = false

namespace Behind

variable {x y s t : List Char}

theorem nil (x s : List Char) : Behind x s [] := ⟨.done s, nofun, nofun⟩

theorem of_append (h : Behind (x ++ y) s t) : Behind y s t := by
  constructor
  · exact h.cut
  · rintro ht hs ⟨ds, hne, hlength, hdigits, hsuffix⟩
    exact h.unescaped ht hs ⟨ds, hne, hlength, hdigits, hsuffix.trans (List.suffix_append x y)⟩
  · intro ht hy
    refine h.unstruck ht ?_
    rw [List.getLast?_append, hy]
    rfl

theorem cut_append (h : Behind x s t) : Cut (x ++ s) (x ++ t) := by
  induction x with
  | nil => exact h.cut
  | cons c x ih =>
    refine .cons (ih (h.of_append (x := [c]))) ?_
    by_cases hc : c = '\\'
    · subst hc
      cases x with
      | nil =>
        cases hcut : h.cut with
        | done => nofun
        | @gap a ha s t =>
          have hbreak := h.unstruck rfl rfl a rfl
          simp [startsEscape, hbreak]
        | cons => exact id
      | cons d x => exact id
    · simp [startsEscape, hc]

theorem prepend (h : Behind (x ++ y) s t) : Behind x (y ++ s) (y ++ t) := by
  cases y with
  | nil => rwa [List.append_nil] at h
  | cons c y =>
    constructor
    · exact h.of_append.cut_append
    · intro ht hs
      simp_all
    · intro ht hy a ha
      simp_all
      subst_vars
      rfl

end Behind

/-! ## Pieces -/

section Classes

variable {p : Char → Bool} {x s t : List Char}

theorem takeWhile_replace (h : Cut s t) (hp : p ' ' = false) (hx : (x ++ s).takeWhile p = x) :
    (x ++ t).takeWhile p = x := by
  have hall : ∀ c ∈ x, p c = true := fun c hc => List.mem_takeWhile_imp (hx.symm ▸ hc)
  rw [List.takeWhile_append_of_pos hall] at hx ⊢
  have hs : s.takeWhile p = [] := by simpa using hx
  have ht : t.takeWhile p = [] := by
    have hstop := h.stops hp (by cases s <;> simp_all [List.takeWhile_cons])
    cases t <;> simp_all
  rw [ht, List.append_nil]

/-- What is taken of a class ends where the class does. -/
theorem takeWhile_dropWhile_append (hx : ∀ c ∈ x, p c = true) (hs : ∀ c ∈ s.head?, p c = false) :
    (x ++ s).takeWhile p = x ∧ (x ++ s).dropWhile p = s := by
  rw [List.takeWhile_append_of_pos hx, List.dropWhile_append_of_pos hx]
  cases s <;> simp_all

theorem head?_dropWhile_eq_false (s : List Char) : ∀ c ∈ (s.dropWhile p).head?, p c = false := by
  intro c hc
  have hhead := List.head?_dropWhile_not p s
  rwa [Option.mem_def.mp hc] at hhead

theorem length_takeUpTo_le (p : Char → Bool) (n : ℕ) (s : List Char) : (takeUpTo p n s).length ≤ n := by
  fun_induction takeUpTo p n s with
  | case1 n c s hc ih =>
    simp only [List.length_cons]
    omega
  | case2 => exact Nat.zero_le _
  | case3 => exact Nat.zero_le _

theorem forall_mem_takeUpTo (p : Char → Bool) (n : ℕ) (s : List Char) : ∀ c ∈ takeUpTo p n s, p c = true := by
  fun_induction takeUpTo p n s with
  | case1 n c s hc ih => exact List.forall_mem_cons.mpr ⟨hc, ih⟩
  | case2 => nofun
  | case3 => nofun

theorem takeUpTo_replace (h : Cut s t) (hp : p ' ' = false) {n : ℕ} (hx : takeUpTo p n (x ++ s) = x) :
    takeUpTo p n (x ++ t) = x := by
  induction x generalizing n with
  | nil =>
    cases n with
    | zero => rfl
    | succ n =>
      have hstop := h.stops hp (by cases s <;> simp_all [takeUpTo])
      cases t <;> simp_all [takeUpTo]
  | cons c x ih =>
    cases n with
    | zero => cases hx
    | succ n =>
      simp only [List.cons_append, takeUpTo] at hx ⊢
      split_ifs at hx ⊢ with hc
      rw [ih (List.cons.inj hx).2]

end Classes

theorem digitsEnd_eq_nil {s : List Char} : digitsEnd s = [] ↔ ∀ c ∈ s.head?, isSpace c = false := by
  rcases s with _ | ⟨c, s⟩
  · simp [digitsEnd]
  · unfold digitsEnd
    split
    · simp_all [isSpace]
    · simp_all [isSpace]
    · simp_all
    · simp_all

theorem digitsEnd_eq_singleton {c : Char} {s : List Char} :
    digitsEnd (c :: s) = [c] ↔ isSpace c ∧ (c = '\r' → ∀ d ∈ s.head?, (d == '\n' || d == '\x0c') = false) := by
  rcases s with _ | ⟨d, s⟩
  · simp [digitsEnd]
  · by_cases hc : c = '\r'
    · subst hc
      by_cases hd : d = '\n'
      · simp [hd, digitsEnd]
      · by_cases hd' : d = '\x0c'
        · simp [hd', digitsEnd]
        · simp [digitsEnd, hd, hd']
    · simp [digitsEnd, hc]

theorem digitsEnd_replace {x s t : List Char} (h : Cut s t)
    (hslash : x = [] → t.head? = some ' ' → s.head? ≠ some '/')
    (hx : digitsEnd (x ++ s) = x) : digitsEnd (x ++ t) = x := by
  rcases x with _ | ⟨c, _ | ⟨d, x⟩⟩
  · simp only [List.nil_append, digitsEnd_eq_nil] at hx ⊢
    cases h with
    | done => nofun
    | @gap a ha s t =>
      have ha : isSpace a := ha.resolve_right fun ha => hslash rfl rfl (congrArg some ha)
      simp [ha] at hx
    | cons => exact hx
  · simp only [List.cons_append, List.nil_append, digitsEnd_eq_singleton] at hx ⊢
    exact ⟨hx.1, fun hc => h.stops (by decide) (hx.2 hc)⟩
  · rw [List.cons_append, List.cons_append] at hx ⊢
    rw [digitsEnd_cons_cons c d _ (x ++ s), hx]

theorem isLineBreak_of_takeUpTo {c : Char} {n : ℕ} {x s : List Char} (h : takeUpTo isHexDigit n s = c :: x) :
    isLineBreak c = false := by
  have hc : isHexDigit c := forall_mem_takeUpTo isHexDigit n s c (h ▸ List.mem_cons_self)
  by_contra hbreak
  simp only [isLineBreak, Bool.not_eq_false, Bool.or_eq_true, beq_iff_eq] at hbreak
  rcases hbreak with (rfl | rfl) | rfl <;> cases hc

/-- An escape is a character behind the backslash, or digits and what ends them. -/
theorem escapeAfter_eq_some {x s : List Char} {p : Piece} :
    escapeAfter (x ++ s) = some (p, s) ↔
      (∃ c, x = [c] ∧ isLineBreak c = false ∧ takeUpTo isHexDigit 6 (c :: s) = [] ∧ p = ⟨['\\', c], [c]⟩) ∨
        ∃ digits closing, x = digits ++ closing ∧ digits ≠ [] ∧ takeUpTo isHexDigit 6 (x ++ s) = digits ∧
          digitsEnd (closing ++ s) = closing ∧ p = ⟨'\\' :: x, [decodeCode (hexNumber digits)]⟩ := by
  constructor
  · intro h
    cases hcs : x ++ s with
    | nil =>
      rw [hcs] at h
      cases h
    | cons c cs =>
      rw [hcs] at h
      unfold escapeAfter at h
      dsimp only at h
      split_ifs at h with hbreak hnone
      · cases h
        obtain rfl : x = [c] := List.append_cancel_right hcs
        exact .inl ⟨c, rfl, by simpa using hbreak, by simpa using hnone, rfl⟩
      · obtain ⟨rfl, hs⟩ := Prod.mk.inj (Option.some.inj h)
        have hdigits := takeUpTo_append_drop isHexDigit 6 (c :: cs)
        have hclosing := digitsEnd_append_drop ((c :: cs).drop (takeUpTo isHexDigit 6 (c :: cs)).length)
        rw [hs] at hclosing
        have hx := hdigits.trans hcs.symm
        rw [← hclosing, ← List.append_assoc] at hx
        have hx := List.append_cancel_right hx
        refine .inr ⟨_, _, hx.symm, by simpa using hnone, rfl, ?_, by rw [hx]⟩
        rw [hclosing]
  · rintro (⟨c, rfl, hbreak, hdigits, rfl⟩ | ⟨digits, closing, rfl, hne, hdigits, hclosing, rfl⟩)
    · simp [escapeAfter, hbreak, hdigits]
    · obtain ⟨c, digits, rfl⟩ := List.exists_cons_of_ne_nil hne
      have hbreak : isLineBreak c = false := isLineBreak_of_takeUpTo hdigits
      simp only [List.cons_append] at hdigits ⊢
      simp only [escapeAfter, hbreak, hdigits]
      simp [hclosing]

theorem escapeAfter_replace {x s t : List Char} {p : Piece} (h : Behind ('\\' :: x) s t)
    (hx : escapeAfter (x ++ s) = some (p, s)) : escapeAfter (x ++ t) = some (p, t) := by
  rw [escapeAfter_eq_some] at hx ⊢
  rcases hx with ⟨c, rfl, hbreak, hdigits, rfl⟩ | ⟨digits, closing, rfl, hne, hdigits, hclosing, rfl⟩
  · refine .inl ⟨c, rfl, hbreak, ?_, rfl⟩
    simpa [takeUpTo] using hdigits
  · refine .inr ⟨digits, closing, rfl, hne, ?_, ?_, rfl⟩
    · rw [List.append_assoc] at hdigits ⊢
      exact takeUpTo_replace (h.of_append (x := '\\' :: digits)).cut_append (by decide) hdigits
    · refine digitsEnd_replace h.cut ?_ hclosing
      rintro rfl ht hs
      rw [List.append_nil] at h hdigits
      refine h.unescaped ht hs ⟨digits, hne, ?_, ?_, List.suffix_rfl⟩
      · exact hdigits ▸ length_takeUpTo_le isHexDigit 6 _
      · exact hdigits ▸ fun d => forall_mem_takeUpTo isHexDigit 6 _ d

theorem quotedPiece?_return (quote : Char) (cs : List Char) :
    quotedPiece? quote ('\\' :: '\r' :: cs) =
      if cs.head? = some '\n' then some (⟨['\\', '\r', '\n'], []⟩, cs.tail) else some (⟨['\\', '\r'], []⟩, cs) := by
  rcases cs with _ | ⟨c, cs⟩
  · rfl
  · by_cases hc : c = '\n'
    · subst hc
      rfl
    · simp [quotedPiece?, hc, isLineBreak]

/-- Only at the end of the text is a backslash a piece by itself. -/
theorem quotedPiece?_stroke {quote : Char} {p : Piece} {s : List Char}
    (h : quotedPiece? quote ('\\' :: s) = some (p, s)) : s = [] := by
  rcases s with _ | ⟨c, s⟩
  · rfl
  · by_cases hc : c = '\r'
    · subst hc
      rw [quotedPiece?_return] at h
      split_ifs at h
      all_goals
        have hlength := congrArg List.length (Prod.mk.inj (Option.some.inj h)).2
        simp at hlength
    · rw [quotedPiece?_escape quote hc] at h
      split_ifs at h
      · simp at h
      · rcases (escapeAfter_eq_some (x := [])).mp h with ⟨d, hd, -⟩ | ⟨digits, closing, hd, hne, -⟩
        · cases hd
        · exact absurd (List.append_eq_nil_iff.mp hd.symm).1 hne

namespace PieceReader

variable {r : PieceReader} {x s t : List Char} {p : Piece} {ps : List Piece}

/-- A piece stays the same whatever it is cut from. -/
def Settled (r : PieceReader) : Prop :=
  ∀ {x s t : List Char} {p : Piece}, r.read (x ++ s) = some (p, s) → Behind x s t → r.read (x ++ t) = some (p, t)

theorem raw_of_read (h : r.read (x ++ s) = some (p, s)) : x = p.raw := List.append_cancel_right (r.read_sound h).2

theorem Accepts.settled {class? : Char → Bool} (hr : r.Accepts class?) : r.Settled := by
  intro x s t p h hbehind
  obtain ⟨c, x, rfl⟩ := List.exists_cons_of_ne_nil (raw_of_read h ▸ (r.read_sound h).1)
  rw [List.cons_append] at h ⊢
  by_cases hc : c = '\\'
  · subst hc
    rw [hr.escape] at h ⊢
    exact escapeAfter_replace hbehind h
  · rw [hr.literal c _ hc] at h ⊢
    split_ifs at h ⊢
    obtain ⟨rfl, hx⟩ := Prod.mk.inj (Option.some.inj h)
    obtain rfl : x = [] := List.append_left_eq_self.mp hx
    rfl

theorem settled_quotedReader (quote : Char) : (quotedReader quote).Settled := by
  intro x s t p h hbehind
  obtain ⟨c, x, rfl⟩ := List.exists_cons_of_ne_nil (raw_of_read h ▸ (read_sound _ h).1)
  change quotedPiece? quote (c :: (x ++ s)) = _ at h
  change quotedPiece? quote (c :: (x ++ t)) = _
  by_cases hc : c = '\\'
  · subst hc
    rcases x with _ | ⟨d, x⟩
    · -- the backslash is the last character
      obtain rfl : s = [] := quotedPiece?_stroke h
      cases hbehind.cut
      exact h
    · rw [List.cons_append] at h ⊢
      by_cases hd : d = '\r'
      · subst hd
        rw [quotedPiece?_return] at h ⊢
        split_ifs at h with hfeed
        · obtain ⟨rfl, hx⟩ := Prod.mk.inj (Option.some.inj h)
          cases x with
          | nil =>
            have hlength := congrArg List.length hx
            cases s <;> simp at hfeed hlength
          | cons e x =>
            obtain rfl : x = [] := List.append_left_eq_self.mp hx
            rw [if_pos (by exact hfeed)]
            rfl
        · obtain ⟨rfl, hx⟩ := Prod.mk.inj (Option.some.inj h)
          obtain rfl : x = [] := List.append_left_eq_self.mp hx
          have hstop := hbehind.cut.stops (p := (· == '\n')) rfl (by cases s <;> simp_all)
          rw [if_neg (by cases t <;> simp_all)]
          rfl
      · rw [quotedPiece?_escape quote hd] at h ⊢
        split_ifs at h ⊢
        · obtain ⟨rfl, hx⟩ := Prod.mk.inj (Option.some.inj h)
          obtain rfl : x = [] := List.append_left_eq_self.mp hx
          rfl
        · exact escapeAfter_replace hbehind h
  · rw [quotedPiece?_literal quote hc] at h ⊢
    split_ifs at h ⊢
    obtain ⟨rfl, hx⟩ := Prod.mk.inj (Option.some.inj h)
    obtain rfl : x = [] := List.append_left_eq_self.mp hx
    rfl

theorem run_of_none (h : r.read s = none) : r.run s = ([], s) := by
  rw [run]
  split
  · rfl
  · simp_all

theorem run_of_some (h : r.read s = some (p, t)) : r.run s = (p :: (r.run t).1, (r.run t).2) := by
  rw [run]
  split
  · simp_all
  · rename_i h'
    rw [h] at h'
    cases h'
    rfl

/-- A run of pieces stays the same if nothing goes on with it. -/
theorem Settled.run_replace (hr : r.Settled) (h : r.run (x ++ s) = (ps, s)) (hbehind : Behind x s t)
    (hstop : r.read t = none) : r.run (x ++ t) = (ps, t) := by
  induction ps generalizing x with
  | nil =>
    have hx := r.rawText_run (x ++ s)
    rw [h] at hx
    obtain rfl : x = [] := List.append_left_eq_self.mp hx.symm
    exact run_of_none hstop
  | cons p ps ih =>
    cases hread : r.read (x ++ s) with
    | none =>
      rw [run_of_none hread] at h
      cases h
    | some a =>
      obtain ⟨p', rest⟩ := a
      rw [run_of_some hread] at h
      obtain ⟨hps, hs⟩ := Prod.mk.inj h
      obtain ⟨rfl, hrun⟩ := List.cons.inj hps
      obtain rfl : rawText ps ++ s = rest := by
        rw [← hrun, ← hs]
        exact r.rawText_run rest
      have hx := (r.read_sound hread).2
      rw [← List.append_assoc] at hx
      obtain rfl := List.append_cancel_right hx
      rw [List.append_assoc] at hread ⊢
      rw [run_of_some (hr hread hbehind.prepend), ih (Prod.ext hrun hs) hbehind.of_append]

theorem read_run (r : PieceReader) (cs : List Char) : r.read (r.run cs).2 = none := by
  fun_induction run r cs with
  | case1 cs h => exact h
  | case2 cs p rest h ih => exact ih

/-- A run of characters of a class and of escapes ends in front of the new text too. -/
theorem Accepts.run_replace {class? : Char → Bool} (hr : r.Accepts class?) (hspace : class? ' ' = false)
    {cs : List Char} (h : Behind (rawText (r.run cs).1) (r.run cs).2 t) :
    r.run (rawText (r.run cs).1 ++ t) = ((r.run cs).1, t) := by
  refine Settled.run_replace hr.settled ?_ h (h.cut.read_eq_none hr hspace (r.read_run cs))
  rw [r.rawText_run]

end PieceReader

end SlotGrid.Style
