import SlotGrid.Proofs.Style.Names

/-! # Quoted literals

Between its quotes a literal has items: characters that are written as they are, escapes, and backslashes that join two
lines. Of the characters that could be written as they are only the space, the other quote and those of addresses may
be. A literal is one token if it has no others, and else it is cut in front of the first of them.
-/

namespace SlotGrid.Style

/-- A character that is no end of a literal, neither the quote nor the start of an escape nor a line break. -/
def IsBare (quote c : Char) : Prop := c ≠ quote ∧ c ≠ '\\' ∧ isLineBreak c = false

/-- A character that a literal holds without an escape. -/
def IsHeld (quote c : Char) : Prop := c ≠ quote ∧ (c = ' ' ∨ c = '"' ∨ c = '\'' ∨ isUrlChar c = true)

instance (quote c : Char) : Decidable (IsBare quote c) := inferInstanceAs (Decidable (_ ∧ _))

instance (quote c : Char) : Decidable (IsHeld quote c) := inferInstanceAs (Decidable (_ ∧ _))

/-- Items of a literal in front of a text, and the characters that they stand for. What is written as it is satisfies
a predicate; line breaks behind backslashes stand for nothing. -/
inductive IsQuoted (bare : Char → Prop) (rest : List Char) : List Char → List Char → Prop
  | nil : IsQuoted bare rest [] []
  | literal {c : Char} {raw decoded : List Char} (h : bare c) (hs : IsQuoted bare rest raw decoded) :
    IsQuoted bare rest (c :: raw) (c :: decoded)
  | escape {c : Char} {x raw decoded : List Char} (h : IsItem ('\\' :: x) c (raw ++ rest))
    (hs : IsQuoted bare rest raw decoded) : IsQuoted bare rest ('\\' :: x ++ raw) (c :: decoded)
  | continued {lineBreak raw decoded : List Char} (h : lineBreak ∈ [['\n'], ['\x0c'], ['\r'], ['\r', '\n']])
    (hs : IsQuoted bare rest raw decoded) : IsQuoted bare rest ('\\' :: lineBreak ++ raw) decoded

variable {quote c d : Char} {raw decoded rest after : List Char} {bare : Char → Prop}

theorem IsHeld.ne (h : IsHeld quote c) : c ≠ '\\' ∧ c ≠ '\n' := by
  constructor
  all_goals
    rintro rfl
    exact absurd h.2 (by decide)

theorem read_of_not_held (hstroke : d ≠ '\\') (hheld : ¬ IsHeld quote d) (rest : List Char) :
    (quotedReader quote).read (d :: rest) = none :=
  (quotedPiece?_literal quote hstroke rest).trans (if_neg hheld)

theorem quotedPiece?_of_escapeAfter {cs : List Char} {p : Piece} (h : escapeAfter cs = some (p, rest)) :
    quotedPiece? quote ('\\' :: cs) = some (p, rest) := by
  cases cs with
  | nil => cases h
  | cons c cs =>
    have hbreak : isLineBreak c = false := by
      by_contra hc
      simp [escapeAfter, hc] at h
    have hreturn : c ≠ '\r' := by
      rintro rfl
      cases hbreak
    rw [quotedPiece?_escape quote hreturn, if_neg (by simp [hbreak]), h]

namespace IsQuoted

/-- No line feed stands at the front of an item, so that it cannot join a carriage return before it. -/
theorem head?_ne_lineFeed (h : IsQuoted bare rest raw decoded) (hbare : ∀ c, bare c → c ≠ '\n')
    (hrest : rest.head? ≠ some '\n') : (raw ++ rest).head? ≠ some '\n' := by
  cases h with
  | nil => exact hrest
  | literal hc => simpa using hbare _ hc
  | escape => simp
  | continued => simp

/-- Items are read up to what is no item. -/
theorem exists_run (h : IsQuoted (IsHeld quote) rest raw decoded) (hread : (quotedReader quote).read rest = none)
    (hrest : rest.head? ≠ some '\n') :
    ∃ ps, (quotedReader quote).run (raw ++ rest) = (ps, rest) ∧ rawText ps = raw ∧
      ps.flatMap Piece.decoded = decoded := by
  induction h with
  | nil => exact ⟨[], PieceReader.run_of_none hread, rfl, rfl⟩
  | @literal c raw decoded hc _ ih =>
    obtain ⟨ps, hrun, rfl, rfl⟩ := ih
    have hpiece : (quotedReader quote).read (c :: (rawText ps ++ rest)) = some (.literal c, rawText ps ++ rest) :=
      (quotedPiece?_literal quote hc.ne.1 _).trans (if_pos hc)
    refine ⟨.literal c :: ps, ?_, rfl, rfl⟩
    rw [List.cons_append, PieceReader.run_of_some hpiece, hrun]
  | @escape c x raw decoded hx _ ih =>
    obtain ⟨ps, hrun, rfl, rfl⟩ := ih
    have hpiece : (quotedReader quote).read ('\\' :: x ++ rawText ps ++ rest) =
        some (⟨'\\' :: x, [c]⟩, rawText ps ++ rest) := by
      have hname : namePiece? ('\\' :: x ++ (rawText ps ++ rest)) = some (⟨'\\' :: x, [c]⟩, rawText ps ++ rest) :=
        namePiece?_eq_some_iff.mpr ⟨c, rfl, rfl, hx⟩
      rw [List.append_assoc]
      exact quotedPiece?_of_escapeAfter hname
    refine ⟨⟨'\\' :: x, [c]⟩ :: ps, ?_, rfl, rfl⟩
    rw [PieceReader.run_of_some hpiece, hrun]
  | @continued lineBreak raw decoded hbreak hs ih =>
    have hnext := hs.head?_ne_lineFeed (fun c hc => hc.ne.2) hrest
    obtain ⟨ps, hrun, rfl, rfl⟩ := ih
    have hpiece : (quotedReader quote).read ('\\' :: lineBreak ++ rawText ps ++ rest) =
        some (⟨'\\' :: lineBreak, []⟩, rawText ps ++ rest) := by
      simp only [List.mem_cons, List.not_mem_nil, or_false] at hbreak
      rcases hbreak with rfl | rfl | rfl | rfl
      · rfl
      · rfl
      · exact (quotedPiece?_return quote _).trans (if_neg hnext)
      · rfl
    refine ⟨⟨'\\' :: lineBreak, []⟩ :: ps, ?_, rfl, rfl⟩
    rw [PieceReader.run_of_some hpiece, hrun]

/-- If the characters that are written as they are include one that a literal does not hold, there is a first. -/
theorem held_or_cut (h : IsQuoted (IsBare quote) rest raw decoded) :
    IsQuoted (IsHeld quote) rest raw decoded ∨
      ∃ front before c back, raw = front ++ c :: back ∧ IsQuoted (IsHeld quote) (c :: (back ++ rest)) front before ∧
        IsBare quote c ∧ ¬ IsHeld quote c := by
  induction h with
  | nil => exact .inl .nil
  | @literal c raw decoded hc _ ih =>
    by_cases hheld : IsHeld quote c
    · rcases ih with ih | ⟨front, before, d, back, rfl, ih, hd⟩
      · exact .inl (.literal hheld ih)
      · exact .inr ⟨c :: front, c :: before, d, back, rfl, .literal hheld ih, hd⟩
    · exact .inr ⟨[], [], c, raw, rfl, .nil, hc, hheld⟩
  | @escape c x raw decoded hx _ ih =>
    rcases ih with ih | ⟨front, before, d, back, rfl, ih, hd⟩
    · exact .inl (.escape hx ih)
    · rw [List.append_assoc] at hx
      exact .inr ⟨'\\' :: x ++ front, c :: before, d, back, by simp, .escape hx ih, hd⟩
  | @continued lineBreak raw decoded hbreak _ ih =>
    rcases ih with ih | ⟨front, before, d, back, rfl, ih, hd⟩
    · exact .inl (.continued hbreak ih)
    · exact .inr ⟨'\\' :: lineBreak ++ front, before, d, back, by simp, .continued hbreak ih, hd⟩

/-- A literal is read up to its quote, or up to a character that it does not hold. -/
theorem readQuoted_eq (h : IsQuoted (IsHeld quote) (d :: after) raw decoded) (hstroke : d ≠ '\\') (hfeed : d ≠ '\n')
    (hheld : ¬ IsHeld quote d) :
    readQuoted quote (raw ++ d :: after) =
      if d = quote then ⟨.ofList decoded, raw ++ [quote], after⟩ else ⟨.ofList decoded, raw, d :: after⟩ := by
  obtain ⟨ps, hrun, hraw, hdecoded⟩ := h.exists_run (read_of_not_held hstroke hheld after) (by simpa using hfeed)
  have hvalue : decodedText ps = .ofList decoded := congrArg String.ofList hdecoded
  unfold readQuoted
  rw [hrun]
  dsimp only
  rw [hraw, hvalue]

end IsQuoted

theorem scan_quote (hquote : quote = '"' ∨ quote = '\'') (cs : List Char) :
    scan quote cs =
      ⟨some (.string (readQuoted quote cs).value), quote :: (readQuoted quote cs).raw, (readQuoted quote cs).rest⟩ := by
  rcases hquote with rfl | rfl <;> exact scan_eq_of_scan? rfl

theorem next?_quote (hquote : quote = '"' ∨ quote = '\'') (n : ℕ) (cs : List Char) :
    Cursor.next? ⟨n, quote :: cs⟩ =
      some (.token ⟨.string (readQuoted quote cs).value, quote :: (readQuoted quote cs).raw, n⟩,
        ⟨n + ((readQuoted quote cs).raw.length + 1), (readQuoted quote cs).rest⟩) := by
  unfold Cursor.next?
  dsimp only
  rw [scan_quote hquote]
  rfl

/-- A literal with its quotes is read as one token, with the characters that its items stand for, exactly if all
characters that are written as they are may be held without an escape. -/
theorem next?_eq_literal_iff (hquote : quote = '"' ∨ quote = '\'')
    (h : IsQuoted (IsBare quote) (quote :: after) raw decoded) (n : ℕ) :
    Cursor.next? ⟨n, quote :: (raw ++ quote :: after)⟩ =
        some (.token ⟨.string (.ofList decoded), quote :: (raw ++ [quote]), n⟩, ⟨n + (raw.length + 2), after⟩) ↔
      IsQuoted (IsHeld quote) (quote :: after) raw decoded := by
  have hend : quote ≠ '\\' ∧ quote ≠ '\n' := by rcases hquote with rfl | rfl <;> decide
  rw [next?_quote hquote]
  constructor
  · intro hnext
    rcases h.held_or_cut with hheld | ⟨front, before, c, back, rfl, hfront, hbare, hc⟩
    · exact hheld
    · -- the token that is read instead is too short
      exfalso
      have hfeed : c ≠ '\n' := by
        rintro rfl
        exact absurd hbare.2.2 (by decide)
      rw [List.append_assoc, List.cons_append, hfront.readQuoted_eq hbare.2.1 hfeed hc, if_neg hbare.1] at hnext
      have hlexeme := congrArg (fun r => r.1.lexeme.length) (Option.some.inj hnext)
      simp only [Item.lexeme, List.length_cons, List.length_append] at hlexeme
      omega
  · intro hheld
    rw [hheld.readQuoted_eq hend.1 hend.2 fun hq => hq.1 rfl, if_pos rfl, List.length_append, List.length_singleton]

/-- The digits of the escape end at the space, and the line break behind the backslash joins its lines. -/
theorem next?_literal_with_escapes :
    ('"' = '"' ∨ '"' = '\'') ∧
      IsQuoted (IsBare '"') ['"'] ['\'', '\\', '4', '1', ' ', 'b', '\\', '\r', '\n'] ['\'', 'A', 'b'] ∧
      IsQuoted (IsHeld '"') ['"'] ['\'', '\\', '4', '1', ' ', 'b', '\\', '\r', '\n'] ['\'', 'A', 'b'] ∧
      Cursor.next? ⟨0, ['"', '\'', '\\', '4', '1', ' ', 'b', '\\', '\r', '\n', '"']⟩ =
        some (.token ⟨.string "'Ab", ['"', '\'', '\\', '4', '1', ' ', 'b', '\\', '\r', '\n', '"'], 0⟩, ⟨11, []⟩) := by
  have hescape : IsItem ('\\' :: (['4', '1'] ++ [' '])) 'A' ['b', '\\', '\r', '\n', '"'] :=
    .code nofun (List.all_eq_true.mp (by decide)) (by decide) (.inr (by simp [isHexDigit])) (.space rfl nofun)
      (standsFor_iff.mpr (by decide))
  have hitems : ∀ bare : Char → Prop, bare '\'' → bare 'b' →
      IsQuoted bare ['"'] ['\'', '\\', '4', '1', ' ', 'b', '\\', '\r', '\n'] ['\'', 'A', 'b'] := by
    intro bare hquote hb
    have hbreak : IsQuoted bare ['"'] ('\\' :: ['\r', '\n'] ++ []) [] := .continued (by decide) .nil
    have hcode : IsQuoted bare ['"'] ('\\' :: ['4', '1', ' '] ++ ['b', '\\', '\r', '\n']) ['A', 'b'] :=
      .escape hescape (.literal hb hbreak)
    exact .literal hquote hcode
  have hbare := hitems (IsBare '"') (by decide) (by decide)
  have hheld := hitems (IsHeld '"') (by decide) (by decide)
  exact ⟨.inl rfl, hbare, hheld, (next?_eq_literal_iff (.inl rfl) hbare 0).mpr hheld⟩

/-- A parenthesis cannot be written as it is. -/
theorem not_one_token_with_parenthesis :
    ¬ ∀ (quote : Char) (raw decoded : List Char), quote = '"' ∨ quote = '\'' →
      IsQuoted (IsBare quote) [quote] raw decoded →
      Cursor.next? ⟨0, quote :: (raw ++ [quote])⟩ =
        some (.token ⟨.string (.ofList decoded), quote :: (raw ++ [quote]), 0⟩, ⟨raw.length + 2, []⟩) := by
  intro h
  have hparen : IsQuoted (IsBare '"') ['"'] ['('] ['('] := .literal (by decide) .nil
  exact absurd (h '"' ['('] ['('] (.inl rfl) hparen) (by decide +kernel)

end SlotGrid.Style
