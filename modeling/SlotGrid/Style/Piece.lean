import SlotGrid.Style.CharClass

/-! # Pieces of names and literals

Names, quoted texts and unquoted addresses are runs of pieces: a character that stands for itself, or an
escape. A piece keeps both the characters it is written with and the characters it stands for, so a run
gives the lexeme of a token as well as its value. Reading a run loses no character.
-/

namespace SlotGrid.Style

structure Piece where
  raw : List Char
  decoded : List Char
  deriving DecidableEq, Repr

def Piece.literal (c : Char) : Piece := ⟨[c], [c]⟩

def rawText (ps : List Piece) : List Char := ps.flatMap Piece.raw

def decodedText (ps : List Piece) : String := .ofList (ps.flatMap Piece.decoded)

/-- Reads one piece off the front of a text; it is not empty, and the rest follows it. -/
structure PieceReader where
  read : List Char → Option (Piece × List Char)
  read_sound : ∀ {cs p rest}, read cs = some (p, rest) → p.raw ≠ [] ∧ cs = p.raw ++ rest

theorem PieceReader.length_lt (r : PieceReader) {cs rest : List Char} {p : Piece}
    (h : r.read cs = some (p, rest)) : rest.length < cs.length := by
  obtain ⟨hne, rfl⟩ := r.read_sound h
  have := List.length_pos_iff.mpr hne
  simp only [List.length_append]
  omega

/-- The longest run of pieces at the front of a text, and what follows it. -/
def PieceReader.run (r : PieceReader) (cs : List Char) : List Piece × List Char :=
  match _h : r.read cs with
  | none => ([], cs)
  | some (p, rest) => (p :: (r.run rest).1, (r.run rest).2)
termination_by cs.length
decreasing_by all_goals exact r.length_lt ‹_›

theorem PieceReader.rawText_run (r : PieceReader) (cs : List Char) :
    rawText (r.run cs).1 ++ (r.run cs).2 = cs := by
  fun_induction PieceReader.run r cs with
  | case1 => rfl
  | case2 cs p rest h ih => simpa [rawText, (r.read_sound h).2] using ih

/-! ## Escapes -/

/-- At most `n` characters of a class. -/
def takeUpTo (p : Char → Bool) : Nat → List Char → List Char
  | n + 1, c :: cs => if p c then c :: takeUpTo p n cs else []
  | _, _ => []

theorem takeUpTo_append_drop (p : Char → Bool) :
    ∀ (n : Nat) (cs : List Char), takeUpTo p n cs ++ cs.drop (takeUpTo p n cs).length = cs
  | 0, _ | _ + 1, [] => by simp [takeUpTo]
  | n + 1, c :: cs => by
    by_cases h : p c = true <;> simp [takeUpTo, h, takeUpTo_append_drop p n cs]

/-- What ends the digits of an escape: one whitespace character, and after a carriage return also the line
feed or form feed that follows. -/
def digitsEnd : List Char → List Char
  | '\r' :: '\n' :: _ => ['\r', '\n']
  | '\r' :: '\x0c' :: _ => ['\r', '\x0c']
  | c :: _ => if isSpace c then [c] else []
  | [] => []

theorem digitsEnd_append_drop (cs : List Char) : digitsEnd cs ++ cs.drop (digitsEnd cs).length = cs := by
  fun_cases digitsEnd cs <;> simp_all

/-- The character with a code point; no escape stands for U+0000 or for half of a surrogate pair. -/
def decodeCode (n : Nat) : Char :=
  if n ≠ 0 ∧ n.isValidChar then .ofNat n else '\ufffd'

/-- The escape after a backslash: up to six hexadecimal digits, or any character but a line break. -/
def escapeAfter : List Char → Option (Piece × List Char)
  | [] => none
  | c :: cs =>
    if isLineBreak c then none
    else
      let digits := takeUpTo isHexDigit 6 (c :: cs)
      if digits.isEmpty then some (⟨['\\', c], [c]⟩, cs)
      else
        let rest := (c :: cs).drop digits.length
        let closing := digitsEnd rest
        some (⟨'\\' :: (digits ++ closing), [decodeCode (hexNumber digits)]⟩, rest.drop closing.length)

theorem escapeAfter_sound {cs rest : List Char} {p : Piece} (h : escapeAfter cs = some (p, rest)) :
    p.raw ≠ [] ∧ '\\' :: cs = p.raw ++ rest := by
  unfold escapeAfter at h
  split at h
  · simp at h
  · rename_i c cs
    split at h
    · simp at h
    · dsimp only at h
      split at h
      · obtain ⟨rfl, rfl⟩ := by simpa using h
        simp
      · simp only [Option.some.injEq, Prod.mk.injEq] at h
        obtain ⟨rfl, rfl⟩ := h
        refine ⟨by simp, ?_⟩
        rw [List.cons_append, List.append_assoc, digitsEnd_append_drop, takeUpTo_append_drop]

/-- A backslash at the front starts an escape. -/
def startsEscape : List Char → Bool
  | '\\' :: c :: _ => !isLineBreak c
  | _ => false

/-! ## Runs of names, quoted texts and addresses -/

def namePiece? : List Char → Option (Piece × List Char)
  | '\\' :: cs => escapeAfter cs
  | c :: cs => if isNameChar c then some (.literal c, cs) else none
  | [] => none

def nameReader : PieceReader where
  read := namePiece?
  read_sound {cs p rest} h := by
    fun_cases namePiece? cs <;> simp_all [namePiece?]
    · exact escapeAfter_sound h
    · obtain ⟨rfl, rfl⟩ := h
      simp [Piece.literal]

/-- Whether a name starts at the front of a text, with or without a leading dash. -/
def startsIdent : List Char → Bool
  | '-' :: '\\' :: cs => startsEscape ('\\' :: cs)
  | '-' :: c :: _ => isNameStart c
  | '\\' :: cs => startsEscape ('\\' :: cs)
  | c :: _ => isNameStart c
  | [] => false

/-- Within quotes a backslash joins two lines, and at the end of the text it stands for nothing. -/
def quotedPiece? (quote : Char) : List Char → Option (Piece × List Char)
  | '\\' :: '\r' :: '\n' :: cs => some (⟨['\\', '\r', '\n'], []⟩, cs)
  | '\\' :: c :: cs =>
    if isLineBreak c then some (⟨['\\', c], []⟩, cs) else escapeAfter (c :: cs)
  | ['\\'] => some (⟨['\\'], []⟩, [])
  | c :: cs =>
    if c ≠ quote ∧ (c = ' ' ∨ c = '"' ∨ c = '\'' ∨ isUrlChar c) then some (.literal c, cs) else none
  | [] => none

def quotedReader (quote : Char) : PieceReader where
  read := quotedPiece? quote
  read_sound {cs p rest} h := by
    fun_cases quotedPiece? quote cs <;> simp_all [quotedPiece?]
    · obtain ⟨rfl, rfl⟩ := h
      simp
    · obtain ⟨rfl, rfl⟩ := h
      simp
    · exact escapeAfter_sound h
    · obtain ⟨rfl, rfl⟩ := h
      simp
    · obtain ⟨rfl, rfl⟩ := h
      simp [Piece.literal]

def addressPiece? : List Char → Option (Piece × List Char)
  | '\\' :: cs => escapeAfter cs
  | c :: cs => if isUrlChar c then some (.literal c, cs) else none
  | [] => none

def addressReader : PieceReader where
  read := addressPiece?
  read_sound {cs p rest} h := by
    fun_cases addressPiece? cs <;> simp_all [addressPiece?]
    · exact escapeAfter_sound h
    · obtain ⟨rfl, rfl⟩ := h
      simp [Piece.literal]

end SlotGrid.Style
