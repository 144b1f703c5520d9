import Mathlib
import SlotGrid.Style.Lexer

/-! # Braces, semicolons and line feeds divide texts

A token that ends before a brace or a semicolon is the same whatever stands behind it: no look ahead goes further
than to that character. A line feed behind a text is for every token that ends before it like the end of the text.
So the items of a text that ends with a brace or a semicolon, or that a line feed follows, are items of the longer
text, up to the last one.
-/

namespace SlotGrid.Style

/-! ## Classes of characters -/

/-- What ends the digits of an escape is seen in two characters. -/
theorem digitsEnd_cons_cons (c d : Char) (s t : List Char) : digitsEnd (c :: d :: s) = digitsEnd (c :: d :: t) := by
  by_cases hc : c = '\r'
  · subst hc
    by_cases hd : d = '\n'
    · subst hd
      rfl
    · by_cases hd' : d = '\x0c'
      · subst hd'
        rfl
      · simp [digitsEnd, hd, hd']
  · simp [digitsEnd, hc]

/-- What ends the digits of an escape before the text does ends there in every longer text. -/
theorem digitsEnd_append {cs : List Char} (hne : cs.drop (digitsEnd cs).length ≠ []) (t : List Char) :
    digitsEnd (cs ++ t) = digitsEnd cs := by
  rcases cs with _ | ⟨c, _ | ⟨d, cs⟩⟩
  · exact absurd rfl hne
  · by_cases hc : isSpace c
    · have hend : digitsEnd [c] = [c] := by simp [digitsEnd, hc]
      rw [hend] at hne
      exact absurd rfl hne
    · have hr : c ≠ '\r' := by
        rintro rfl
        exact hc rfl
      simp [digitsEnd, hc, hr]
  · exact digitsEnd_cons_cons c d _ _

theorem drop_digitsEnd_append (cs t : List Char) :
    (cs ++ t).drop (digitsEnd cs).length = cs.drop (digitsEnd cs).length ++ t := by
  have hl := congrArg List.length (digitsEnd_append_drop cs)
  rw [List.length_append] at hl
  exact List.drop_append_of_le_length (by omega)

theorem quotedPiece?_literal (quote : Char) {c : Char} (hc : c ≠ '\\') (cs : List Char) :
    quotedPiece? quote (c :: cs) =
      if c ≠ quote ∧ (c = ' ' ∨ c = '"' ∨ c = '\'' ∨ isUrlChar c) then some (.literal c, cs) else none := by
  simp [quotedPiece?, hc]

theorem quotedPiece?_escape (quote : Char) {c : Char} (hc : c ≠ '\r') (cs : List Char) :
    quotedPiece? quote ('\\' :: c :: cs) =
      if isLineBreak c then some (⟨['\\', c], []⟩, cs) else escapeAfter (c :: cs) := by
  simp [quotedPiece?, hc]

section Classes

variable {p : Char → Bool} {cs : List Char}

theorem takeWhile_append_of_ends (h : cs.dropWhile p ≠ []) (t : List Char) :
    (cs ++ t).takeWhile p = cs.takeWhile p := by
  induction cs with
  | nil => exact absurd rfl h
  | cons c cs ih =>
    by_cases hc : p c
    · rw [List.dropWhile_cons_of_pos hc] at h
      rw [List.cons_append, List.takeWhile_cons_of_pos hc, List.takeWhile_cons_of_pos hc, ih h]
    · rw [List.cons_append, List.takeWhile_cons_of_neg hc, List.takeWhile_cons_of_neg hc]

theorem dropWhile_append_of_ends (h : cs.dropWhile p ≠ []) (t : List Char) :
    (cs ++ t).dropWhile p = cs.dropWhile p ++ t := by
  rw [List.dropWhile_append, if_neg (by simpa using h)]

end Classes

/-- The characters that divide a sheet into rules and declarations. -/
def dividers : List Char := ['{', '}', ';']

@[simp] theorem forall_mem_dividers {P : Char → Prop} : (∀ d ∈ dividers, P d) ↔ P '{' ∧ P '}' ∧ P ';' := by
  simp [dividers]

/-- A class without the characters where texts part. -/
def Stops (p : Char → Bool) : Prop := (∀ d ∈ dividers, p d = false) ∧ p '\n' = false

instance (p : Char → Bool) : Decidable (Stops p) :=
  decidable_of_iff _ (and_congr forall_mem_dividers.symm Iff.rfl)

/-- A text that ends with a divider, or that a line feed follows. -/
inductive Seam (t : List Char) : List Char → Prop
  | divider {d : Char} (hd : d ∈ dividers) : Seam t [d]
  | lineFeed {s : List Char} (h : t = '\n' :: s) : Seam t []
  | cons (c : Char) {cs : List Char} (h : Seam t cs) : Seam t (c :: cs)

/-- What is read before the end of a text is also read in front of more text. -/
def ReadsOn (read : List Char → Option (Piece × List Char)) (cs t : List Char) : Prop :=
  match read cs with
  | none => read (cs ++ t) = none
  | some (p, s) => s ≠ [] → read (cs ++ t) = some (p, s ++ t)

namespace Seam

variable {cs t : List Char} {p : Char → Bool}

theorem append_divider {d : Char} (hd : d ∈ dividers) (x t : List Char) : Seam t (x ++ [d]) := by
  induction x with
  | nil => exact .divider hd
  | cons c x ih => exact .cons c ih

theorem append_lineFeed (cs s : List Char) : Seam ('\n' :: s) cs := by
  induction cs with
  | nil => exact .lineFeed rfl
  | cons c cs ih => exact .cons c ih

theorem of_suffix {s : List Char} (h : Seam t cs) (hs : s <:+ cs) (hne : s ≠ []) : Seam t s := by
  induction h with
  | divider hd =>
    rcases List.suffix_cons_iff.mp hs with rfl | hs
    · exact .divider hd
    · exact absurd (List.suffix_nil.mp hs) hne
  | lineFeed => exact absurd (List.suffix_nil.mp hs) hne
  | cons c h ih =>
    rcases List.suffix_cons_iff.mp hs with rfl | hs
    · exact .cons c h
    · exact ih hs

theorem tail {c : Char} (h : Seam t (c :: cs)) (hc : c ∉ dividers) : Seam t cs := by
  cases h with
  | divider hd => exact absurd hd hc
  | cons _ h => exact h

theorem takeWhile_append (h : Seam t cs) (hp : Stops p) : (cs ++ t).takeWhile p = cs.takeWhile p := by
  induction h with
  | divider hd => simp [hp.1 _ hd]
  | lineFeed h => simp [h, hp.2]
  | cons c h ih => rw [List.cons_append, List.takeWhile_cons, List.takeWhile_cons, ih]

theorem dropWhile_append (h : Seam t cs) (hp : Stops p) : (cs ++ t).dropWhile p = cs.dropWhile p ++ t := by
  induction h with
  | divider hd => simp [hp.1 _ hd]
  | lineFeed h => simp [h, hp.2]
  | cons c h ih =>
    rw [List.cons_append, List.dropWhile_cons, List.dropWhile_cons, ih]
    split_ifs <;> rfl

theorem dropWhile (h : Seam t cs) (hp : ∀ d ∈ dividers, p d = false) : Seam t (cs.dropWhile p) := by
  induction h with
  | divider hd => simpa [hp _ hd] using Seam.divider hd
  | lineFeed h => exact .lineFeed h
  | cons c h ih =>
    rw [List.dropWhile_cons]
    split_ifs
    · exact ih
    · exact .cons c h

theorem takeUpTo_append (h : Seam t cs) (hp : Stops p) (n : ℕ) : takeUpTo p n (cs ++ t) = takeUpTo p n cs := by
  induction h generalizing n with
  | divider hd => cases n <;> simp [takeUpTo, hp.1 _ hd]
  | lineFeed h => cases n <;> simp [h, takeUpTo, hp.2]
  | cons c h ih =>
    cases n with
    | zero => rfl
    | succ n => simp only [List.cons_append, takeUpTo, ih]

theorem drop_takeUpTo_append (cs t : List Char) (p : Char → Bool) (n : ℕ) :
    (cs ++ t).drop (takeUpTo p n cs).length = cs.drop (takeUpTo p n cs).length ++ t := by
  have hl := congrArg List.length (takeUpTo_append_drop p n cs)
  rw [List.length_append] at hl
  exact List.drop_append_of_le_length (by omega)

theorem drop_takeUpTo (h : Seam t cs) (hp : ∀ d ∈ dividers, p d = false) (n : ℕ) :
    Seam t (cs.drop (takeUpTo p n cs).length) := by
  induction h generalizing n with
  | divider hd => cases n <;> simpa [takeUpTo, hp _ hd] using Seam.divider hd
  | lineFeed h => cases n <;> exact .lineFeed h
  | cons c h ih =>
    cases n with
    | zero => exact .cons c h
    | succ n =>
      unfold takeUpTo
      split_ifs
      · exact ih n
      · exact .cons c h

/-! ## Pieces -/

theorem readsOn_escapeAfter (h : Seam t cs) : ReadsOn escapeAfter cs t := by
  cases cs with
  | nil =>
    cases h with
    | lineFeed h => subst h; rfl
  | cons c cs =>
    have hdigits := h.takeUpTo_append (p := isHexDigit) (by decide) 6
    have hrest := drop_takeUpTo_append (c :: cs) t isHexDigit 6
    have hend := fun hne => @digitsEnd_append ((c :: cs).drop (takeUpTo isHexDigit 6 (c :: cs)).length) hne t
    rw [List.cons_append] at hdigits hrest
    unfold ReadsOn
    rw [List.cons_append]
    unfold escapeAfter
    simp only [hdigits, hrest]
    split_ifs
    · rfl
    · exact fun _ => rfl
    · intro hne
      rw [hend hne, drop_digitsEnd_append]

theorem readsOn_namePiece? (h : Seam t cs) : ReadsOn namePiece? cs t := by
  cases cs with
  | nil =>
    cases h with
    | lineFeed h => subst h; rfl
  | cons c cs =>
    by_cases hc : c = '\\'
    · subst hc
      exact (h.tail (by decide)).readsOn_escapeAfter
    · unfold ReadsOn
      simp only [List.cons_append, namePiece?]
      split_ifs
      · exact fun _ => rfl
      · rfl

theorem readsOn_addressPiece? (h : Seam t cs) : ReadsOn addressPiece? cs t := by
  cases cs with
  | nil =>
    cases h with
    | lineFeed h => subst h; rfl
  | cons c cs =>
    by_cases hc : c = '\\'
    · subst hc
      exact (h.tail (by decide)).readsOn_escapeAfter
    · unfold ReadsOn
      simp only [List.cons_append, addressPiece?]
      split_ifs
      · exact fun _ => rfl
      · rfl

theorem readsOn_quotedPiece? (h : Seam t cs) (quote : Char) : ReadsOn (quotedPiece? quote) cs t := by
  unfold ReadsOn
  cases cs with
  | nil =>
    cases h with
    | lineFeed h => subst h; simp [quotedPiece?, isUrlChar, isForeign]
  | cons c cs =>
    by_cases hc : c = '\\'
    · subst hc
      have h' := h.tail (by decide)
      rcases cs with _ | ⟨d, cs⟩
      · exact fun hne => absurd rfl hne
      by_cases hd : d = '\r'
      · subst hd
        rcases cs with _ | ⟨e, cs⟩
        · exact fun hne => absurd rfl hne
        by_cases he : e = '\n'
        · subst he
          exact fun _ => rfl
        · simp [quotedPiece?, he, isLineBreak]
      · rw [List.cons_append, List.cons_append, quotedPiece?_escape quote hd, quotedPiece?_escape quote hd]
        split_ifs
        · exact fun _ => rfl
        · exact h'.readsOn_escapeAfter
    · rw [List.cons_append, quotedPiece?_literal quote hc, quotedPiece?_literal quote hc]
      split_ifs
      · exact fun _ => rfl
      · rfl

/-- A run of pieces that ends before the text does ends there in the longer text. -/
theorem run_append {r : PieceReader} (hr : ∀ {cs}, Seam t cs → ReadsOn r.read cs t) (h : Seam t cs)
    (hne : (r.run cs).2 ≠ []) : r.run (cs ++ t) = ((r.run cs).1, (r.run cs).2 ++ t) := by
  fun_induction PieceReader.run r cs with
  | case1 cs hnone =>
    rw [PieceReader.run]
    have hread := hr h
    unfold ReadsOn at hread
    rw [hnone] at hread
    split
    · rfl
    · simp_all
  | case2 cs p rest hsome ih =>
    have hrest : rest ≠ [] := by
      rintro rfl
      have := r.rawText_run []
      exact hne (List.append_eq_nil_iff.mp this).2
    have hsuffix : rest <:+ cs := ⟨p.raw, (r.read_sound hsome).2.symm⟩
    have hread := hr h
    unfold ReadsOn at hread
    rw [hsome] at hread
    rw [PieceReader.run]
    split
    · simp_all
    · rename_i p' rest' hsome'
      rw [hread hrest] at hsome'
      cases hsome'
      rw [ih (h.of_suffix hsuffix hrest) hne]

theorem startsEscape_append (h : Seam t cs) : startsEscape ('\\' :: (cs ++ t)) = startsEscape ('\\' :: cs) := by
  cases cs with
  | nil =>
    cases h with
    | lineFeed h => subst h; rfl
  | cons c cs => rfl

theorem startsIdent_append (h : Seam t cs) : startsIdent (cs ++ t) = startsIdent cs := by
  fun_cases startsIdent cs with
  | case1 cs => exact ((h.tail (by decide)).tail (by decide)).startsEscape_append
  | case2 c cs hc => simp [startsIdent]
  | case3 cs => exact (h.tail (by decide)).startsEscape_append
  | case4 c cs hd hb hs =>
    by_cases hc : c = '-'
    · subst hc
      rcases cs with _ | ⟨d, cs⟩
      · cases h.tail (by decide) with
        | lineFeed h => subst h; rfl
      · exact absurd rfl (hb d cs rfl)
    · simp [startsIdent, hc]
  | case5 =>
    cases h with
    | lineFeed h => subst h; rfl

theorem isSome_namePiece?_append (h : Seam t cs) : (namePiece? (cs ++ t)).isSome = (namePiece? cs).isSome := by
  cases cs with
  | nil =>
    cases h with
    | lineFeed h => subst h; rfl
  | cons c cs =>
    by_cases hc : c = '\\'
    · subst hc
      have hescape : ∀ cs, (namePiece? ('\\' :: cs)).isSome = startsEscape ('\\' :: cs) := by
        intro cs
        rw [Bool.eq_iff_iff, startsEscape_iff, Option.isSome_iff_exists, Prod.exists]
        rfl
      rw [List.cons_append, hescape, hescape]
      exact (h.tail (by decide)).startsEscape_append
    · simp only [List.cons_append, namePiece?]
      split_ifs <;> rfl

end Seam

/-! ## Scans -/

/-- The scan with more text behind it. -/
def Scan.extend (s : Scan) (t : List Char) : Scan := { s with rest := s.rest ++ t }

namespace Seam

variable {cs t : List Char}

theorem readQuoted_append (h : Seam t cs) (quote : Char) (hne : (readQuoted quote cs).rest ≠ []) :
    readQuoted quote (cs ++ t) = { readQuoted quote cs with rest := (readQuoted quote cs).rest ++ t } := by
  have hrun := h.run_append (r := quotedReader quote) fun h => h.readsOn_quotedPiece? quote
  unfold readQuoted at hne ⊢
  rcases hr : ((quotedReader quote).run cs).2 with _ | ⟨c, rest⟩
  · rw [hr] at hne
    exact absurd rfl hne
  · rw [hrun (by simp [hr]), hr]
    dsimp only [List.cons_append]
    split_ifs <;> rfl

theorem rest_readAddress_nil : (readAddress []).rest = [] := (List.append_eq_nil_iff.mp (readAddress_raw [])).2

theorem readAddress_append (h : Seam t cs) (hne : (readAddress cs).rest ≠ []) :
    readAddress (cs ++ t) = { readAddress cs with rest := (readAddress cs).rest ++ t } := by
  rcases cs with _ | ⟨c, cs⟩
  · exact absurd rest_readAddress_nil hne
  by_cases hc : c = '"'
  · subst hc
    have hquoted := (h.tail (by decide)).readQuoted_append '"' hne
    simp only [List.cons_append, readAddress, hquoted]
  · by_cases hc' : c = '\''
    · subst hc'
      have hquoted := (h.tail (by decide)).readQuoted_append '\'' hne
      simp only [List.cons_append, readAddress, hquoted]
    · have hread : ∀ x, readAddress (c :: x) = ⟨decodedText (addressReader.run (c :: x)).1,
          rawText (addressReader.run (c :: x)).1, (addressReader.run (c :: x)).2⟩ := by
        intro x
        simp [readAddress, hc, hc']
      rw [hread] at hne
      have hrun := h.run_append (r := addressReader) readsOn_addressPiece? hne
      rw [List.cons_append] at hrun ⊢
      rw [hread, hread, hrun]

theorem scanAddress_append (h : Seam t cs) {opening : List Char} (hne : (scanAddress opening cs).rest ≠ []) :
    scanAddress opening (cs ++ t) = (scanAddress opening cs).extend t := by
  have hp : ∀ d ∈ dividers, isSpace d = false := forall_mem_dividers.mpr (by decide)
  have hread := (h.dropWhile hp).readAddress_append
  have hsuffix : (readAddress (cs.dropWhile isSpace)).rest <:+ cs.dropWhile isSpace := ⟨_, readAddress_raw _⟩
  -- Spaces that reach the end of the text would leave nothing.
  have hends : (readAddress (cs.dropWhile isSpace)).rest.dropWhile isSpace ≠ [] := by
    intro hnil
    unfold scanAddress at hne
    dsimp only at hne
    rw [hnil] at hne
    exact hne rfl
  have hr : (readAddress (cs.dropWhile isSpace)).rest ≠ [] := by
    intro hnil
    rw [hnil] at hends
    exact hends rfl
  have hcs : cs.dropWhile isSpace ≠ [] := by
    intro hnil
    rw [hnil] at hr
    exact hr rest_readAddress_nil
  unfold scanAddress
  rw [takeWhile_append_of_ends hcs, dropWhile_append_of_ends hcs, hread hr]
  simp only [takeWhile_append_of_ends hends, dropWhile_append_of_ends hends]
  obtain ⟨c, rest, hrest⟩ := List.exists_cons_of_ne_nil hends
  rw [hrest, List.cons_append]
  by_cases hc : c = ')'
  · subst hc
    rfl
  · simp [hc, Scan.extend]

theorem scanName_append (h : Seam t cs) (hne : (scanName cs).rest ≠ []) :
    scanName (cs ++ t) = (scanName cs).extend t := by
  have hrun := h.run_append (r := nameReader) readsOn_namePiece?
  have hsuffix : (nameReader.run cs).2 <:+ cs := ⟨_, nameReader.rawText_run cs⟩
  unfold scanName at hne ⊢
  generalize nameReader.run cs = r at hne hrun hsuffix ⊢
  obtain ⟨ps, s⟩ := r
  have hs : s ≠ [] := by
    rintro rfl
    exact hne rfl
  have hseam := h.of_suffix hsuffix hs
  obtain ⟨c, rest, rfl⟩ := List.exists_cons_of_ne_nil hs
  rw [hrun hs]
  by_cases hc : c = '('
  · subst hc
    dsimp only [List.cons_append] at hne ⊢
    split_ifs at hne ⊢
    · exact (hseam.tail (by decide)).scanAddress_append hne
    · rfl
  · simp [hc, Scan.extend]

/-! ### Numbers and ranges -/

theorem signOf_append (h : Seam t cs) : Numeral.signOf (cs ++ t) = Numeral.signOf cs := by
  cases cs with
  | nil =>
    cases h with
    | lineFeed h => subst h; rfl
  | cons c cs =>
    rw [List.cons_append]
    unfold Numeral.signOf
    split <;> split <;> simp_all

theorem drop_signOf (h : Seam t cs) : Seam t (cs.drop (Numeral.signOf cs).length) := by
  fun_cases Numeral.signOf cs with
  | case1 cs => exact h.tail (by decide)
  | case2 cs => exact h.tail (by decide)
  | case3 => exact h

theorem fractionOf_append (h : Seam t cs) : Numeral.fractionOf (cs ++ t) = Numeral.fractionOf cs := by
  cases cs with
  | nil =>
    cases h with
    | lineFeed h => subst h; rfl
  | cons c cs =>
    by_cases hc : c = '.'
    · subst hc
      exact (h.tail (by decide)).takeWhile_append (by decide)
    · simp [Numeral.fractionOf, hc]

theorem read?_append (h : Seam t cs) : Numeral.read? (cs ++ t) = Numeral.read? cs := by
  have hp : Stops Char.isDigit := by decide
  have hsign := h.drop_signOf
  have hdrop : (cs ++ t).drop (Numeral.signOf cs).length = cs.drop (Numeral.signOf cs).length ++ t :=
    List.drop_append_of_le_length (Numeral.signOf_prefix cs).length_le
  unfold Numeral.read?
  rw [h.signOf_append, hdrop]
  simp only [hsign.takeWhile_append hp, hsign.dropWhile_append hp, (hsign.dropWhile hp.1).fractionOf_append]

theorem scanNumber_append (h : Seam t cs) {n : Numeral} (hn : n.raw <+: cs) (hne : (scanNumber n cs).rest ≠ []) :
    scanNumber n (cs ++ t) = (scanNumber n cs).extend t := by
  have hdrop : (cs ++ t).drop n.raw.length = cs.drop n.raw.length ++ t :=
    List.drop_append_of_le_length hn.length_le
  unfold scanNumber at hne ⊢
  rw [hdrop]
  have hsuffix := List.drop_suffix n.raw.length cs
  generalize cs.drop n.raw.length = s at hne hsuffix ⊢
  have hs : s ≠ [] := by
    rintro rfl
    exact hne rfl
  have hseam := h.of_suffix hsuffix hs
  dsimp only at hne ⊢
  rw [hseam.startsIdent_append]
  split_ifs at hne ⊢
  · rw [hseam.run_append (r := nameReader) readsOn_namePiece? hne]
    rfl
  · obtain ⟨c, rest, rfl⟩ := List.exists_cons_of_ne_nil hs
    by_cases hc : c = '%'
    · subst hc
      rfl
    · simp [hc, Scan.extend]

theorem rangeEnd_append (h : Seam t cs) : rangeEnd (cs ++ t) = rangeEnd cs := by
  cases cs with
  | nil =>
    cases h with
    | lineFeed h => subst h; rfl
  | cons c cs =>
    by_cases hc : c = '-'
    · subst hc
      exact (h.tail (by decide)).takeUpTo_append (by decide) 6
    · simp [rangeEnd, hc]

theorem scanRange_append (h : Seam t cs) (opening : List Char) :
    scanRange opening (cs ++ t) = (scanRange opening cs).extend t := by
  have hp : Stops isRangeDigit := by decide
  have hseam := h.drop_takeUpTo hp.1 6
  unfold scanRange
  simp only [h.takeUpTo_append hp, drop_takeUpTo_append, hseam.rangeEnd_append]
  split_ifs with hsecond
  · rfl
  · have hlength := congrArg List.length (rangeEnd_append_drop hsecond)
    rw [List.length_append, List.length_cons] at hlength
    rw [List.drop_append_of_le_length (by omega)]
    rfl

end Seam

/-! ## Forms -/

/-- Where the front of a text makes no token of a form, no longer text does, and a token that ends before the text
does ends there in the longer text. Only the first character of a token may be a line feed. -/
structure Form.Local (f : Form) : Prop where
  divider : ∀ e ∈ f.opening, ∀ d ∈ dividers, e d = false
  lineFeed : ∀ e ∈ f.opening.tail, e '\n' = false
  finish : ∀ (taken : List Char) {t cs : List Char}, Seam t cs →
    match f.finish? taken cs with
    | none => f.finish? taken (cs ++ t) = none
    | some s => s.rest ≠ [] → f.finish? taken (cs ++ t) = some (s.extend t)

namespace Form

theorem local_range : range.Local := by
  refine ⟨by simp [range], by simp [range], fun taken t cs h => ?_⟩
  rcases cs with _ | ⟨c, cs⟩
  · cases h with
    | lineFeed h => subst h; rfl
  · have hscan := h.scanRange_append taken
    rw [List.cons_append] at hscan ⊢
    by_cases hc : isRangeDigit c = true
    · simp [range, hc, hscan]
    · simp [range, hc]

theorem local_name : name.Local := by
  refine ⟨fun _ h => absurd h List.not_mem_nil, fun _ h => absurd h List.not_mem_nil, fun taken t cs h => ?_⟩
  dsimp only [name]
  rw [h.startsIdent_append]
  split_ifs
  · exact fun hne => congrArg some (h.scanName_append hne)
  · rfl

theorem local_marked {mark : Char} {starts : List Char → Bool} {kind : String → TokenKind}
    (hmark : mark ∉ dividers) (hstarts : ∀ {t cs}, Seam t cs → starts (cs ++ t) = starts cs) :
    (marked mark starts kind).Local := by
  refine ⟨?_, fun _ h => absurd h List.not_mem_nil, fun taken t cs h => ?_⟩
  · intro e he d hd
    obtain rfl := List.mem_singleton.mp he
    exact beq_false_of_ne (ne_of_mem_of_not_mem hd hmark)
  dsimp only [marked]
  rw [hstarts h]
  split_ifs
  · intro hne
    rw [h.run_append (r := nameReader) Seam.readsOn_namePiece? hne]
    rfl
  · rfl

theorem local_number : number.Local := by
  refine ⟨fun _ h => absurd h List.not_mem_nil, fun _ h => absurd h List.not_mem_nil, fun taken t cs h => ?_⟩
  dsimp only [number]
  rw [h.read?_append]
  cases hn : Numeral.read? cs with
  | none => rfl
  | some n => exact fun hne => congrArg some (h.scanNumber_append (Numeral.read?_raw hn).2 hne)

theorem local_quoted {quote : Char} (hquote : quote ∉ dividers) : (quoted quote).Local := by
  refine ⟨?_, fun _ h => absurd h List.not_mem_nil, fun taken t cs h hne => ?_⟩
  · intro e he d hd
    obtain rfl := List.mem_singleton.mp he
    exact beq_false_of_ne (ne_of_mem_of_not_mem hd hquote)
  dsimp only [quoted]
  rw [h.readQuoted_append quote hne]
  rfl

theorem local_spaces : spaces.Local := by
  refine ⟨by simp [spaces]; decide, fun _ h => absurd h List.not_mem_nil, fun taken t cs h hne => ?_⟩
  dsimp only [spaces]
  rw [takeWhile_append_of_ends hne, dropWhile_append_of_ends hne]
  rfl

theorem commentLength_append {cs : List Char} (h : commentLength cs < cs.length) (t : List Char) :
    commentLength (cs ++ t) = commentLength cs := by
  fun_induction commentLength cs with
  | case1 cs => rfl
  | case2 c cs hend ih =>
    have hlt : commentLength cs < cs.length := by
      rw [List.length_cons] at h
      omega
    have hend' : ∀ s, c = '*' → cs ++ t ≠ '/' :: s := by
      intro s hc hs
      cases cs with
      | nil => exact absurd hlt (Nat.not_lt_zero _)
      | cons d cs =>
        obtain ⟨rfl, -⟩ := List.cons_eq_cons.mp hs
        exact hend cs hc rfl
    rw [List.cons_append, commentLength, ih hlt]
    exact hend'
  | case3 => exact absurd h (Nat.not_lt_zero _)

theorem local_comment : comment.Local := by
  refine ⟨by simp [comment], by simp [comment], fun taken t cs h hne => ?_⟩
  have hlt : commentLength cs < cs.length := by
    by_contra hge
    exact hne (List.drop_eq_nil_of_le (by omega))
  dsimp only [comment]
  rw [commentLength_append hlt, List.take_append_of_le_length hlt.le, List.drop_append_of_le_length hlt.le]
  rfl

theorem local_symbol {first : Char → Bool} {more : List (Char → Bool)} {kind : TokenKind}
    (h : ∀ e ∈ first :: more, ∀ d ∈ dividers, e d = false) (hmore : ∀ e ∈ more, e '\n' = false) :
    (symbol first more kind).Local :=
  ⟨h, hmore, fun _ _ _ _ _ => rfl⟩

theorem local_of_mem_all {f : Form} (hf : f ∈ all) : f.Local := by
  have hall : ∀ f ∈ all, f.Local := by
    unfold all
    simp only [List.forall_mem_cons]
    refine ⟨local_range, local_name, local_marked (by decide) Seam.startsIdent_append, local_number,
      local_marked (by decide) Seam.isSome_namePiece?_append, local_quoted (by decide), local_quoted (by decide),
      local_spaces, local_comment, local_symbol ?_ ?_, local_symbol ?_ ?_, local_symbol ?_ ?_, local_symbol ?_ ?_,
      local_symbol ?_ ?_, local_symbol ?_ ?_, local_symbol ?_ ?_, local_symbol ?_ ?_,
      fun _ h => absurd h List.not_mem_nil⟩
    all_goals simp
  exact hall f hf

/-! ## Attempts -/

theorem follow_append {es : List (Char → Bool)} (hes : ∀ e ∈ es, Stops e) (taken : List Char)
    {t cs : List Char} (h : Seam t cs) :
    Seam t (Probe.follow es ⟨taken, cs⟩).2.rest ∧
      Probe.follow es ⟨taken, cs ++ t⟩ = ((Probe.follow es ⟨taken, cs⟩).1,
        ⟨(Probe.follow es ⟨taken, cs⟩).2.taken, (Probe.follow es ⟨taken, cs⟩).2.rest ++ t⟩) := by
  induction es generalizing taken cs with
  | nil => exact ⟨h, rfl⟩
  | cons e es ih =>
    obtain ⟨he, hes⟩ := List.forall_mem_cons.mp hes
    rcases cs with _ | ⟨c, cs⟩
    · refine ⟨h, ?_⟩
      cases h with
      | lineFeed h =>
        subst h
        simp [Probe.follow, he.2]
    rw [List.cons_append]
    by_cases hc : e c = true
    · have hcs : Seam t cs := h.tail fun hmem => by simp [he.1 c hmem] at hc
      obtain ⟨hseam, hfollow⟩ := ih hes (c :: taken) hcs
      simp only [Probe.follow, hc, if_true, Probe.bump, hfollow]
      exact ⟨hseam, trivial⟩
    · simp only [Probe.follow, hc]
      exact ⟨h, rfl⟩

theorem Local.follow_append {f : Form} (hf : f.Local) {c : Char} {t cs : List Char} (h : Seam t (c :: cs)) :
    Seam t (Probe.follow f.opening ⟨[], c :: cs⟩).2.rest ∧
      Probe.follow f.opening ⟨[], c :: cs ++ t⟩ = ((Probe.follow f.opening ⟨[], c :: cs⟩).1,
        ⟨(Probe.follow f.opening ⟨[], c :: cs⟩).2.taken, (Probe.follow f.opening ⟨[], c :: cs⟩).2.rest ++ t⟩) := by
  have hdivider := hf.divider
  have hline := hf.lineFeed
  revert hdivider hline
  cases f.opening with
  | nil => exact fun _ _ => ⟨h, rfl⟩
  | cons e es =>
    intro hdivider hline
    by_cases hc : e c = true
    · have hcs : Seam t cs := h.tail fun hmem => by simp [hdivider e List.mem_cons_self c hmem] at hc
      have hes : ∀ e ∈ es, Stops e := fun e he => ⟨hdivider e (List.mem_cons_of_mem _ he), hline e he⟩
      obtain ⟨hseam, hfollow⟩ := Form.follow_append hes [c] hcs
      simp only [List.cons_append, Probe.follow, hc, if_true, Probe.bump, hfollow]
      exact ⟨hseam, trivial⟩
    · simp only [List.cons_append, Probe.follow, hc]
      exact ⟨h, rfl⟩

/-- An attempt at the front of a text decides that on the longer text, unless it goes on to the end of the text. -/
theorem attempt?_append {f : Form} (hf : f.Local) {c : Char} {t cs : List Char} (h : Seam t (c :: cs)) :
    match f.attempt? (.start (c :: cs)) with
    | some (.found s) => s.rest ≠ [] → f.attempt? (.start (c :: cs ++ t)) = some (.found (s.extend t))
    | _ => f.attempt? (.start (c :: cs ++ t)) = some (.givenBack (.start (c :: cs ++ t))) := by
  obtain ⟨hseam, hfollow⟩ := hf.follow_append h
  have hback := Probe.giveBack?_follow f.opening (.start (c :: cs ++ t))
  have hfinish := hf.finish (Probe.follow f.opening ⟨[], c :: cs⟩).2.taken.reverse hseam
  unfold attempt? Probe.start at *
  rw [hfollow] at hback ⊢
  generalize Probe.follow f.opening ⟨[], c :: cs⟩ = nq at *
  obtain ⟨n, q⟩ := nq
  dsimp only at *
  by_cases hn : n = f.opening.length
  · rw [if_pos hn, if_pos hn]
    cases hs : f.finish? q.taken.reverse q.rest with
    | none =>
      rw [hs] at hfinish
      rw [hfinish, hback]
      split
      · rename_i he
        simp at he
      · rfl
    | some s =>
      rw [hs] at hfinish
      intro hne
      rw [hfinish hne]
  · rw [if_neg hn, if_neg hn, hback]
    split
    · rename_i he
      simp at he
    · rfl

theorem attemptAll?_append (fs : List Form) (hfs : ∀ f ∈ fs, f.Local) {c : Char} {t cs : List Char}
    (h : Seam t (c :: cs)) :
    match attemptAll? fs (.start (c :: cs)) with
    | some (.found s) => s.rest ≠ [] → attemptAll? fs (.start (c :: cs ++ t)) = some (.found (s.extend t))
    | _ => attemptAll? fs (.start (c :: cs ++ t)) = some (.givenBack (.start (c :: cs ++ t))) := by
  induction fs with
  | nil => rfl
  | cons f fs ih =>
    obtain ⟨hf, hfs⟩ := List.forall_mem_cons.mp hfs
    have hattempt := attempt?_append hf h
    unfold attemptAll?
    rcases f.attempt?_start (c :: cs) with he | ⟨s, he, -⟩
    · rw [he] at hattempt
      rw [he, hattempt]
      exact ih hfs
    · rw [he] at hattempt
      rw [he]
      intro hne
      rw [hattempt hne]

end Form

/-! ## Items -/

theorem scan_eq_of_scan? {c : Char} {cs : List Char} {s : Scan} (h : scan? c cs = some s) : scan c cs = s := by
  unfold scan
  simp only [h, Option.get_some]

/-- A scan that ends before the text does ends there in the longer text. -/
theorem scan_append {c : Char} {t cs : List Char} (h : Seam t (c :: cs)) (hne : (scan c cs).rest ≠ []) :
    scan c (cs ++ t) = (scan c cs).extend t := by
  have hall := Form.attemptAll?_append Form.all (fun _ => Form.local_of_mem_all) h
  obtain ⟨s, hs, -⟩ := exists_scan? c cs
  rw [scan_eq_of_scan? hs] at hne ⊢
  apply scan_eq_of_scan?
  unfold scan? at hs ⊢
  obtain ⟨a, ha, rfl⟩ := Option.map_eq_some_iff.mp hs
  rw [ha] at hall
  rw [List.cons_append] at hall
  cases a with
  | found s => rw [hall hne, Option.map_some]
  | givenBack p =>
    have hp : p = .start (c :: cs) := by
      rcases Form.attemptAll?_start Form.all (c :: cs) with h | ⟨s, h, -⟩
      · rw [ha] at h
        cases h
        rfl
      · rw [ha] at h
        cases h
    rw [hall, Option.map_some, hp]
    rfl

/-- A divider is a token by itself. -/
theorem scan_divider {d : Char} (hd : d ∈ dividers) (t : List Char) :
    scan d t = ⟨some ((TokenKind.ofChar? d).getD (.delim d)), [d], t⟩ := by
  have hback : ∀ d ∈ dividers, Form.attemptAll? Form.all (.start [d]) = some (.givenBack (.start [d])) :=
    forall_mem_dividers.mpr ⟨by cbv, by cbv, by cbv⟩
  have hall := Form.attemptAll?_append Form.all (fun _ => Form.local_of_mem_all) (.divider hd (t := t))
  rw [hback d hd] at hall
  apply scan_eq_of_scan?
  unfold scan?
  rw [show d :: t = [d] ++ t from rfl, hall]
  rfl

theorem scan_brace (t : List Char) : scan '}' t = ⟨some (.punct .rightBrace), ['}'], t⟩ :=
  scan_divider (by decide) t

/-- Spaces are read up to the next character that is none. -/
theorem scan_space {c : Char} (h : isSpace c) (t : List Char) :
    scan c t = ⟨some .space, c :: t.takeWhile isSpace, t.dropWhile isSpace⟩ := by
  apply scan_eq_of_scan?
  unfold isSpace at h
  simp only [Bool.or_eq_true, beq_iff_eq] at h
  rcases h with (((rfl | rfl) | rfl) | rfl) | rfl
  all_goals rfl

namespace Cursor

theorem items_divider {d : Char} (hd : d ∈ dividers) (n : ℕ) (t : List Char) :
    items ⟨n, d :: t⟩ = .token ⟨(TokenKind.ofChar? d).getD (.delim d), [d], n⟩ :: items ⟨n + 1, t⟩ := by
  rw [items_cons, scan_divider hd]
  rfl

/-- All items of a text but the last one are items of the longer text. -/
theorem items_append {cs t : List Char} {n : ℕ} {is : List Item} {i : Item} (h : items ⟨n, cs⟩ = is ++ [i])
    (hseam : Seam t cs) :
    items ⟨n, cs ++ t⟩ = is ++ items ⟨n + (is.flatMap Item.lexeme).length, i.lexeme ++ t⟩ := by
  induction is generalizing n cs with
  | nil =>
    have htext := flatMap_lexeme_items ⟨n, cs⟩
    rw [h] at htext
    rw [← show i.lexeme = cs by simpa using htext]
    rfl
  | cons j is ih =>
    cases cs with
    | nil =>
      rw [items_nil] at h
      cases h
    | cons c cs =>
      obtain ⟨-, hsplits⟩ := scan_splits c cs
      rw [items_cons] at h
      obtain ⟨hj, hrest⟩ := List.cons_eq_cons.mp h
      have hne : (scan c cs).rest ≠ [] := by
        intro hnil
        rw [hnil, items_nil] at hrest
        exact List.append_ne_nil_of_right_ne_nil is (List.cons_ne_nil i []) hrest.symm
      have hlexeme : j.lexeme = (scan c cs).lexeme := by rw [← hj, Item.lexeme_ofScan]
      have hitems := ih hrest (hseam.of_suffix ⟨_, hsplits⟩ hne)
      calc items ⟨n, c :: cs ++ t⟩
        _ = j :: items ⟨n + (scan c cs).lexeme.length, (scan c cs).rest ++ t⟩ := by
          rw [← hj, List.cons_append, items_cons, scan_append hseam hne]
          rfl
        _ = j :: is ++ items ⟨n + ((j :: is).flatMap Item.lexeme).length, i.lexeme ++ t⟩ := by
          rw [hitems, List.flatMap_cons, List.length_append, hlexeme, Nat.add_assoc, List.cons_append]

/-- The items of a text that ends with the token of a divider are the first of every longer text. -/
theorem items_append_of_divider {cs : List Char} {d : Char} (hd : d ∈ dividers) {k : TokenKind} {n m : ℕ}
    {is : List Item} (h : items ⟨n, cs⟩ = is ++ [.token ⟨k, [d], m⟩]) (t : List Char) :
    items ⟨n, cs ++ t⟩ = is ++ .token ⟨k, [d], m⟩ :: items ⟨m + 1, t⟩ := by
  have hcs : cs = is.flatMap Item.lexeme ++ [d] := by
    have htext := flatMap_lexeme_items ⟨n, cs⟩
    rw [h, List.flatMap_append, List.flatMap_singleton] at htext
    exact htext.symm
  have hseam : ∀ t, Seam t cs := by
    intro t
    rw [hcs]
    exact .append_divider hd _ t
  have hlonger : ∀ t, items ⟨n, cs ++ t⟩ =
      is ++ .token ⟨(TokenKind.ofChar? d).getD (.delim d), [d], n + (is.flatMap Item.lexeme).length⟩ ::
        items ⟨n + (is.flatMap Item.lexeme).length + 1, t⟩ := by
    intro t
    rw [items_append h (hseam t)]
    exact congrArg (is ++ ·) (items_divider hd _ t)
  have hend := hlonger []
  rw [List.append_nil, h, items_nil] at hend
  cases List.append_cancel_left hend
  exact hlonger t

end Cursor

end SlotGrid.Style
