import SlotGrid.Proofs.Style.Figures
import SlotGrid.Proofs.Style.Spelling

/-! # Names

A name is made of items: characters of names, which stand for themselves, and escapes. The digits of an escape are as
many as there are, up to six, and the escape takes the space behind them with it, so there is one way only to divide a
text into items. The name that a token has is what the longest run of items at its place stands for.
-/

namespace SlotGrid.Style

/-! ## Items and runs -/

/-- A code point stands for its character. Zero, a surrogate and what is above U+10FFFF stand for U+FFFD. -/
def StandsFor (n : ℕ) (c : Char) : Prop :=
  if n = 0 ∨ (0xd800 ≤ n ∧ n ≤ 0xdfff) ∨ 0x10ffff < n then c = '\ufffd' else c.toNat = n

/-- What an escape takes with it behind its digits: one space if there is one, and what follows a carriage return. -/
inductive Closes : List Char → List Char → Prop
  | none {rest : List Char} (h : ∀ c ∈ rest.head?, isSpace c = false) : Closes [] rest
  | space {c : Char} {rest : List Char} (hc : isSpace c = true)
    (h : c = '\r' → ∀ d ∈ rest.head?, (d == '\n' || d == '\x0c') = false) : Closes [c] rest
  | pair {c : Char} {rest : List Char} (hc : c = '\n' ∨ c = '\x0c') : Closes ['\r', c] rest

/-- An item of a name, the character that it stands for, and what is behind it. -/
inductive IsItem : List Char → Char → List Char → Prop
  | literal {c : Char} {rest : List Char} (h : isNameChar c = true) : IsItem [c] c rest
  | escaped {c : Char} {rest : List Char} (hdigit : isHexDigit c = false) (hbreak : isLineBreak c = false) :
    IsItem ['\\', c] c rest
  | code {c : Char} {digits closing rest : List Char} (hne : digits ≠ [])
    (hdigits : ∀ d ∈ digits, isHexDigit d = true) (hlength : digits.length ≤ 6)
    (hmore : digits.length = 6 ∨ ∀ d ∈ (closing ++ rest).head?, isHexDigit d = false) (hclosing : Closes closing rest)
    (hc : StandsFor (Nat.ofDigits 16 (digits.reverse.map hexValue)) c) : IsItem ('\\' :: (digits ++ closing)) c rest

/-- Items one behind the other, the characters that they stand for, and what is behind them. -/
inductive IsRun : List Char → List Char → List Char → Prop
  | nil (rest : List Char) : IsRun [] [] rest
  | cons {c : Char} {x raw decoded rest : List Char} (h : IsItem x c (raw ++ rest)) (hs : IsRun raw decoded rest) :
    IsRun (x ++ raw) (c :: decoded) rest

/-- The longest run of items at a place: no item is in front of what is behind it, and all runs at the place are
beginnings of it. -/
structure IsName (raw decoded rest : List Char) : Prop where
  run : IsRun raw decoded rest
  ends : ∀ x c y, IsItem x c y → x ++ y ≠ rest
  longest : ∀ raw' decoded' rest', IsRun raw' decoded' rest' → raw' ++ rest' = raw ++ rest →
    raw' <+: raw ∧ decoded' <+: decoded

variable {c : Char} {cs raw rest decoded : List Char} {p : Piece}

theorem standsFor_iff {n : ℕ} : StandsFor n c ↔ c = decodeCode n := by
  unfold StandsFor decodeCode
  have hvalid : (n ≠ 0 ∧ n.isValidChar) ↔ ¬ (n = 0 ∨ (0xd800 ≤ n ∧ n ≤ 0xdfff) ∨ 0x10ffff < n) := by
    unfold Nat.isValidChar
    omega
  by_cases h : n = 0 ∨ (0xd800 ≤ n ∧ n ≤ 0xdfff) ∨ 0x10ffff < n
  · rw [if_pos h, if_neg (by rw [hvalid]; exact not_not.mpr h)]
  · have hn := hvalid.mpr h
    have htoNat : (Char.ofNat n).toNat = n := by rw [Char.toNat_ofNat, if_pos hn.2]
    rw [if_neg h, if_pos hn]
    constructor
    · rintro rfl
      exact (Char.ofNat_toNat c).symm
    · rintro rfl
      exact htoNat

theorem hexNumber_eq (digits : List Char) : hexNumber digits = Nat.ofDigits 16 (digits.reverse.map hexValue) := by
  unfold hexNumber
  rw [Nat.ofDigits_eq_foldr, List.foldr_map, List.foldr_reverse]
  simp only [Nat.cast_id, Nat.add_comm]

theorem closes_iff {closing : List Char} : Closes closing rest ↔ digitsEnd (closing ++ rest) = closing := by
  constructor
  · rintro (h | ⟨hc, h⟩ | (rfl | rfl))
    · exact digitsEnd_eq_nil.mpr h
    · exact digitsEnd_eq_singleton.mpr ⟨hc, h⟩
    · rfl
    · rfl
  · intro h
    rcases closing with _ | ⟨d, _ | ⟨e, closing⟩⟩
    · exact .none (digitsEnd_eq_nil.mp h)
    · exact .space (digitsEnd_eq_singleton.mp h).1 (digitsEnd_eq_singleton.mp h).2
    · generalize hs : d :: e :: closing ++ rest = s at h
      fun_cases digitsEnd s with
      | case1 => cases h; exact .pair (.inl rfl)
      | case2 => cases h; exact .pair (.inr rfl)
      | case3 => simp_all [digitsEnd]
      | case4 => simp_all [digitsEnd]
      | case5 => cases hs

theorem takeUpTo_eq_iff {q : Char → Bool} {n : ℕ} {x s : List Char} :
    takeUpTo q n (x ++ s) = x ↔
      (∀ d ∈ x, q d = true) ∧ x.length ≤ n ∧ (x.length = n ∨ ∀ d ∈ s.head?, q d = false) := by
  induction x generalizing n with
  | nil =>
    cases n with
    | zero => simp [takeUpTo]
    | succ n => cases s <;> simp [takeUpTo]
  | cons d x ih =>
    cases n with
    | zero => simp [takeUpTo]
    | succ n =>
      by_cases hd : q d = true
      · simp [takeUpTo, hd, ih]
      · simp [takeUpTo, hd]

theorem isItem_of_escapeAfter (h : escapeAfter cs = some (p, rest)) :
    ∃ c, p.decoded = [c] ∧ '\\' :: cs = p.raw ++ rest ∧ IsItem p.raw c rest := by
  obtain ⟨hraw_ne, hraw⟩ := escapeAfter_sound h
  obtain ⟨d, x, hx⟩ := List.exists_cons_of_ne_nil hraw_ne
  rw [hx, List.cons_append] at hraw
  obtain ⟨rfl, rfl⟩ := List.cons.inj hraw
  rcases escapeAfter_eq_some.mp h with ⟨c, rfl, hbreak, hdigits, rfl⟩ |
    ⟨digits, closing, rfl, hne, hdigits, hclosing, rfl⟩
  · have hdigit : isHexDigit c = false := by
      by_contra hc
      simp [takeUpTo, hc] at hdigits
    exact ⟨c, rfl, rfl, .escaped hdigit hbreak⟩
  · rw [List.append_assoc] at hdigits
    obtain ⟨hall, hlength, hmore⟩ := takeUpTo_eq_iff.mp hdigits
    refine ⟨_, rfl, rfl, .code hne hall hlength hmore (closes_iff.mpr hclosing) ?_⟩
    rw [standsFor_iff, hexNumber_eq]

/-- The items of names are what is read of them. -/
theorem namePiece?_eq_some_iff :
    namePiece? cs = some (p, rest) ↔ ∃ c, p.decoded = [c] ∧ cs = p.raw ++ rest ∧ IsItem p.raw c rest := by
  constructor
  · intro h
    fun_cases namePiece? cs with
    | case1 cs => exact isItem_of_escapeAfter h
    | case2 c cs hstroke hc =>
      rw [namePiece?, if_pos hc] at h
      · cases h
        exact ⟨c, rfl, rfl, .literal hc⟩
      · exact hstroke
    | case3 => simp_all [namePiece?]
    | case4 => cases h
  · rintro ⟨c, hdecoded, rfl, h⟩
    obtain ⟨raw, decoded⟩ := p
    dsimp only at hdecoded h ⊢
    subst hdecoded
    cases h with
    | literal hc =>
      have hstroke : c ≠ '\\' := fun hc' => absurd (hc' ▸ hc) (by decide)
      change namePiece? (c :: rest) = _
      unfold namePiece?
      split <;> simp_all [Piece.literal]
    | escaped hdigit hbreak =>
      exact escapeAfter_eq_some.mpr (.inl ⟨c, rfl, hbreak, by simp [takeUpTo, hdigit], rfl⟩)
    | @code c digits closing _ hne hdigits hlength hmore hclosing hc =>
      refine escapeAfter_eq_some.mpr (.inr ⟨digits, closing, rfl, hne, ?_, closes_iff.mp hclosing, ?_⟩)
      · rw [List.append_assoc]
        exact takeUpTo_eq_iff.mpr ⟨hdigits, hlength, hmore⟩
      · rw [standsFor_iff.mp hc, hexNumber_eq]

/-! ## The longest run -/

theorem isRun_run (cs : List Char) :
    IsRun (rawText (nameReader.run cs).1) ((nameReader.run cs).1.flatMap Piece.decoded) (nameReader.run cs).2 := by
  fun_induction PieceReader.run nameReader cs with
  | case1 cs => exact .nil cs
  | case2 cs p rest h ih =>
    obtain ⟨c, hc, -, hitem⟩ := namePiece?_eq_some_iff.mp h
    rw [← nameReader.rawText_run rest] at hitem
    have hrun := IsRun.cons hitem ih
    rw [← List.singleton_append, ← hc] at hrun
    exact hrun

/-- Items are read one by one, and then what is behind them. -/
theorem IsRun.exists_run (h : IsRun raw decoded rest) :
    ∃ ps, nameReader.run (raw ++ rest) = (ps ++ (nameReader.run rest).1, (nameReader.run rest).2) ∧
      rawText ps = raw ∧ ps.flatMap Piece.decoded = decoded := by
  induction h with
  | nil => exact ⟨[], rfl, rfl, rfl⟩
  | @cons c x raw decoded rest h hs ih =>
    obtain ⟨ps, hrun, rfl, rfl⟩ := ih
    have hread : nameReader.read (x ++ rawText ps ++ rest) = some (⟨x, [c]⟩, rawText ps ++ rest) :=
      namePiece?_eq_some_iff.mpr ⟨c, rfl, List.append_assoc x (rawText ps) rest, h⟩
    exact ⟨⟨x, [c]⟩ :: ps, by rw [PieceReader.run_of_some hread, hrun, List.cons_append], rfl, rfl⟩

theorem IsRun.prefix_run (h : IsRun raw decoded rest) :
    raw <+: rawText (nameReader.run (raw ++ rest)).1 ∧
      decoded <+: (nameReader.run (raw ++ rest)).1.flatMap Piece.decoded := by
  obtain ⟨ps, hrun, rfl, rfl⟩ := h.exists_run
  rw [hrun]
  unfold rawText
  dsimp only
  rw [List.flatMap_append, List.flatMap_append]
  exact ⟨List.prefix_append _ _, List.prefix_append _ _⟩

theorem isName_run (cs : List Char) :
    IsName (rawText (nameReader.run cs).1) (decodedText (nameReader.run cs).1).toList (nameReader.run cs).2 := by
  rw [decodedText, String.toList_ofList]
  refine ⟨isRun_run cs, fun x c y h hrest => ?_, fun raw decoded rest h htext => ?_⟩
  · have hread : nameReader.read (x ++ y) = some (⟨x, [c]⟩, y) := namePiece?_eq_some_iff.mpr ⟨c, rfl, rfl, h⟩
    rw [hrest, nameReader.read_run] at hread
    cases hread
  · rw [nameReader.rawText_run] at htext
    exact htext ▸ h.prefix_run

/-! ## Identifiers -/

/-- A text that a name starts with: an escape, or a character that is neither a digit nor a dash. -/
def StartsName (cs : List Char) : Prop :=
  ∃ x c rest, IsItem x c rest ∧ cs = x ++ rest ∧ (x = [c] → c.isAlpha = true ∨ c = '_' ∨ isForeign c = true)

/-- A name that starts so, with or without a dash in front. -/
structure IsIdentifier (raw decoded rest : List Char) : Prop extends IsName raw decoded rest where
  start : ∃ dash cs, (dash = [] ∨ dash = ['-']) ∧ raw ++ rest = dash ++ cs ∧ StartsName cs

theorem startsName_of_startsEscape (h : startsEscape ('\\' :: cs) = true) : StartsName ('\\' :: cs) := by
  obtain ⟨p, rest, hp⟩ := startsEscape_iff.mp h
  obtain ⟨c, -, hraw, hitem⟩ := isItem_of_escapeAfter hp
  refine ⟨p.raw, c, rest, hitem, hraw, fun hx => ?_⟩
  rw [hx] at hitem hraw
  obtain ⟨rfl, -⟩ := List.cons.inj hraw
  generalize hstroke : ['\\'] = x at hitem
  cases hitem with
  | literal hchar => exact absurd hchar (by decide)
  | escaped => cases hstroke
  | code hne => simp_all

theorem startsName_of_isNameStart (hstroke : c ≠ '\\') (h : isNameStart c = true) (cs : List Char) :
    StartsName (c :: cs) := by
  have hstart : c.isAlpha = true ∨ c = '_' ∨ isForeign c = true := by
    simpa [isNameStart, hstroke, or_assoc] using h
  have hchar : isNameChar c = true := by
    simp only [isNameChar, Char.isAlphanum, Bool.or_eq_true, beq_iff_eq]
    tauto
  exact ⟨[c], c, cs, .literal hchar, rfl, fun _ => hstart⟩

theorem exists_of_startsIdent (h : startsIdent cs = true) :
    ∃ dash cs', (dash = [] ∨ dash = ['-']) ∧ cs = dash ++ cs' ∧ StartsName cs' := by
  fun_cases startsIdent cs with
  | case1 cs => exact ⟨['-'], _, .inr rfl, rfl, startsName_of_startsEscape h⟩
  | case2 c cs hstroke =>
    have hc : c ≠ '\\' := fun hc => hstroke hc
    rw [startsIdent_dash hc] at h
    exact ⟨['-'], _, .inr rfl, rfl, startsName_of_isNameStart hc h cs⟩
  | case3 cs => exact ⟨[], _, .inl rfl, rfl, startsName_of_startsEscape h⟩
  | case4 c cs hdash hdash' hstroke =>
    have hstart : isNameStart c = true := by
      unfold startsIdent at h
      split at h <;> simp_all
    have hc : c ≠ '\\' := fun hc => hstroke hc
    exact ⟨[], _, .inl rfl, rfl, startsName_of_isNameStart hc hstart cs⟩
  | case5 => cases h

/-! ## Tokens -/

def TokenKind.hasName : TokenKind → Bool
  | .ident _ | .function _ | .atKeyword _ | .hash _ | .dimension _ _ => true
  | _ => false

/-- How a token with a name is written, and what is behind it. -/
inductive Names : TokenKind → List Char → List Char → Prop
  | ident {name : String} {raw after : List Char} (h : IsIdentifier raw name.toList after) :
    Names (.ident name) raw after
  | function {name : String} {raw after : List Char} (h : IsIdentifier raw name.toList ('(' :: after)) :
    Names (.function name) (raw ++ ['(']) after
  | atKeyword {name : String} {raw after : List Char} (h : IsIdentifier raw name.toList after) :
    Names (.atKeyword name) ('@' :: raw) after
  | hash {name : String} {raw after : List Char} (hne : raw ≠ []) (h : IsName raw name.toList after) :
    Names (.hash name) ('#' :: raw) after
  | dimension {n : Numeral} {unit : String} {raw after : List Char} (hn : n.Written) (hend : n.EndsAt (raw ++ after))
    (h : IsIdentifier raw unit.toList after) : Names (.dimension n.value unit) (n.raw ++ raw) after

theorem isIdentifier_run (h : startsIdent cs = true) :
    IsIdentifier (rawText (nameReader.run cs).1) (decodedText (nameReader.run cs).1).toList (nameReader.run cs).2 := by
  refine ⟨isName_run cs, ?_⟩
  rw [nameReader.rawText_run]
  exact exists_of_startsIdent h

theorem names_scanName {k : TokenKind} (h : startsIdent cs = true) (hk : (scanName cs).kind? = some k)
    (hname : k.hasName = true) : Names k (scanName cs).lexeme (scanName cs).rest := by
  have hidentifier := isIdentifier_run h
  unfold scanName at hk ⊢
  dsimp only at hk ⊢
  split at hk
  · rename_i rest hrest
    rw [hrest] at hidentifier
    split_ifs at hk ⊢ with hurl
    · unfold scanAddress at hk
      dsimp only at hk
      split at hk
      · cases hk
        cases hname
      · cases hk
    · cases hk
      exact .function hidentifier
  · cases hkeyword : TokenKind.keyword? (decodedText (nameReader.run cs).1) with
    | none =>
      rw [hkeyword] at hk
      cases hk
      exact .ident hidentifier
    | some w =>
      rw [hkeyword] at hk
      cases hk
      cases hname

theorem names_scanNumber {n : Numeral} {k : TokenKind} (h : Numeral.read? cs = some n)
    (hk : (scanNumber n cs).kind? = some k) (hname : k.hasName = true) :
    Names k (scanNumber n cs).lexeme (scanNumber n cs).rest := by
  obtain ⟨s, rfl, hn, hend⟩ := Numeral.exists_of_read? h
  unfold scanNumber at hk ⊢
  rw [List.drop_left] at hk ⊢
  dsimp only at hk ⊢
  split_ifs at hk ⊢ with hunit
  · cases hk
    refine .dimension hn ?_ (isIdentifier_run hunit)
    rwa [nameReader.rawText_run]
  · split at hk
    all_goals
      cases hk
      cases hname

namespace Form

/-- A form makes tokens with the names that are written in them. -/
def NamesTokens (f : Form) : Prop :=
  ∀ (taken rest : List Char) (s : Scan) (k : TokenKind), List.Forall₂ (fun d e => e d = true) taken f.opening →
    f.finish? taken rest = some s → s.kind? = some k → k.hasName = true → Names k s.lexeme s.rest

theorem namesTokens_of_nameless {f : Form}
    (h : ∀ taken rest s k, f.finish? taken rest = some s → s.kind? = some k → k.hasName = false) : f.NamesTokens := by
  intro taken rest s k _ hs hk hname
  rw [h taken rest s k hs hk] at hname
  cases hname

theorem namesTokens_range : range.NamesTokens := by
  refine namesTokens_of_nameless fun taken rest s k hs hk => ?_
  obtain rfl := Option.some.inj (Option.ite_none_right_eq_some.mp hs).2
  unfold scanRange at hk
  dsimp only at hk
  split_ifs at hk
  all_goals
    cases hk
    rfl

theorem namesTokens_name : name.NamesTokens := by
  intro taken rest s k _ hs hk hname
  obtain ⟨hstarts, hs⟩ := Option.ite_none_right_eq_some.mp hs
  obtain rfl := Option.some.inj hs
  exact names_scanName hstarts hk hname

theorem namesTokens_number : number.NamesTokens := by
  intro taken rest s k _ hs hk hname
  obtain ⟨n, hn, rfl⟩ := Option.map_eq_some_iff.mp hs
  exact names_scanNumber hn hk hname

theorem namesTokens_atKeyword : (marked '@' startsIdent .atKeyword).NamesTokens := by
  rintro taken rest s k (_ | ⟨hmark, _ | _⟩) hs hk -
  obtain ⟨hstarts, hs⟩ := Option.ite_none_right_eq_some.mp hs
  obtain rfl := eq_of_beq hmark
  cases hs
  cases hk
  exact .atKeyword (isIdentifier_run hstarts)

theorem namesTokens_hash : (marked '#' (fun cs => (namePiece? cs).isSome) .hash).NamesTokens := by
  rintro taken rest s k (_ | ⟨hmark, _ | _⟩) hs hk -
  obtain ⟨hstarts, hs⟩ := Option.ite_none_right_eq_some.mp hs
  obtain rfl := eq_of_beq hmark
  obtain ⟨⟨p, rest'⟩, hread⟩ := Option.isSome_iff_exists.mp hstarts
  cases hs
  cases hk
  exact .hash (rawText_run_ne_nil hread) (isName_run rest)

theorem namesTokens_of_mem_all {f : Form} (hf : f ∈ all) : f.NamesTokens := by
  have hsymbol : ∀ first more kind, kind.hasName = false → (symbol first more kind).NamesTokens := by
    refine fun first more kind hkind => namesTokens_of_nameless fun taken rest s k hs hk => ?_
    cases hs
    cases hk
    exact hkind
  have hquoted : ∀ quote, (quoted quote).NamesTokens := by
    refine fun quote => namesTokens_of_nameless fun taken rest s k hs hk => ?_
    cases hs
    cases hk
    rfl
  have hspaces : spaces.NamesTokens := by
    refine namesTokens_of_nameless fun taken rest s k hs hk => ?_
    cases hs
    cases hk
    rfl
  have hcomment : comment.NamesTokens := by
    refine namesTokens_of_nameless fun taken rest s k hs hk => ?_
    cases hs
    cases hk
    rfl
  have hall : ∀ f ∈ all, f.NamesTokens := by
    unfold all
    simp only [List.forall_mem_cons]
    exact ⟨namesTokens_range, namesTokens_name, namesTokens_atKeyword, namesTokens_number, namesTokens_hash,
      hquoted _, hquoted _, hspaces, hcomment, hsymbol _ _ _ rfl, hsymbol _ _ _ rfl, hsymbol _ _ _ rfl,
      hsymbol _ _ _ rfl, hsymbol _ _ _ rfl, hsymbol _ _ _ rfl, hsymbol _ _ _ rfl, hsymbol _ _ _ rfl,
      List.forall_mem_nil _⟩
  exact hall f hf

theorem exists_of_attemptAll? {fs : List Form} {s : Scan} (h : attemptAll? fs (.start cs) = some (.found s)) :
    ∃ f ∈ fs, f.attempt? (.start cs) = some (.found s) := by
  induction fs with
  | nil => cases h
  | cons f fs ih =>
    unfold attemptAll? at h
    rcases f.attempt?_start cs with hattempt | ⟨s', hattempt, -⟩
    · rw [hattempt] at h
      obtain ⟨f', hf', h'⟩ := ih h
      exact ⟨f', List.mem_cons_of_mem f hf', h'⟩
    · rw [hattempt] at h
      cases h
      exact ⟨f, List.mem_cons_self, hattempt⟩

end Form

/-- A token that is read has the name that is written there. -/
theorem names_scan {k : TokenKind} (h : (scan c cs).kind? = some k) (hk : k.hasName = true) :
    Names k (scan c cs).lexeme (scan c cs).rest := by
  obtain ⟨s, hs, -⟩ := exists_scan? c cs
  rw [scan_eq_of_scan? hs] at h ⊢
  unfold scan? at hs
  rcases Form.attemptAll?_start Form.all (c :: cs) with hall | ⟨s', hall, -⟩
  · rw [hall] at hs
    cases hs
    cases h
    exfalso
    unfold TokenKind.ofChar? at hk
    split at hk <;> cases hk
  · rw [hall] at hs
    cases hs
    obtain ⟨f, hf, hattempt⟩ := Form.exists_of_attemptAll? hall
    obtain ⟨taken, rest, htaken, -, hfinish⟩ := Form.exists_of_attempt? hattempt
    exact Form.namesTokens_of_mem_all hf _ _ _ _ htaken hfinish h hk

/-- Every item is scanned at its place. -/
theorem Item.exists_scan_at {n : ℕ} {i : Item} (hi : i ∈ Cursor.items ⟨n, cs⟩) :
    ∃ before c rest, cs = before ++ c :: rest ∧ i = .ofScan (n + before.length) (scan c rest) := by
  obtain ⟨front, back, hitems⟩ := List.append_of_mem hi
  clear hi
  induction front generalizing n cs with
  | nil =>
    obtain ⟨k?, c, x, s, rfl, -, rfl, hscan, -⟩ := exists_scan_of_cons hitems
    exact ⟨[], c, x ++ s, rfl, by rw [hscan]; rfl⟩
  | cons j front ih =>
    obtain ⟨k?, c, x, s, -, -, rfl, -, hrest⟩ := exists_scan_of_cons hitems
    obtain ⟨before, d, rest, rfl, rfl⟩ := ih hrest
    refine ⟨c :: x ++ before, d, rest, by simp, ?_⟩
    rw [List.length_append, Nat.add_assoc]

/-- The name of a token is what the longest run of items at its place stands for, and nothing that could go on with it
is behind it. -/
theorem names_of_token (text : String) (t : Token) (ht : .token t ∈ (Cursor.start text).items)
    (hname : t.kind.hasName = true) : ∃ before after, text.toList = before ++ t.lexeme ++ after ∧
      before.length = t.position ∧ Names t.kind t.lexeme after := by
  obtain ⟨before, c, rest, htext, hscan⟩ := Item.exists_scan_at ht
  obtain ⟨-, hsplits⟩ := scan_splits c rest
  unfold Item.ofScan at hscan
  split at hscan
  · rename_i k hk
    cases hscan
    refine ⟨before, (scan c rest).rest, ?_, (Nat.zero_add _).symm, names_scan hk hname⟩
    rw [List.append_assoc, hsplits]
    exact htext
  · cases hscan

/-- The space ends the escape, so that the digit behind it is a character of its own. -/
theorem names_of_escaped_hash :
    ∃ before after, "a #\\31 0b;".toList = before ++ ['#', '\\', '3', '1', ' ', '0', 'b'] ++ after ∧
      before.length = 2 ∧ Names (.hash "10b") ['#', '\\', '3', '1', ' ', '0', 'b'] after := by
  have hitems : (Cursor.start "a #\\31 0b;").items = [.token ⟨.ident "a", ['a'], 0⟩, .token ⟨.space, [' '], 1⟩,
      .token ⟨.hash "10b", ['#', '\\', '3', '1', ' ', '0', 'b'], 2⟩, .token ⟨.punct .semicolon, [';'], 9⟩] := by
    decide +kernel
  exact names_of_token _ ⟨.hash "10b", ['#', '\\', '3', '1', ' ', '0', 'b'], 2⟩ (by rw [hitems]; simp) rfl

end SlotGrid.Style
