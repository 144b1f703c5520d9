import SlotGrid.Proofs.Style.Names
import SlotGrid.Proofs.Style.Rejected

/-! # Spellings of names

A name can be spelled in many ways, since each of its characters may be written as it is or as one of many escapes.
All of them are one token of one kind, and are read as the name. Only the words of template definitions are written as
they are spelled.
-/

namespace SlotGrid.Style

/-- A way to spell a name. -/
structure Spells (raw name : List Char) : Prop where
  run : IsRun raw name []
  start : ∃ dash cs, (dash = [] ∨ dash = ['-']) ∧ raw = dash ++ cs ∧ StartsName cs

/-- A text is one token, and it is read as a name: where one is expected, as the type in a selector, and as the property
of a declaration. -/
structure ReadAsName (raw : List Char) (kind : TokenKind) (name : String) : Prop where
  tokens : tokens? (.ofList raw) = .ok [⟨kind, raw, 0⟩]
  named (n : ℕ) : Token.name? ⟨kind, raw, n⟩ = some name
  expected (n : ℕ) (what : String) (s : Stream) :
    Reader.Takes (Reader.expectName what) [.token ⟨kind, raw, n⟩] "" name s
  typed (n : ℕ) (s : Stream) : Reader.Takes Reader.typeOrUniversal [.token ⟨kind, raw, n⟩] name true s
  declared (n : ℕ) {before behind : List Item} {colon : Item} {s : Stream} (hbefore : Spaces before)
    (hcolon : colon.kind = .punct .colon) (hbehind : Spaces behind) (hs : s.kind ≠ .space) :
    Reader.Takes Reader.property (.token ⟨kind, raw, n⟩ :: (before ++ colon :: behind)) "" name.toLower s

variable {c : Char} {cs raw raw' : List Char} {name : String}

/-! ## Ways to spell a name -/

theorem isRun_of_isNameChar (h : ∀ c ∈ cs, isNameChar c = true) (rest : List Char) : IsRun cs cs rest := by
  induction cs with
  | nil => exact .nil rest
  | cons c cs ih =>
    obtain ⟨hc, hcs⟩ := List.forall_mem_cons.mp h
    exact .cons (.literal hc) (ih hcs)

/-- A name that starts with a letter spells itself. -/
theorem spells_self (h : (c :: cs).all isNameChar = true) (hc : c.isAlpha = true) : Spells (c :: cs) (c :: cs) := by
  have hchars := List.all_eq_true.mp h
  exact ⟨isRun_of_isNameChar hchars [], [], _, .inl rfl, rfl, [c], c, cs, .literal (hchars c List.mem_cons_self), rfl,
    fun _ => .inl hc⟩

/-- The first character may be written as a code, if the next one is no digit and no space. -/
theorem spells_of_code {d : Char} {digits : List Char} (hne : digits ≠ []) (hdigits : digits.all isHexDigit = true)
    (hlength : digits.length ≤ 6) (hd : d = decodeCode (Nat.ofDigits 16 (digits.reverse.map hexValue)))
    (hc : isHexDigit c = false ∧ isSpace c = false) (h : (c :: cs).all isNameChar = true) :
    Spells ('\\' :: digits ++ c :: cs) (d :: c :: cs) := by
  have hrest : ∀ x ∈ (c :: cs).head?, isHexDigit x = false ∧ isSpace x = false := by
    rintro x ⟨⟩
    exact hc
  have hitem : IsItem ('\\' :: (digits ++ [])) d (c :: cs) :=
    .code hne (List.all_eq_true.mp hdigits) hlength (.inr fun x hx => (hrest x hx).1) (.none fun x hx => (hrest x hx).2)
      (standsFor_iff.mpr hd)
  rw [List.append_nil] at hitem
  refine ⟨?_, [], _, .inl rfl, rfl, _, _, _, hitem, rfl, fun hx => absurd (List.cons.inj hx).2 hne⟩
  refine .cons ?_ (isRun_of_isNameChar (List.all_eq_true.mp h) [])
  rw [List.append_nil]
  exact hitem

/-! ## One token -/

theorem startsIdent_of_startsName (h : StartsName cs) : startsIdent cs = true ∧ startsIdent ('-' :: cs) = true := by
  obtain ⟨x, c, rest, hitem, rfl, hsingle⟩ := h
  have hread : namePiece? (x ++ rest) = some (⟨x, [c]⟩, rest) := namePiece?_eq_some_iff.mpr ⟨c, rfl, rfl, hitem⟩
  have hescape : ∀ y, x ++ rest = '\\' :: y → startsEscape ('\\' :: y) = true := by
    intro y hy
    rw [hy] at hread
    exact startsEscape_iff.mpr ⟨_, _, hread⟩
  cases hitem with
  | literal =>
    have hc := hsingle rfl
    have hdash : c ≠ '-' := by
      rintro rfl
      exact absurd hc (by decide)
    have hstroke : c ≠ '\\' := by
      rintro rfl
      exact absurd hc (by decide)
    have hstart : isNameStart c = true := by
      simp only [isNameStart, Bool.or_eq_true, beq_iff_eq]
      tauto
    exact ⟨(startsIdent_cons hdash hstroke rest).trans hstart, (startsIdent_dash hstroke rest).trans hstart⟩
  | escaped => exact ⟨hescape _ rfl, hescape _ rfl⟩
  | code => exact ⟨hescape _ rfl, hescape _ rfl⟩

namespace Spells

theorem starts {decoded : List Char} (h : Spells raw decoded) : startsIdent raw = true := by
  obtain ⟨dash, cs, rfl | rfl, rfl, hstarts⟩ := h.start
  · exact (startsIdent_of_startsName hstarts).1
  · exact (startsIdent_of_startsName hstarts).2

theorem exists_run {decoded : List Char} (h : Spells raw decoded) :
    ∃ ps, nameReader.run raw = (ps, []) ∧ rawText ps = raw ∧ ps.flatMap Piece.decoded = decoded := by
  obtain ⟨ps, hrun, hraw, hdecoded⟩ := h.run.exists_run
  have hnil : nameReader.run [] = ([], []) := PieceReader.run_of_none rfl
  rw [hnil, List.append_nil, List.append_nil] at hrun
  exact ⟨ps, hrun, hraw, hdecoded⟩

/-- The plus of a range is no item of a name. -/
theorem range_not_found {decoded : List Char} (h : Spells raw decoded) (s : Scan) :
    Form.range.attempt? (.start raw) ≠ some (.found s) := by
  intro hrange
  obtain ⟨_, rest, _ | ⟨hfirst, _ | ⟨hplus, _ | _⟩⟩, rfl, -⟩ := Form.exists_of_attempt? hrange
  rename_i first plus
  obtain rfl := eq_of_beq hplus
  have hread : nameReader.read (first :: '+' :: rest) = some (.literal first, '+' :: rest) := by
    rcases Bool.or_eq_true_iff.mp hfirst with hfirst | hfirst
    all_goals
      obtain rfl := eq_of_beq hfirst
      rfl
  have hrest : nameReader.run ('+' :: rest) = ([], '+' :: rest) := PieceReader.run_of_none rfl
  obtain ⟨ps, hrun, -, -⟩ := h.exists_run
  rw [List.cons_append, List.singleton_append, PieceReader.run_of_some hread, hrest] at hrun
  cases hrun

theorem scan_eq (h : Spells (c :: cs) name.toList) :
    scan c cs = ⟨some ((TokenKind.keyword? name).elim (.ident name) .keyword), c :: cs, []⟩ := by
  obtain ⟨ps, hrun, hraw, hdecoded⟩ := h.exists_run
  have hname : decodedText ps = name := by rw [decodedText, hdecoded, String.ofList_toList]
  rw [scan_of_startsIdent h.starts h.range_not_found, scanName, hrun]
  dsimp only
  rw [hraw, hname]

/-- A spelling is one token: a word of template definitions or an identifier. -/
theorem tokens?_eq (h : Spells raw name.toList) :
    tokens? (.ofList raw) = .ok [⟨(TokenKind.keyword? name).elim (.ident name) .keyword, raw, 0⟩] := by
  cases raw with
  | nil => exact absurd h.starts nofun
  | cons c cs =>
    apply tokens?_of_items
    rw [Cursor.start, String.toList_ofList, Cursor.items_cons, h.scan_eq, Cursor.items_nil]
    rfl

end Spells

/-! ## Names that are read -/

theorem readAsName_of_word? {kind : TokenKind} {w : Word} (htokens : tokens? (.ofList raw) = .ok [⟨kind, raw, 0⟩])
    (hword : ∀ n, (Item.token ⟨kind, raw, n⟩).word? = some w) : ReadAsName raw kind w.written where
  tokens := htokens
  named n := Item.name?_of_word? (hword n)
  expected n what s := by
    have hname : Reader.Takes (Reader.expectName what >>= pure) [.token ⟨kind, raw, n⟩] "" w.written s :=
      .expectName_bind (hword n) (.pure w.written s)
    rwa [bind_pure] at hname
  typed n s := Reader.takes_typeOrUniversal (.named (hword n)) s
  declared n _ _ _ _ hbefore hcolon hbehind hs := Reader.takes_property (hword n) hbefore hcolon hbehind hs

/-- Two spellings of a name are tokens of one kind, and each is read as the name, or as it is spelled if the name is a
word of template definitions. -/
theorem spellings_read_alike (h : Spells raw name.toList) (h' : Spells raw' name.toList) :
    (TokenKind.keyword? name = none → ReadAsName raw (.ident name) name ∧ ReadAsName raw' (.ident name) name) ∧
      ∀ w, TokenKind.keyword? name = some w →
        ReadAsName raw (.keyword w) (.ofList raw) ∧ ReadAsName raw' (.keyword w) (.ofList raw') := by
  have htokens := h.tokens?_eq
  have htokens' := h'.tokens?_eq
  constructor
  · intro hkeyword
    rw [hkeyword] at htokens htokens'
    exact ⟨readAsName_of_word? htokens fun _ => rfl, readAsName_of_word? htokens' fun _ => rfl⟩
  · intro w hkeyword
    rw [hkeyword] at htokens htokens'
    exact ⟨readAsName_of_word? htokens fun _ => rfl, readAsName_of_word? htokens' fun _ => rfl⟩

/-- The first letter of `div` is written as a code, or the last one behind a backslash; of `auto` the first letter is
written as it is, or as a code. -/
theorem div_and_auto_read_alike :
    Spells ['\\', '6', '4', 'i', 'v'] "div".toList ∧ Spells ['d', 'i', '\\', 'v'] "div".toList ∧
      Spells ['a', 'u', 't', 'o'] "auto".toList ∧ Spells ['\\', '6', '1', 'u', 't', 'o'] "auto".toList ∧
      ReadAsName ['\\', '6', '4', 'i', 'v'] (.ident "div") "div" ∧
      ReadAsName ['d', 'i', '\\', 'v'] (.ident "div") "div" ∧
      ReadAsName ['a', 'u', 't', 'o'] (.keyword .auto) "auto" ∧
      ReadAsName ['\\', '6', '1', 'u', 't', 'o'] (.keyword .auto) "\\61uto" := by
  have hcode : Spells ('\\' :: ['6', '4'] ++ ['i', 'v']) "div".toList :=
    spells_of_code nofun (by decide) (by decide) (by decide) (by decide) (by decide)
  have hstroke : Spells ['d', 'i', '\\', 'v'] "div".toList := by
    have hescaped : IsRun ['\\', 'v'] ['v'] [] := .cons (.escaped rfl rfl) (.nil [])
    exact ⟨.cons (.literal rfl) (.cons (.literal rfl) hescaped),
      [], _, .inl rfl, rfl, ['d'], 'd', _, .literal rfl, rfl, fun _ => .inl rfl⟩
  have hword : Spells ['a', 'u', 't', 'o'] "auto".toList := spells_self (by decide) rfl
  have hcode' : Spells ('\\' :: ['6', '1'] ++ ['u', 't', 'o']) "auto".toList :=
    spells_of_code nofun (by decide) (by decide) (by decide) (by decide) (by decide)
  obtain ⟨h, h'⟩ := (spellings_read_alike hcode hstroke).1 (by cbv)
  obtain ⟨h₁, h₁'⟩ := (spellings_read_alike hword hcode').2 .auto (by cbv)
  exact ⟨hcode, hstroke, hword, hcode', h, h', h₁, h₁'⟩

/-- The word is spelled in two ways, and has two names. -/
theorem not_alike_auto :
    ¬ ∀ (raw raw' : List Char) (name : String), Spells raw name.toList → Spells raw' name.toList →
      ∃ t t', tokens? (.ofList raw) = .ok [t] ∧ tokens? (.ofList raw') = .ok [t'] ∧ t.kind = t'.kind ∧
        t.name? = t'.name? := by
  intro h
  have hword : Spells ['a', 'u', 't', 'o'] "auto".toList := spells_self (by decide) rfl
  have hcode : Spells ('\\' :: ['6', '1'] ++ ['u', 't', 'o']) "auto".toList :=
    spells_of_code nofun (by decide) (by decide) (by decide) (by decide) (by decide)
  obtain ⟨t, t', ht, ht', -, hname⟩ := h _ _ "auto" hword hcode
  rw [hword.tokens?_eq] at ht
  rw [hcode.tokens?_eq] at ht'
  cases ht
  cases ht'
  exact absurd hname (by decide +kernel)

end SlotGrid.Style
