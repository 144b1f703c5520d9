import SlotGrid.Proofs.Style.Cut

/-! # Tokens in front of texts that are cut short

No form makes a token in a text that is cut short unless it makes one in the text itself, and the token that it makes
there is the same. So a token stays the same where what stands behind it is replaced.
-/

namespace SlotGrid.Style

/-- A quoted text without a quote at its end. -/
def OpenQuote : List Char → Prop
  | [] => False
  | quote :: cs => (quote = '"' ∨ quote = '\'') ∧ ((quotedReader quote).run cs).2 = []

/-! ## Names -/

/-- The text can stand behind what was scanned. It begins as the old one does; or a token was scanned, and no space
would go on with a quoted text that has no quote at its end. -/
def Scan.EndsAt (s : Scan) (t : List Char) : Prop :=
  t.head? = s.rest.head? ∨ s.kind?.isSome ∧ (t.head? = some ' ' → ¬ OpenQuote s.lexeme)

/-- The scan is made of every text that goes on behind it in the same way. -/
def Scan.Settled (s : Scan) (f : List Char → Option Scan) (taken cs : List Char) : Prop :=
  ∃ x, cs = x ++ s.rest ∧ s.lexeme = taken ++ x ∧
    ∀ t, Behind x s.rest t → s.EndsAt t → f (x ++ t) = some { s with rest := t }

section Scans

variable {x s t : List Char}

theorem exists_raw_of_escapeAfter {cs rest : List Char} {p : Piece} (h : escapeAfter cs = some (p, rest)) :
    ∃ c x, p.raw = '\\' :: c :: x ∧ isLineBreak c = false := by
  obtain ⟨hne, hcs⟩ := escapeAfter_sound h
  obtain ⟨d, x, hraw⟩ := List.exists_cons_of_ne_nil hne
  rw [hraw] at hcs
  obtain ⟨rfl, rfl⟩ := List.cons.inj hcs
  rcases escapeAfter_eq_some.mp h with ⟨c, rfl, hbreak, -⟩ | ⟨digits, closing, rfl, hne, hdigits, -⟩
  · exact ⟨c, [], hraw, hbreak⟩
  · obtain ⟨c, digits, rfl⟩ := List.exists_cons_of_ne_nil hne
    exact ⟨c, _, hraw, isLineBreak_of_takeUpTo hdigits⟩

theorem isNameChar_of_isNameStart {c : Char} (h : isNameStart c) (hc : c ≠ '\\') : isNameChar c := by
  simp only [isNameStart, Bool.or_eq_true, beq_iff_eq, hc, or_false] at h
  simp only [isNameChar, Char.isAlphanum, Bool.or_eq_true, beq_iff_eq]
  tauto

/-- Whether a name starts is seen in the name. -/
theorem startsIdent_run {cs : List Char} (h : startsIdent cs) (t : List Char) :
    startsIdent (rawText (nameReader.run cs).1 ++ t) := by
  have hescape : ∀ {cs t}, startsEscape ('\\' :: cs) →
      ∃ c x, rawText (nameReader.run ('\\' :: cs)).1 ++ t = '\\' :: c :: x ∧ isLineBreak c = false := by
    intro cs t h
    obtain ⟨p, rest, hp⟩ := startsEscape_iff.mp h
    obtain ⟨c, x, hraw, hbreak⟩ := exists_raw_of_escapeAfter hp
    rw [PieceReader.run_of_some (r := nameReader) (s := '\\' :: cs) hp]
    refine ⟨c, x ++ rawText (nameReader.run rest).1 ++ t, ?_, hbreak⟩
    simp [rawText, hraw]
  have hliteral : ∀ {c cs}, c ≠ '\\' → isNameChar c →
      rawText (nameReader.run (c :: cs)).1 = c :: rawText (nameReader.run cs).1 := by
    intro c cs hc hname
    rw [PieceReader.run_of_some (r := nameReader) (p := .literal c) (t := cs)]
    · rfl
    · rw [accepts_nameReader.literal c cs hc, if_pos hname]
  fun_cases startsIdent cs with
  | case1 cs =>
    obtain ⟨c, x, hraw, hbreak⟩ := hescape (t := t) h
    rw [hliteral (by decide) (by decide), List.cons_append, hraw]
    simp [startsIdent, startsEscape, hbreak]
  | case2 c cs hc =>
    have hstart : isNameStart c := by simpa [startsIdent] using h
    rw [hliteral (by decide) (by decide), hliteral hc (isNameChar_of_isNameStart hstart hc)]
    simpa [startsIdent] using h
  | case3 cs =>
    obtain ⟨c, x, hraw, hbreak⟩ := hescape (t := t) h
    rw [hraw]
    simp [startsIdent, startsEscape, hbreak]
  | case4 c cs _ hdash hstroke =>
    have hstart : isNameStart c := by simpa [startsIdent] using h
    have hc : c ≠ '-' := by
      rintro rfl
      cases hstart
    rw [hliteral hstroke (isNameChar_of_isNameStart hstart hstroke)]
    simpa [startsIdent, hc] using hstart
  | case5 => cases h

/-! ## Addresses and words -/

/-- In quotes every backslash belongs to a piece. -/
theorem quotedPiece?_stroke_ne_none (quote : Char) (s : List Char) : quotedPiece? quote ('\\' :: s) ≠ none := by
  rcases s with _ | ⟨c, s⟩
  · simp [quotedPiece?]
  · by_cases hc : c = '\r'
    · subst hc
      rw [quotedPiece?_return]
      split_ifs <;> simp
    · rw [quotedPiece?_escape quote hc]
      split_ifs with hbreak
      · simp
      · have hescape : startsEscape ('\\' :: c :: s) := by simpa [startsEscape] using hbreak
        obtain ⟨p, rest, hp⟩ := startsEscape_iff.mp hescape
        simp [hp]

/-- A quoted text without a quote at its end goes on with the same character, or the text ends there. -/
theorem readQuoted_replace {quote : Char} (hquote : quote ≠ '\\') {cs : List Char}
    (h : Behind (readQuoted quote cs).raw (readQuoted quote cs).rest t)
    (hopen : ((quotedReader quote).run (readQuoted quote cs).raw).2 = [] →
      t = [] ∨ t.head? = (readQuoted quote cs).rest.head?) :
    readQuoted quote ((readQuoted quote cs).raw ++ t) = { readQuoted quote cs with rest := t } := by
  have hrun : ∀ {ps m u}, (quotedReader quote).run (rawText ps ++ m) = (ps, m) → Behind (rawText ps) m u →
      (quotedReader quote).read u = none → (quotedReader quote).run (rawText ps ++ u) = (ps, u) :=
    PieceReader.Settled.run_replace (PieceReader.settled_quotedReader quote)
  have hcs := (quotedReader quote).rawText_run cs
  have hstop := (quotedReader quote).read_run cs
  unfold readQuoted at h hopen ⊢
  rcases hr : (quotedReader quote).run cs with ⟨ps, m⟩
  rw [hr] at hcs hstop
  simp only [hr] at h hopen hcs hstop ⊢
  have hps : (quotedReader quote).run (rawText ps ++ m) = (ps, m) := by rw [hcs, hr]
  rcases m with _ | ⟨c, m⟩
  · cases h.cut
    simp only [List.append_nil] at hcs ⊢
    simp [hcs, hr]
  · simp only at h hopen ⊢
    split_ifs at h hopen ⊢ with hc
    · subst hc
      have hread : (quotedReader c).read (c :: t) = none := by
        change quotedPiece? c (c :: t) = none
        rw [quotedPiece?_literal c hquote, if_neg (by simp)]
      have hrun' := hrun hps (u := c :: t) h.prepend hread
      rw [List.append_assoc, List.singleton_append, hrun']
      simp
    · have hall := hrun hps (.nil _ _) rfl
      rw [List.append_nil] at hall
      rcases hopen (by rw [hall]) with rfl | hhead
      · rw [hrun hps h rfl]
      · obtain ⟨t, rfl⟩ : ∃ t', t = c :: t' := by
          cases t with
          | nil => cases hhead
          | cons d t => exact ⟨t, by rw [Option.some.inj hhead]⟩
        have hstroke : c ≠ '\\' := by
          rintro rfl
          exact quotedPiece?_stroke_ne_none quote m hstop
        have hread : (quotedReader quote).read (c :: t) = none := by
          change quotedPiece? quote (c :: m) = none at hstop
          change quotedPiece? quote (c :: t) = none
          rw [quotedPiece?_literal quote hstroke] at hstop ⊢
          split_ifs at hstop ⊢
          rfl
        rw [hrun hps h hread]
        simp [hc]

theorem readAddress_plain {cs : List Char} (h : ∀ c ∈ cs.head?, c ≠ '"' ∧ c ≠ '\'') :
    readAddress cs =
      ⟨decodedText (addressReader.run cs).1, rawText (addressReader.run cs).1, (addressReader.run cs).2⟩ := by
  cases cs with
  | nil => rfl
  | cons c cs =>
    have hc := h c rfl
    simp [readAddress, hc.1, hc.2]

/-- An address goes on with the same character. -/
theorem readAddress_replace {cs : List Char} (h : Behind (readAddress cs).raw (readAddress cs).rest t)
    (hhead : t.head? = (readAddress cs).rest.head?) :
    readAddress ((readAddress cs).raw ++ t) = { readAddress cs with rest := t } := by
  have hquoted : ∀ {quote : Char} {cs : List Char}, (quote = '"' ∨ quote = '\'') →
      Behind (quote :: (readQuoted quote cs).raw) (readQuoted quote cs).rest t →
      t.head? = (readQuoted quote cs).rest.head? →
      readQuoted quote ((readQuoted quote cs).raw ++ t) = { readQuoted quote cs with rest := t } := by
    intro quote cs hquote h hhead
    refine readQuoted_replace (by rcases hquote with rfl | rfl <;> decide) ?_ fun _ => .inr hhead
    exact h.of_append (x := [quote])
  fun_cases readAddress cs with
  | case1 cs =>
    have hread := hquoted (.inl rfl) h hhead
    simp only [readAddress, List.cons_append, hread]
    rfl
  | case2 cs =>
    have hread := hquoted (.inr rfl) h hhead
    simp only [readAddress, List.cons_append, hread]
    rfl
  | case3 cs hdouble hsingle =>
    have hcs : ∀ c ∈ cs.head?, c ≠ '"' ∧ c ≠ '\'' := by
      cases cs <;> simp_all
    have hraw := addressReader.rawText_run cs
    rw [readAddress_plain hcs] at h hhead
    dsimp only at h hhead ⊢
    have hhead' : (rawText (addressReader.run cs).1 ++ t).head? = cs.head? := by
      rw [← hraw, List.head?_append, List.head?_append, hhead, hraw]
    rw [readAddress_plain (hhead' ▸ hcs), accepts_addressReader.run_replace (by decide) h]

theorem scanAddress_of_closed {before raw behind : List Char} {value : String} (opening : List Char)
    (hbefore : ∀ c ∈ before, isSpace c = true) (hbehind : ∀ c ∈ behind, isSpace c = true)
    (hhead : ∀ c ∈ (raw ++ (behind ++ ')' :: s)).head?, isSpace c = false)
    (hread : readAddress (raw ++ (behind ++ ')' :: s)) = ⟨value, raw, behind ++ ')' :: s⟩) :
    scanAddress opening (before ++ (raw ++ (behind ++ ')' :: s))) =
      ⟨some (.address value), opening ++ before ++ raw ++ behind ++ [')'], s⟩ := by
  obtain ⟨htake, hdrop⟩ := takeWhile_dropWhile_append hbefore hhead
  obtain ⟨htake', hdrop'⟩ := takeWhile_dropWhile_append (s := ')' :: s) hbehind (by simp; decide)
  unfold scanAddress
  rw [htake, hdrop]
  dsimp only
  rw [hread]
  dsimp only
  rw [htake', hdrop']
  rfl

theorem scanAddress_of_open {before raw behind : List Char} {value : String} (opening : List Char)
    (hbefore : ∀ c ∈ before, isSpace c = true) (hbehind : ∀ c ∈ behind, isSpace c = true)
    (hhead : ∀ c ∈ (raw ++ (behind ++ s)).head?, isSpace c = false)
    (hs : ∀ c ∈ s.head?, isSpace c = false ∧ c ≠ ')')
    (hread : readAddress (raw ++ (behind ++ s)) = ⟨value, raw, behind ++ s⟩) :
    scanAddress opening (before ++ (raw ++ (behind ++ s))) = ⟨none, opening ++ before ++ raw ++ behind, s⟩ := by
  obtain ⟨htake, hdrop⟩ := takeWhile_dropWhile_append hbefore hhead
  obtain ⟨htake', hdrop'⟩ := takeWhile_dropWhile_append hbehind fun c hc => (hs c hc).1
  unfold scanAddress
  rw [htake, hdrop]
  dsimp only
  rw [hread]
  dsimp only
  rw [htake', hdrop']
  split
  · exact absurd rfl (hs ')' rfl).2
  · rfl

/-- An address stands between spaces. It is read in the same way in front of every text that begins with the same
character. -/
theorem exists_address (cs : List Char) : ∃ before raw behind rest value,
    cs = before ++ (raw ++ (behind ++ rest)) ∧ (∀ c ∈ before, isSpace c = true) ∧ (∀ c ∈ behind, isSpace c = true) ∧
      readAddress (raw ++ (behind ++ rest)) = ⟨value, raw, behind ++ rest⟩ ∧
      ∀ u : List Char, u.head? = rest.head? → (∀ c ∈ u.head?, isSpace c = false) ∧
        (∀ c ∈ (raw ++ (behind ++ u)).head?, isSpace c = false) ∧
        (Behind raw (behind ++ rest) (behind ++ u) →
          readAddress (raw ++ (behind ++ u)) = ⟨value, raw, behind ++ u⟩) := by
  have hspaces := List.takeWhile_append_dropWhile (p := isSpace) (l := cs)
  have hhead := head?_dropWhile_eq_false (p := isSpace) cs
  generalize cs.dropWhile isSpace = m at hspaces hhead
  have hraw := readAddress_raw m
  have hreplace := fun t => @readAddress_replace t m
  rcases hread : readAddress m with ⟨value, raw, m'⟩
  simp only [hread] at hraw hreplace
  have hend := List.takeWhile_append_dropWhile (p := isSpace) (l := m')
  have hstop := head?_dropWhile_eq_false (p := isSpace) m'
  have hbehind : ∀ c ∈ m'.takeWhile isSpace, isSpace c = true := fun _ => List.mem_takeWhile_imp
  generalize m'.takeWhile isSpace = behind at hend hbehind
  generalize m'.dropWhile isSpace = rest at hend hstop
  subst hend hraw
  refine ⟨_, raw, behind, rest, value, hspaces.symm, fun _ => List.mem_takeWhile_imp, hbehind, hread, fun u hu => ?_⟩
  have hsame : (behind ++ u).head? = (behind ++ rest).head? := by rw [List.head?_append, hu, ← List.head?_append]
  refine ⟨hu ▸ hstop, ?_, fun h => hreplace _ h hsame⟩
  rwa [List.head?_append, hsame, ← List.head?_append]

/-- An address that is closed does not go on behind its parenthesis, and one that is not stays so in front of the same
character. -/
theorem settled_scanAddress (opening cs : List Char) :
    (scanAddress opening cs).Settled (fun cs => some (scanAddress opening cs)) opening cs := by
  obtain ⟨before, raw, behind, rest, value, rfl, hbefore, hbehind, hread, hreplace⟩ := exists_address cs
  obtain ⟨hstop, hhead, -⟩ := hreplace rest rfl
  unfold Scan.Settled
  by_cases hclosed : ∃ rest', rest = ')' :: rest'
  · obtain ⟨rest, rfl⟩ := hclosed
    rw [scanAddress_of_closed opening hbefore hbehind hhead hread]
    refine ⟨before ++ raw ++ behind ++ [')'], by simp, by simp, fun t ht _ => ?_⟩
    obtain ⟨-, hhead', hread'⟩ := hreplace (')' :: t) rfl
    have ht' : Behind raw (behind ++ ')' :: rest) (behind ++ ')' :: t) := by
      simp only [List.append_assoc] at ht
      simpa using (ht.of_append (x := before)).prepend
    have htext : before ++ raw ++ behind ++ [')'] ++ t = before ++ (raw ++ (behind ++ ')' :: t)) := by simp
    dsimp only
    rw [htext, scanAddress_of_closed opening hbefore hbehind hhead' (hread' ht')]
  · have hopen : ∀ c ∈ rest.head?, c ≠ ')' := by
      rintro c hc rfl
      exact hclosed ⟨_, List.eq_cons_of_mem_head? hc⟩
    rw [scanAddress_of_open opening hbefore hbehind hhead (fun c hc => ⟨hstop c hc, hopen c hc⟩) hread]
    refine ⟨before ++ raw ++ behind, by simp, by simp, fun t ht hends => ?_⟩
    rcases hends with hsame | ⟨hsome, -⟩
    · obtain ⟨hstop', hhead', hread'⟩ := hreplace t hsame
      have ht' : Behind raw (behind ++ rest) (behind ++ t) := by
        simp only [List.append_assoc] at ht
        exact (ht.of_append (x := before)).prepend
      have htext : before ++ raw ++ behind ++ t = before ++ (raw ++ (behind ++ t)) := by simp
      have hopen' : ∀ c ∈ t.head?, isSpace c = false ∧ c ≠ ')' := fun c hc => ⟨hstop' c hc, hopen c (hsame ▸ hc)⟩
      dsimp only
      rw [htext, scanAddress_of_open opening hbefore hbehind hhead' hopen' (hread' ht')]
    · cases hsome

theorem settled_scanName {cs : List Char} (h : startsIdent cs) :
    (scanName cs).Settled (fun cs => if startsIdent cs then some (scanName cs) else none) [] cs := by
  have hrun := fun t => @PieceReader.Accepts.run_replace nameReader t isNameChar accepts_nameReader rfl cs
  have hstarts := startsIdent_run h
  have hcs := nameReader.rawText_run cs
  unfold scanName
  generalize nameReader.run cs = r at hrun hstarts hcs ⊢
  obtain ⟨ps, m⟩ := r
  dsimp only at hrun hstarts hcs ⊢
  split
  · rename_i rest
    split_ifs with hurl
    · obtain ⟨x, hx, hlexeme, hreplace⟩ := settled_scanAddress (rawText ps ++ ['(']) rest
      refine ⟨rawText ps ++ '(' :: x, ?_, ?_, fun t ht hquote => ?_⟩
      · rw [← hcs, List.append_assoc, List.cons_append, ← hx]
      · simpa using hlexeme
      · have hcons : rawText ps ++ '(' :: x ++ t = rawText ps ++ '(' :: (x ++ t) := by simp
        have hbehind : Behind (rawText ps) ('(' :: rest) ('(' :: (x ++ t)) := by
          rw [hx]
          exact ht.prepend
        have hscan := hreplace t (ht.of_append.of_append (x := ['('])) hquote
        dsimp only
        rw [hcons, if_pos (hstarts _), hrun _ hbehind]
        simpa [hurl] using hscan
    · refine ⟨rawText ps ++ ['('], by simpa using hcs.symm, rfl, fun t ht _ => ?_⟩
      have hbehind : Behind (rawText ps) ('(' :: rest) ('(' :: t) := ht.prepend
      dsimp only
      rw [List.append_assoc, List.singleton_append, if_pos (hstarts _), hrun _ hbehind]
      simp [hurl]
  · rename_i hparen
    refine ⟨rawText ps, hcs.symm, rfl, fun t ht _ => ?_⟩
    dsimp only at ht ⊢
    rw [if_pos (hstarts t), hrun t ht]
    dsimp only
    split
    · obtain ⟨s, rfl, -⟩ := ht.cut.of_cons (by decide)
      exact absurd rfl (hparen s)
    · rfl

/-! ## Numbers and ranges -/

namespace Numeral

/-- The parts of a number are written as they have to be. -/
structure Written (n : Numeral) : Prop where
  sign : n.sign = [] ∨ n.sign = ['+'] ∨ n.sign = ['-']
  whole : ∀ c ∈ n.whole, c.isDigit = true
  fraction : ∀ c ∈ n.fraction, c.isDigit = true
  digits : n.whole ≠ [] ∨ n.fraction ≠ []

/-- Neither digits nor a fraction go on with a number. -/
structure EndsAt (n : Numeral) (s : List Char) : Prop where
  digit : ∀ c ∈ s.head?, c.isDigit = false
  point : n.fraction = [] → fractionOf s = []

variable {n : Numeral}

theorem signOf_append {sign body : List Char} (hsign : sign = [] ∨ sign = ['+'] ∨ sign = ['-'])
    (hbody : ∀ c ∈ body.head?, c.isDigit = true ∨ c = '.') : signOf (sign ++ body) = sign := by
  rcases hsign with rfl | rfl | rfl
  · cases body with
    | nil => rfl
    | cons c body =>
      rcases hbody c rfl with hc | rfl
      · unfold signOf
        split <;> simp_all
      · rfl
  · rfl
  · rfl

theorem read?_raw_append (hn : n.Written) (hs : n.EndsAt s) : read? (n.raw ++ s) = some n := by
  obtain ⟨sign, whole, fraction⟩ := n
  obtain ⟨hsign, hwhole, hfraction, hdigits⟩ := hn
  obtain ⟨hdigit, hpoint⟩ := hs
  dsimp only at *
  have htext : raw ⟨sign, whole, fraction⟩ ++ s =
      sign ++ (whole ++ ((if fraction.isEmpty then [] else '.' :: fraction) ++ s)) := by simp [raw]
  have hfractionOf : fractionOf ((if fraction.isEmpty then [] else '.' :: fraction) ++ s) = fraction ∧
      ∀ c ∈ ((if fraction.isEmpty then [] else '.' :: fraction) ++ s).head?, c.isDigit = false := by
    cases fraction with
    | nil => exact ⟨hpoint rfl, hdigit⟩
    | cons d fraction => exact ⟨(takeWhile_dropWhile_append hfraction hdigit).1, by simp⟩
  have hhead : ∀ c ∈ (whole ++ ((if fraction.isEmpty then [] else '.' :: fraction) ++ s)).head?,
      c.isDigit = true ∨ c = '.' := by
    cases whole with
    | cons c whole => simp_all
    | nil =>
      cases fraction with
      | nil => simp at hdigits
      | cons d fraction => simp
  obtain ⟨htake, hdrop⟩ := takeWhile_dropWhile_append hwhole hfractionOf.2
  unfold read?
  rw [htext, signOf_append hsign hhead, List.drop_left]
  dsimp only
  rw [htake, hdrop, hfractionOf.1, if_neg]
  simpa [Decidable.imp_iff_not_or] using hdigits

theorem exists_of_fractionOf {d : List Char} (hd : ∀ c ∈ d.head?, c.isDigit = false) :
    ∃ s, d = (if (fractionOf d).isEmpty then [] else '.' :: fractionOf d) ++ s ∧
      (∀ c ∈ fractionOf d, c.isDigit = true) ∧ (∀ c ∈ s.head?, c.isDigit = false) ∧
        (fractionOf d = [] → fractionOf s = []) := by
  fun_cases fractionOf d with
  | case1 cs =>
    have hdigits : ∀ c ∈ cs.takeWhile Char.isDigit, c.isDigit = true := fun _ => List.mem_takeWhile_imp
    by_cases hnone : cs.takeWhile Char.isDigit = []
    · exact ⟨'.' :: cs, by simp [hnone], hdigits, hd, fun _ => hnone⟩
    · refine ⟨cs.dropWhile Char.isDigit, ?_, hdigits, head?_dropWhile_eq_false cs, fun h => absurd h hnone⟩
      simp [hnone]
  | case2 => exact ⟨d, rfl, List.forall_mem_nil _, hd, fun _ => by simp_all [fractionOf]⟩

theorem exists_of_read? {cs : List Char} (h : read? cs = some n) :
    ∃ s, cs = n.raw ++ s ∧ n.Written ∧ n.EndsAt s := by
  obtain ⟨u, hu⟩ := signOf_prefix cs
  have hdrop : cs.drop (signOf cs).length = u := by
    have hlength := congrArg (List.drop (signOf cs).length) hu
    rwa [List.drop_left, eq_comm] at hlength
  have hsign : signOf cs = [] ∨ signOf cs = ['+'] ∨ signOf cs = ['-'] := by
    fun_cases signOf cs <;> simp
  have hwhole : ∀ c ∈ u.takeWhile Char.isDigit, c.isDigit = true := fun _ => List.mem_takeWhile_imp
  obtain ⟨s, hs, hfraction, hdigit, hpoint⟩ := exists_of_fractionOf (head?_dropWhile_eq_false (p := Char.isDigit) u)
  have hsplit := List.takeWhile_append_dropWhile (p := Char.isDigit) (l := u)
  unfold read? at h
  dsimp only at h
  rw [hdrop] at h
  split_ifs at h with hnone
  obtain rfl := Option.some.inj h
  refine ⟨s, ?_, ⟨hsign, hwhole, hfraction, ?_⟩, hdigit, hpoint⟩
  · unfold raw
    rw [List.append_assoc, List.append_assoc, ← hs, hsplit, hu]
  · simpa [Decidable.imp_iff_not_or] using hnone

theorem fractionOf_eq_nil (h : Cut s t) (hs : fractionOf s = []) : fractionOf t = [] := by
  fun_cases fractionOf t with
  | case1 t =>
    obtain ⟨s, rfl, hrest⟩ := h.of_cons (by decide)
    exact takeWhile_replace (x := []) hrest (by decide) hs
  | case2 => rfl

theorem read?_eq_none_iff {cs : List Char} :
    read? cs = none ↔ (∀ c ∈ (cs.drop (signOf cs).length).head?, c.isDigit = false) ∧
      fractionOf (cs.drop (signOf cs).length) = [] := by
  unfold read?
  dsimp only
  generalize cs.drop (signOf cs).length = u
  cases u with
  | nil => simp [fractionOf]
  | cons c u =>
    by_cases hc : c.isDigit <;> simp [hc]

theorem signOf_cons (c : Char) (s t : List Char) : signOf (c :: s) = signOf (c :: t) := by
  unfold signOf
  split <;> split <;> simp_all

theorem cut_unsigned (h : Cut s t) : Cut (s.drop (signOf s).length) (t.drop (signOf t).length) := by
  cases h with
  | done => simpa [signOf] using Cut.done _
  | @gap a ha s t =>
    have hsign : signOf (a :: s) = [] := by
      unfold signOf
      split
      · simp_all [isSpace]
      · simp_all [isSpace]
      · rfl
    rw [hsign]
    exact .gap ha s t
  | @cons c s t h hc =>
    rw [signOf_cons c s t]
    unfold signOf
    split
    · rename_i hcons
      cases hcons
      exact h
    · rename_i hcons
      cases hcons
      exact h
    · exact .cons h hc

/-- A number in the new text is one in the old text. -/
theorem read?_eq_none (h : Cut s t) (hs : read? s = none) : read? t = none := by
  rw [read?_eq_none_iff] at hs ⊢
  exact ⟨(cut_unsigned h).stops (by decide) hs.1, fractionOf_eq_nil (cut_unsigned h) hs.2⟩

/-- A number is read with its sign, digits and fraction if nothing goes on with them. -/
theorem read?_replace (hn : read? (n.raw ++ s) = some n) (h : Cut s t) : read? (n.raw ++ t) = some n := by
  obtain ⟨s', hs, hwritten, hends⟩ := exists_of_read? hn
  obtain rfl := List.append_cancel_left hs
  exact read?_raw_append hwritten ⟨h.stops (by decide) hends.digit, fun hf => fractionOf_eq_nil h (hends.point hf)⟩

end Numeral

theorem scanNumber_raw_append (n : Numeral) (s : List Char) : scanNumber n (n.raw ++ s) =
    if startsIdent s then
      ⟨some (.dimension n.value (decodedText (nameReader.run s).1)), n.raw ++ rawText (nameReader.run s).1,
        (nameReader.run s).2⟩
    else
      match s with
      | '%' :: s => ⟨some (.percentage n.value), n.raw ++ ['%'], s⟩
      | s => ⟨some (.number n.value), n.raw, s⟩ := by
  unfold scanNumber
  rewrite [List.drop_left]
  rfl

theorem settled_scanNumber {cs : List Char} {n : Numeral} (hn : Numeral.read? cs = some n) :
    (scanNumber n cs).Settled (fun cs => (Numeral.read? cs).map (scanNumber · cs)) [] cs := by
  obtain ⟨s, rfl, -⟩ := Numeral.exists_of_read? hn
  have hread := fun t => Numeral.read?_replace (t := t) hn
  rw [scanNumber_raw_append]
  split_ifs with hstarts
  · have hs := nameReader.rawText_run s
    refine ⟨n.raw ++ rawText (nameReader.run s).1, by simp [hs], rfl, fun t ht _ => ?_⟩
    have hcut := ht.of_append.cut_append
    rw [hs] at hcut
    dsimp only
    rw [List.append_assoc, hread _ hcut, Option.map_some, scanNumber_raw_append, if_pos (startsIdent_run hstarts t),
      accepts_nameReader.run_replace (by decide) ht.of_append]
  · split
    · rename_i s
      refine ⟨n.raw ++ ['%'], by simp, rfl, fun t ht _ => ?_⟩
      have hcut := ht.of_append.cut_append
      dsimp only
      rw [List.append_assoc, hread _ hcut, Option.map_some, scanNumber_raw_append, if_neg]
      · rfl
      · simp [startsIdent, isNameStart, isForeign]
    · rename_i hpercent
      refine ⟨n.raw, rfl, rfl, fun t ht _ => ?_⟩
      dsimp only
      rw [hread t ht.cut, Option.map_some, scanNumber_raw_append, if_neg fun h => hstarts (ht.cut.startsIdent_of h)]
      split
      · obtain ⟨s, rfl, -⟩ := ht.cut.of_cons (by decide)
        exact absurd rfl (hpercent s)
      · rfl

theorem rangeEnd_eq_nil (h : Cut s t) (hs : rangeEnd s = []) : rangeEnd t = [] := by
  fun_cases rangeEnd t with
  | case1 t =>
    obtain ⟨s, rfl, hrest⟩ := h.of_cons (by decide)
    exact takeUpTo_replace (x := []) hrest (by decide) hs
  | case2 => rfl

/-- What is read of a range is made of its first digits and of what stands behind them. -/
theorem scanRange_append {opening first : List Char} (h : takeUpTo isRangeDigit 6 (first ++ s) = first) :
    scanRange opening (first ++ s) =
      let low := hexNumber (first.map fun c => if c = '?' then '0' else c)
      let high := hexNumber (first.map fun c => if c = '?' then 'f' else c)
      let marked := first.dropWhile (· != '?')
      if (rangeEnd s).isEmpty then
        ⟨some (.codeRange low high (marked.all (· == '?'))), opening ++ first, s⟩
      else
        ⟨some (.codeRange low (hexNumber (rangeEnd s)) marked.isEmpty), opening ++ first ++ '-' :: rangeEnd s,
          s.drop ((rangeEnd s).length + 1)⟩ := by
  unfold scanRange
  dsimp only
  rw [h, List.drop_left]

theorem exists_of_rangeEnd (h : rangeEnd s ≠ []) :
    ∃ second s', s = '-' :: (second ++ s') ∧ takeUpTo isHexDigit 6 (second ++ s') = second := by
  fun_cases rangeEnd s with
  | case1 s =>
    have hs := takeUpTo_append_drop isHexDigit 6 s
    exact ⟨_, _, congrArg ('-' :: ·) hs.symm, by rw [hs]⟩
  | case2 => simp_all [rangeEnd]

theorem settled_scanRange {opening cs : List Char} (hcs : cs.head?.any isRangeDigit) :
    (scanRange opening cs).Settled (fun cs => if cs.head?.any isRangeDigit then some (scanRange opening cs) else none)
      opening cs := by
  obtain ⟨c, first, s, rfl, hfirst⟩ : ∃ c first s, cs = c :: first ++ s ∧
      takeUpTo isRangeDigit 6 (c :: first ++ s) = c :: first := by
    obtain ⟨c, cs, rfl⟩ : ∃ c s, cs = c :: s := List.exists_cons_of_ne_nil (by rintro rfl; cases hcs)
    have hc : isRangeDigit c := by simpa using hcs
    have hfirst := takeUpTo_append_drop isRangeDigit 6 (c :: cs)
    simp only [takeUpTo, hc, if_true] at hfirst
    refine ⟨c, _, _, hfirst.symm, ?_⟩
    rw [hfirst]
    simp [takeUpTo, hc]
  have hstarts : ∀ t, ((c :: first ++ t).head?.any isRangeDigit) = true := fun _ => hcs
  unfold Scan.Settled
  rw [scanRange_append hfirst]
  dsimp only
  split_ifs with hsecond
  · refine ⟨c :: first, rfl, rfl, fun t ht _ => ?_⟩
    have hsecond' := rangeEnd_eq_nil ht.cut (by simpa using hsecond)
    rw [if_pos (hstarts t), scanRange_append (takeUpTo_replace ht.cut (by decide) hfirst)]
    simp [hsecond']
  · obtain ⟨second, s', rfl, hread⟩ := exists_of_rangeEnd (by simpa using hsecond)
    have hend : rangeEnd ('-' :: (second ++ s')) = second := hread
    have hdrop : ('-' :: (second ++ s')).drop (second.length + 1) = s' := by simp
    rw [hend, hdrop]
    refine ⟨c :: first ++ '-' :: second, by simp, by simp, fun t ht _ => ?_⟩
    have hread' := takeUpTo_replace ht.cut (by decide) hread
    have hend' : rangeEnd ('-' :: (second ++ t)) = second := hread'
    have hcut : Cut ('-' :: (second ++ s')) ('-' :: (second ++ t)) := ht.of_append.cut_append
    have htext : c :: first ++ '-' :: second ++ t = c :: first ++ '-' :: (second ++ t) := by simp
    rw [htext, if_pos (hstarts _), scanRange_append (takeUpTo_replace hcut (by decide) hfirst)]
    rw [hend] at hsecond
    simp [hend', hsecond]

end Scans

/-! ## Forms -/

/-- The kinds that make up a value: spaces and comments only stand between them. -/
def TokenKind.counts : TokenKind → Bool
  | space | comment => false
  | _ => true

theorem TokenKind.counts_eq_true {k : TokenKind} : k.counts = true ↔ k ≠ .space ∧ k ≠ .comment := by
  cases k <;> simp [counts]

theorem TokenKind.counts_eq_false {k : TokenKind} : k.counts = false ↔ k = .space ∨ k = .comment := by
  cases k <;> simp [counts]

/-- A token of a form is known by what it is made of: in a text that is cut short no token of the form stands where
none stood before, and the one that stood there still does. -/
structure Form.Settled (f : Form) : Prop where
  tail : ∀ e ∈ f.opening.tail, e ' ' = false
  none : ∀ (taken : List Char) {s t : List Char}, Cut s t → f.finish? taken s = none → f.finish? taken t = none
  found : ∀ {taken cs : List Char} {s : Scan}, List.Forall₂ (fun d e => e d = true) taken f.opening →
    f.finish? taken cs = some s → (∀ k ∈ s.kind?, k.counts = true) → s.Settled (f.finish? taken) taken cs

namespace Form

theorem settled_range : range.Settled where
  tail := by simp [range]
  none taken s t h hs := by
    have hno : ¬ s.head?.any isRangeDigit := fun hyes => by simp [range, hyes] at hs
    have hstop := h.stops (p := isRangeDigit) (by decide) (by cases s <;> simp_all)
    cases t <;> simp_all [range]
  found := by
    intro taken cs s hopening hs _
    obtain ⟨hcs, hs⟩ := Option.ite_none_right_eq_some.mp hs
    obtain rfl := Option.some.inj hs
    exact settled_scanRange hcs

theorem settled_name : name.Settled where
  tail := nofun
  none taken s t h hs := by
    have hstarts : ¬ startsIdent t := fun ht => by simp [name, h.startsIdent_of ht] at hs
    simp [name, hstarts]
  found := by
    intro taken cs s hopening hs _
    obtain ⟨hcs, hs⟩ := Option.ite_none_right_eq_some.mp hs
    obtain rfl := Option.some.inj hs
    obtain rfl := List.forall₂_nil_right_iff.mp hopening
    exact settled_scanName hcs

theorem settled_marked {mark : Char} {starts : List Char → Bool} {kind : String → TokenKind}
    (hnone : ∀ {s t}, Cut s t → starts t → starts s)
    (hsome : ∀ {cs t}, starts cs → Behind (rawText (nameReader.run cs).1) (nameReader.run cs).2 t →
      starts (rawText (nameReader.run cs).1 ++ t)) :
    (marked mark starts kind).Settled where
  tail := nofun
  none taken s t h hs := by
    have hstarts : ¬ starts t := fun ht => by simp [marked, hnone h ht] at hs
    simp [marked, hstarts]
  found := by
    intro taken cs s hopening hs _
    obtain ⟨hcs, hs⟩ := Option.ite_none_right_eq_some.mp hs
    obtain rfl := Option.some.inj hs
    refine ⟨rawText (nameReader.run cs).1, (nameReader.rawText_run cs).symm, rfl, fun t ht _ => ?_⟩
    dsimp only [marked]
    rw [if_pos (hsome hcs ht), accepts_nameReader.run_replace (by decide) ht]

theorem settled_number : number.Settled where
  tail := nofun
  none taken s t h hs := by
    have hread : Numeral.read? s = none := Option.map_eq_none_iff.mp hs
    exact Option.map_eq_none_iff.mpr (Numeral.read?_eq_none h hread)
  found := by
    intro taken cs s hopening hs _
    obtain ⟨n, hn, rfl⟩ := Option.map_eq_some_iff.mp hs
    obtain rfl := List.forall₂_nil_right_iff.mp hopening
    exact settled_scanNumber hn

theorem settled_quoted {quote : Char} (hquote : quote = '"' ∨ quote = '\'') : (quoted quote).Settled where
  tail := nofun
  none taken s t h hs := by cases hs
  found := by
    rintro taken cs s (_ | ⟨hc, _ | _⟩) hs _
    obtain rfl : _ = quote := eq_of_beq hc
    cases hs
    refine ⟨(readQuoted _ cs).raw, (readQuoted_raw _ cs).symm, rfl, fun t ht hopen => ?_⟩
    dsimp only [quoted]
    rw [readQuoted_replace (by rcases hquote with rfl | rfl <;> decide) ht]
    intro hnone
    have hcut := ht.cut
    unfold Scan.EndsAt at hopen
    dsimp only at hcut hopen
    generalize (readQuoted _ cs).rest = rest at hcut hopen ⊢
    cases hcut with
    | done => exact .inl rfl
    | gap =>
      rcases hopen with hhead | ⟨-, hopen⟩
      · exact .inr hhead
      · exact absurd ⟨hquote, hnone⟩ (hopen rfl)
    | cons => exact .inr rfl

theorem settled_spaces : spaces.Settled where
  tail := nofun
  none taken s t h hs := by cases hs
  found := by
    intro taken cs s hopening hs hcounts
    cases hs
    cases hcounts _ rfl

theorem settled_comment : comment.Settled where
  tail := by simp [comment]
  none taken s t h hs := by cases hs
  found := by
    intro taken cs s hopening hs hcounts
    cases hs
    cases hcounts _ rfl

theorem settled_symbol {first : Char → Bool} {more : List (Char → Bool)} {kind : TokenKind}
    (hmore : ∀ e ∈ more, e ' ' = false) : (symbol first more kind).Settled where
  tail := hmore
  none taken s t h hs := by cases hs
  found := by
    intro taken cs s hopening hs _
    cases hs
    exact ⟨[], rfl, (List.append_nil taken).symm, fun t _ _ => rfl⟩

theorem settled_of_mem_all {f : Form} (hf : f ∈ all) : f.Settled := by
  have hall : ∀ f ∈ all, f.Settled := by
    unfold all
    simp only [List.forall_mem_cons]
    refine ⟨settled_range, settled_name, settled_marked Cut.startsIdent_of fun h _ => startsIdent_run h _,
      settled_number, settled_marked ?_ ?_, settled_quoted (.inl rfl), settled_quoted (.inr rfl), settled_spaces,
      settled_comment, settled_symbol ?_, settled_symbol ?_, settled_symbol ?_, settled_symbol ?_, settled_symbol ?_,
      settled_symbol ?_, settled_symbol ?_, settled_symbol ?_, fun _ h => absurd h List.not_mem_nil⟩
    · intro s t h ht
      by_contra hs
      rw [Option.not_isSome_iff_eq_none] at hs
      have hnone : namePiece? t = none := h.read_eq_none accepts_nameReader (by decide) hs
      simp [hnone] at ht
    · intro cs t hcs ht
      by_contra hnone
      rw [Option.not_isSome_iff_eq_none] at hnone
      have hrun := accepts_nameReader.run_replace (by decide) ht
      rw [PieceReader.run_of_none (r := nameReader) hnone] at hrun
      obtain ⟨⟨p, rest⟩, hread⟩ := Option.isSome_iff_exists.mp hcs
      rw [PieceReader.run_of_some (r := nameReader) hread] at hrun
      cases hrun
    all_goals simp
  exact hall f hf

/-! ## Attempts -/

theorem follow_of_forall₂ {es : List (Char → Bool)} {ds : List Char} (h : List.Forall₂ (fun d e => e d = true) ds es)
    (taken rest : List Char) :
    Probe.follow es ⟨taken, ds ++ rest⟩ = (es.length, ⟨ds.reverse ++ taken, rest⟩) := by
  induction h generalizing taken with
  | nil => rfl
  | cons hc h ih => simp [Probe.follow, hc, Probe.bump, ih]

/-- A form finds a token in a text that opens as it has to. -/
theorem attempt?_eq_found {f : Form} {cs : List Char} {s : Scan} :
    f.attempt? (.start cs) = some (.found s) ↔
      ∃ ds rest, List.Forall₂ (fun d e => e d = true) ds f.opening ∧ cs = ds ++ rest ∧ f.finish? ds rest = some s := by
  unfold attempt? Probe.start
  constructor
  · intro h
    have hfollow := @Probe.exists_of_follow f.opening [] cs
    generalize Probe.follow f.opening ⟨[], cs⟩ = nq at h hfollow
    obtain ⟨n, q⟩ := nq
    dsimp only at h hfollow
    split at h
    · rename_i s' hs
      cases h
      obtain ⟨hn, hs⟩ := Option.ite_none_right_eq_some.mp hs
      obtain ⟨ds, rest, hds, rfl, rfl⟩ := hfollow hn
      exact ⟨ds, rest, hds, rfl, by simpa using hs⟩
    · obtain ⟨_, -, h⟩ := Option.map_eq_some_iff.mp h
      cases h
  · rintro ⟨ds, rest, hds, rfl, hs⟩
    rw [follow_of_forall₂ hds]
    simp [hs]

theorem exists_opening_of_cut {es : List (Char → Bool)} (hes : ∀ e ∈ es, e ' ' = false) {ds rest s : List Char}
    (hds : List.Forall₂ (fun d e => e d = true) ds es) (h : Cut s (ds ++ rest)) : ∃ s', s = ds ++ s' ∧ Cut s' rest := by
  induction hds generalizing s with
  | nil => exact ⟨s, rfl, h⟩
  | @cons d e ds es hd hds ih =>
    obtain ⟨he, hes⟩ := List.forall_mem_cons.mp hes
    obtain ⟨s, rfl, hrest⟩ := h.of_cons (by rintro rfl; simp [he] at hd)
    obtain ⟨s', rfl, h'⟩ := ih hes hrest
    exact ⟨s', rfl, h'⟩

variable {f : Form} {x s t : List Char} {k? : Option TokenKind}

/-- Where the old text has no token of a form, the new one has none. -/
theorem Settled.attempt?_of_not_found (hf : f.Settled) {c : Char} (hc : c ≠ ' ') (h : Cut (c :: s) (c :: t))
    (hs : ∀ sc, f.attempt? (.start (c :: s)) ≠ some (.found sc)) :
    f.attempt? (.start (c :: t)) = some (.givenBack (.start (c :: t))) := by
  refine (f.attempt?_start (c :: t)).resolve_right ?_
  rintro ⟨sc, hsc, -⟩
  obtain ⟨ds, rest, hds, hcons, hfinish⟩ := attempt?_eq_found.mp hsc
  obtain ⟨s', hs', hcut⟩ : ∃ s', c :: s = ds ++ s' ∧ Cut s' rest := by
    have htail := hf.tail
    revert hds htail
    cases f.opening with
    | nil =>
      intro hds _
      obtain rfl := List.forall₂_nil_right_iff.mp hds
      rw [List.nil_append] at hcons
      exact ⟨c :: s, rfl, hcons ▸ h⟩
    | cons e es =>
      rintro (_ | ⟨hd, hds⟩) htail
      obtain ⟨rfl, rfl⟩ := List.cons.inj hcons
      obtain ⟨_, hcons', hrest⟩ := h.of_cons hc
      obtain ⟨-, rfl⟩ := List.cons.inj hcons'
      obtain ⟨s', rfl, hcut⟩ := exists_opening_of_cut htail hds hrest
      exact ⟨s', rfl, hcut⟩
  cases hold : f.finish? ds s' with
  | none =>
    rw [hf.none ds hcut hold] at hfinish
    cases hfinish
  | some sc' => exact hs sc' (attempt?_eq_found.mpr ⟨ds, s', hds, hs', hold⟩)

theorem Settled.attempt?_of_found (hf : f.Settled) (hs : f.attempt? (.start (x ++ s)) = some (.found ⟨k?, x, s⟩))
    (hk : ∀ k ∈ k?, k.counts = true) (h : Behind x s t) (ht : Scan.EndsAt ⟨k?, x, s⟩ t) :
    f.attempt? (.start (x ++ t)) = some (.found ⟨k?, x, t⟩) := by
  obtain ⟨ds, rest, hds, htext, hfinish⟩ := attempt?_eq_found.mp hs
  obtain ⟨y, rfl, rfl, hreplace⟩ := hf.found hds hfinish hk
  exact attempt?_eq_found.mpr ⟨ds, y ++ t, hds, List.append_assoc ds y t, hreplace t h.of_append ht⟩

theorem attemptAll?_of_found {fs : List Form} (hfs : ∀ f ∈ fs, f.Settled) {c : Char} (hc : c ≠ ' ')
    (hs : attemptAll? fs (.start (c :: x ++ s)) = some (.found ⟨k?, c :: x, s⟩)) (hk : ∀ k ∈ k?, k.counts = true)
    (h : Behind (c :: x) s t) (ht : Scan.EndsAt ⟨k?, c :: x, s⟩ t) :
    attemptAll? fs (.start (c :: x ++ t)) = some (.found ⟨k?, c :: x, t⟩) := by
  induction fs with
  | nil => cases hs
  | cons f fs ih =>
    obtain ⟨hf, hfs⟩ := List.forall_mem_cons.mp hfs
    unfold attemptAll? at hs ⊢
    rcases f.attempt?_start (c :: x ++ s) with hattempt | ⟨s', hattempt, -⟩
    · rw [hattempt] at hs
      have hcut : Cut (c :: (x ++ s)) (c :: (x ++ t)) := h.cut_append
      rw [List.cons_append] at hattempt
      rw [List.cons_append, hf.attempt?_of_not_found hc hcut (by simp [hattempt])]
      exact ih hfs hs
    · rw [hattempt] at hs
      cases hs
      rw [hf.attempt?_of_found hattempt hk h ht]

theorem attemptAll?_of_givenBack {fs : List Form} (hfs : ∀ f ∈ fs, f.Settled) {c : Char} (hc : c ≠ ' ')
    (hs : attemptAll? fs (.start (c :: s)) = some (.givenBack (.start (c :: s)))) (h : Cut (c :: s) (c :: t)) :
    attemptAll? fs (.start (c :: t)) = some (.givenBack (.start (c :: t))) := by
  induction fs with
  | nil => rfl
  | cons f fs ih =>
    obtain ⟨hf, hfs⟩ := List.forall_mem_cons.mp hfs
    unfold attemptAll? at hs ⊢
    rcases f.attempt?_start (c :: s) with hattempt | ⟨s', hattempt, -⟩
    · rw [hattempt] at hs
      rw [hf.attempt?_of_not_found hc h (by simp [hattempt])]
      exact ih hfs hs
    · rw [hattempt] at hs
      cases hs

end Form

/-- A scan stays the same where what stands behind it is replaced. -/
theorem scan_replace {c : Char} {x s t : List Char} {k? : Option TokenKind}
    (hs : scan c (x ++ s) = ⟨k?, c :: x, s⟩) (hk : ∀ k ∈ k?, k.counts = true) (h : Behind (c :: x) s t)
    (ht : Scan.EndsAt ⟨k?, c :: x, s⟩ t) : scan c (x ++ t) = ⟨k?, c :: x, t⟩ := by
  have hc : c ≠ ' ' := by
    rintro rfl
    rw [scan_space rfl] at hs
    obtain rfl := congrArg Scan.kind? hs
    cases hk _ rfl
  apply scan_eq_of_scan?
  obtain ⟨s', hs', -⟩ := exists_scan? c (x ++ s)
  rw [scan_eq_of_scan? hs'] at hs
  subst hs
  unfold scan? at hs' ⊢
  rcases Form.attemptAll?_start Form.all (c :: (x ++ s)) with hall | ⟨s', hall, -⟩
  · rw [hall] at hs'
    cases hs'
    have hcut : Cut (c :: s) (c :: t) := h.cut_append
    rw [List.nil_append] at hall ⊢
    rw [Form.attemptAll?_of_givenBack (fun _ => Form.settled_of_mem_all) hc hall hcut]
    rfl
  · rw [hall] at hs'
    cases hs'
    rw [← List.cons_append, Form.attemptAll?_of_found (fun _ => Form.settled_of_mem_all) hc hall hk h ht]
    rfl

end SlotGrid.Style
