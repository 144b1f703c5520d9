import SlotGrid.Proofs.Style.Definition
import SlotGrid.Proofs.Style.Figures
import SlotGrid.Proofs.Style.Spaced

/-! # Tokens of templates

What a template is written as are the tokens of its definition: a quoted text for each row with its height, and then
the widths of its columns, each with a space behind it.
-/

namespace SlotGrid.Style

/-! ## Runs and numbers -/

section Scans

variable {w s : List Char}

/-- Characters that stand for themselves are read up to where nothing more is. -/
theorem PieceReader.run_literals {r : PieceReader} (hw : ∀ c ∈ w, ∀ t, r.read (c :: t) = some (.literal c, t))
    (hs : r.read s = none) : r.run (w ++ s) = (w.map .literal, s) := by
  induction w with
  | nil => exact run_of_none hs
  | cons c w ih =>
    obtain ⟨hc, hw⟩ := List.forall_mem_cons.mp hw
    rw [List.cons_append, run_of_some (hc (w ++ s)), ih hw]
    rfl

theorem rawText_literals (w : List Char) : rawText (w.map .literal) = w := by
  simp [rawText, Piece.literal, List.flatMap_map]

theorem decodedText_literals (w : List Char) : decodedText (w.map .literal) = .ofList w := by
  simp [decodedText, Piece.literal, List.flatMap_map]

theorem run_nameReader (hw : ∀ c ∈ w, isNameChar c) (hs : nameReader.read s = none) :
    nameReader.run (w ++ s) = (w.map .literal, s) := by
  refine PieceReader.run_literals (fun c hc t => ?_) hs
  have hstroke : c ≠ '\\' := by
    rintro rfl
    exact absurd (hw _ hc) (by decide)
  rw [accepts_nameReader.literal c t hstroke, if_pos (hw c hc)]

/-- The names of slots that need no escapes in quotes. -/
def IsPlainName (c : Char) : Prop := isUrlChar c ∨ c = '\''

theorem IsPlainName.ne {c : Char} (h : IsPlainName c) : c ≠ '"' ∧ c ≠ '\\' := by
  constructor
  all_goals
    rintro rfl
    rcases h with h | h <;> cases h

/-- The text of a row up to its closing quote. -/
theorem scan_quotedRow (hw : ∀ c ∈ w, IsPlainName c) (s : List Char) :
    scan '"' (w ++ '"' :: s) = ⟨some (.string (.ofList w)), '"' :: (w ++ ['"']), s⟩ := by
  have hrun : (quotedReader '"').run (w ++ '"' :: s) = (w.map .literal, '"' :: s) := by
    refine PieceReader.run_literals (fun c hc t => ?_) (by simp [quotedReader, quotedPiece?])
    obtain ⟨hquote, hstroke⟩ := (hw c hc).ne
    have hquoted : c = ' ' ∨ c = '"' ∨ c = '\'' ∨ isUrlChar c := by
      rcases hw c hc with h | h <;> simp [h]
    change quotedPiece? '"' (c :: t) = _
    rw [quotedPiece?_literal '"' hstroke, if_pos ⟨hquote, hquoted⟩]
  have hread : readQuoted '"' (w ++ '"' :: s) = ⟨.ofList w, w ++ ['"'], s⟩ := by
    simp [readQuoted, hrun, rawText_literals, decodedText_literals]
  have hscan : scan? '"' (w ++ '"' :: s) = some ⟨some (.string (readQuoted '"' (w ++ '"' :: s)).value),
      ['"'] ++ (readQuoted '"' (w ++ '"' :: s)).raw, (readQuoted '"' (w ++ '"' :: s)).rest⟩ := rfl
  rw [scan_eq_of_scan? hscan, hread]
  rfl

end Scans

/-! ## Lengths -/

/-- The number that is read from its text is the number itself. -/
def ReadsBack (x : Float) : Prop := ∀ n, Numeral.read? (Decimal.Layout.plain.double x).toList = some n → n.value = x

theorem Numeral.exists_of_readsBack {x : Float} (hx : x.isFinite) (hback : ReadsBack x) :
    ∃ n : Numeral, n.Written ∧ n.raw = (Decimal.Layout.plain.double x).toList ∧ n.value = x := by
  obtain ⟨n, hn, hraw⟩ := Numeral.exists_raw_eq_double hx
  refine ⟨n, hn, hraw, hback n ?_⟩
  rw [← hraw, ← n.raw.append_nil]
  exact Numeral.read?_raw_append hn ⟨nofun, fun _ => rfl⟩

end SlotGrid.Style

namespace SlotGrid

open Style

namespace LengthUnit

theorem parse?_symbol (u : LengthUnit) : parse? u.symbol = some u := by
  cases u <;> cbv

/-- All units but one are words. -/
theorem exists_symbol {u : LengthUnit} (h : u ≠ percent) :
    ∃ c w, u.symbol.toList = c :: w ∧ c.isAlpha ∧ ∀ d ∈ c :: w, isNameChar d := by
  cases u
  case percent => exact absurd rfl h
  all_goals simp [symbol, isNameChar]

end LengthUnit

namespace Length

/-- The token of a length. -/
def kind (l : Length) : TokenKind :=
  match l.unit with
  | .percent => .percentage l.value
  | u => .dimension l.value u.symbol

theorem lengthOf?_kind {l : Length} (h : ¬ l.value < 0) : Reader.lengthOf? l.kind = some (.ok l) := by
  have hunit : ofUnit l.value l.unit.symbol = .ok l := by
    simp [ofUnit, h, l.unit.parse?_symbol]
  rcases l with ⟨x, u⟩
  cases u <;> exact congrArg some hunit

theorem kind_of_ne_percent {l : Length} (h : l.unit ≠ .percent) : l.kind = .dimension l.value l.unit.symbol := by
  rcases l with ⟨x, u⟩
  cases u
  case percent => exact absurd rfl h
  all_goals rfl

theorem kind_counts (l : Length) : l.kind.counts := by
  rcases l with ⟨x, u⟩
  cases u <;> rfl

/-- What stands behind a length does not go on with it. -/
def EndsAt (s : List Char) : Prop := ∃ c t, s = c :: t ∧ (c = ' ' ∨ c = ',' ∨ c = ')')

theorem scan_text {l : Length} (hx : l.value.isFinite) (hback : ReadsBack l.value) {c : Char} {cs s : List Char}
    (hs : EndsAt s) (h : c :: cs = l.text.toList ++ s) : scan c cs = ⟨some l.kind, l.text.toList, s⟩ := by
  obtain ⟨n, hn, hraw, hvalue⟩ := Numeral.exists_of_readsBack hx hback
  have htext : l.text.toList = n.raw ++ l.unit.symbol.toList := by
    rw [text, String.toList_append, hraw]
  rw [htext, List.append_assoc] at h
  by_cases hunit : l.unit = .percent
  · have hsymbol : l.unit.symbol.toList = ['%'] := by
      rw [hunit]
      rfl
    have hkind : l.kind = .percentage n.value := by
      rw [kind, hunit, hvalue]
    rw [hsymbol] at h
    have hend : n.EndsAt ('%' :: s) := ⟨by simp, fun _ => rfl⟩
    have hstarts : startsIdent ('%' :: s) = false := rfl
    rw [scan_of_written hn hend h, h, List.singleton_append, scanNumber_raw_append, hstarts, hkind, htext, hsymbol]
    rfl
  · obtain ⟨d, w, hsymbol, halpha, hname⟩ := LengthUnit.exists_symbol hunit
    have hread : nameReader.read s = none := by
      obtain ⟨c, t, rfl, rfl | rfl | rfl⟩ := hs <;> rfl
    have hne : ∀ e : Char, e.isAlpha = false → d ≠ e := by
      rintro e he rfl
      rw [halpha] at he
      cases he
    have hstart : isNameStart d := by simp [isNameStart, halpha]
    have hstarts : startsIdent (d :: w ++ s) := by
      rwa [List.cons_append, startsIdent_cons (hne '-' rfl) (hne '\\' rfl)]
    have hend : n.EndsAt (d :: w ++ s) := by
      constructor
      · rintro _ ⟨⟩
        by_contra hdigit
        rw [isNameStart_of_isDigit (by simpa using hdigit)] at hstart
        cases hstart
      · intro _
        simp [Numeral.fractionOf, hne '.' rfl]
    rw [hsymbol] at h
    rw [scan_of_written hn hend h, h, scanNumber_raw_append, if_pos hstarts, run_nameReader hname hread,
      kind_of_ne_percent hunit, htext, hsymbol, rawText_literals, decodedText_literals, hvalue, ← hsymbol,
      String.ofList_toList]

theorem readsAs_text {l : Length} (hx : l.value.isFinite) (hback : ReadsBack l.value) {s : List Char}
    {ks : List TokenKind} (hend : EndsAt s) (hs : ReadsAs s ks) : ReadsAs (l.text.toList ++ s) (l.kind :: ks) := by
  cases h : l.text.toList ++ s with
  | nil =>
    obtain ⟨c, t, rfl, -⟩ := hend
    simp at h
  | cons c cs => exact hs.token (scan_text hx hback hend h.symm) l.kind_counts

end Length

/-! ## Tokens with a space behind them -/

namespace Style

/-- With a space behind them the characters are tokens of these kinds. -/
def Prints (cs : List Char) (ks : List TokenKind) : Prop :=
  ∀ s ks', ReadsAs s ks' → ReadsAs (cs ++ ' ' :: s) (ks ++ ks')

/-- A token that is no quoted text is the same whatever follows the next space. -/
theorem scan_of_space {c : Char} {x y : List Char} {k : TokenKind}
    (hscan : scan c (x ++ (y ++ [' '])) = ⟨some k, c :: x, y ++ [' ']⟩) (hk : k.counts)
    (hquote : c ≠ '"' ∧ c ≠ '\'') (s : List Char) :
    scan c (x ++ (y ++ ' ' :: s)) = ⟨some k, c :: x, y ++ ' ' :: s⟩ := by
  have hbehind : Behind (c :: x ++ y) [' '] (' ' :: s) := by
    constructor
    · exact .gap (.inl rfl) [] s
    · rintro - ⟨⟩
    · rintro - - a ⟨⟩
      rfl
  exact scan_replace hscan (by simpa using hk) hbehind.prepend (.inr ⟨rfl, fun _ h => h.1.elim hquote.1 hquote.2⟩)

namespace Prints

variable {cs cs' : List Char} {ks ks' : List TokenKind}

theorem append (h : Prints cs ks) (h' : Prints cs' ks') : Prints (cs ++ ' ' :: cs') (ks ++ ks') := by
  intro s ks'' hs
  rw [List.append_assoc, List.append_assoc, List.cons_append]
  exact h _ _ (h' _ _ hs)

theorem of_scan {c : Char} {x : List Char} {k : TokenKind} (hscan : scan c (x ++ [' ']) = ⟨some k, c :: x, [' ']⟩)
    (hk : k.counts) (hquote : c ≠ '"' ∧ c ≠ '\'') : Prints (c :: x) [k] :=
  fun s _ hs => hs.space.token (scan_of_space (y := []) hscan hk hquote s) hk

theorem of_length {l : Length} (hx : l.value.isFinite) (hback : ReadsBack l.value) : Prints l.text.toList [l.kind] :=
  fun s _ hs => Length.readsAs_text hx hback ⟨' ', s, rfl, .inl rfl⟩ hs.space

theorem asterisk : Prints ['*'] [.punct .asterisk] := of_scan (by cbv) rfl (by decide)

end Prints

end Style

/-! ## Rows and widths -/

def Height.lengths : Height → List Length
  | length l => [l]
  | _ => []

def Width.lengths : Width → List Length
  | length l => [l]
  | minMax low high => [low, high]
  | _ => []

/-- A length that may be given, and whose number is read again. -/
structure Length.Legible (l : Length) : Prop where
  finite : l.value.isFinite
  nonneg : ¬ l.value < 0
  readsBack : ReadsBack l.value

theorem Height.exists_prints {height : Height} (h : ∀ l ∈ height.lengths, l.Legible) (hauto : height ≠ .auto) :
    ∃ k, DerivesHeight height k ∧ Prints height.text.toList [k] := by
  cases height with
  | length l =>
    have hl := h l (List.mem_singleton_self l)
    exact ⟨l.kind, .length (l.lengthOf?_kind hl.nonneg), .of_length hl.finite hl.readsBack⟩
  | auto => exact absurd rfl hauto
  | equal => exact ⟨_, .equal, .asterisk⟩

theorem Row.ofText_cells {r : Row} (h : ∀ c ∈ r.cells, Text.isBlank c = false) :
    ofText (.ofList r.cells) r.height = r := by
  have hfilter : r.cells.filter (!Text.isBlank ·) = r.cells := List.filter_eq_self.mpr (by simpa using h)
  unfold ofText
  rw [String.toList_ofList, hfilter]

theorem Row.exists_prints {r : Row} (hcells : ∀ c ∈ r.cells, IsPlainName c ∧ Text.isBlank c = false)
    (h : ∀ l ∈ r.height.lengths, l.Legible) : ∃ ks, DerivesRow r ks ∧ Prints r.text.toList ks := by
  have hrow := Row.ofText_cells fun c hc => (hcells c hc).2
  have hquoted : Prints ('"' :: (r.cells ++ ['"'])) [.string (.ofList r.cells)] := by
    intro s ks hs
    have hscan := scan_quotedRow (fun c hc => (hcells c hc).1) (' ' :: s)
    simpa using hs.space.token hscan rfl
  by_cases hauto : r.height = .auto
  · have hderives := DerivesRow.bare (.ofList r.cells)
    rw [← hauto, hrow] at hderives
    have htext : r.text.toList = '"' :: (r.cells ++ ['"']) := by
      simp [text, hauto]
    exact ⟨_, hderives, htext ▸ hquoted⟩
  · obtain ⟨k, hk, hheight⟩ := Height.exists_prints h hauto
    have hslash : Prints ['/'] [.delim '/'] := .of_scan (by cbv) rfl (by decide)
    have hderives := DerivesRow.tall (.ofList r.cells) hk
    rw [hrow] at hderives
    have htext : r.text.toList = '"' :: (r.cells ++ ['"']) ++ ' ' :: (['/'] ++ ' ' :: r.height.text.toList) := by
      simp [text, hauto]
    exact ⟨_, hderives, htext ▸ hquoted.append (hslash.append hheight)⟩

theorem scan_minMax (s : List Char) :
    scan 'm' (['i', 'n', 'm', 'a', 'x', '('] ++ s) = ⟨some (.function "minmax"), "minmax(".toList, s⟩ := by
  have hrun : nameReader.run (['m', 'i', 'n', 'm', 'a', 'x'] ++ '(' :: s) =
      (['m', 'i', 'n', 'm', 'a', 'x'].map .literal, '(' :: s) := run_nameReader (by simp [isNameChar]) rfl
  have hscan : scan? 'm' (['i', 'n', 'm', 'a', 'x', '('] ++ s) =
      some (scanName (['m', 'i', 'n', 'm', 'a', 'x'] ++ '(' :: s)) := rfl
  have hname : scanName (['m', 'i', 'n', 'm', 'a', 'x'] ++ '(' :: s) =
      if "minmax".toLower = "url" then scanAddress "minmax(".toList s
      else ⟨some (.function "minmax"), "minmax(".toList, s⟩ := by
    rw [scanName, hrun]
    simp only [decodedText_literals, rawText_literals]
    rfl
  have hurl : "minmax".toLower ≠ "url" := by cbv
  rw [scan_eq_of_scan? hscan, hname, if_neg hurl]

theorem Width.exists_prints {w : Width} (h : ∀ l ∈ w.lengths, l.Legible) :
    ∃ ks, DerivesWidth w ks ∧ Prints w.text.toList ks := by
  cases w with
  | length l =>
    have hl := h l (List.mem_singleton_self l)
    exact ⟨_, .length (l.lengthOf?_kind hl.nonneg), .of_length hl.finite hl.readsBack⟩
  | equal => exact ⟨_, .equal, .asterisk⟩
  | minContent =>
    have hword : Prints ['m', 'i', 'n', '-', 'c', 'o', 'n', 't', 'e', 'n', 't'] [.keyword .minContent] :=
      .of_scan (by cbv) rfl (by decide)
    exact ⟨_, .minContent, hword⟩
  | maxContent =>
    have hword : Prints ['m', 'a', 'x', '-', 'c', 'o', 'n', 't', 'e', 'n', 't'] [.keyword .maxContent] :=
      .of_scan (by cbv) rfl (by decide)
    exact ⟨_, .maxContent, hword⟩
  | fitContent =>
    have hword : Prints ['f', 'i', 't', '-', 'c', 'o', 'n', 't', 'e', 'n', 't'] [.keyword .fitContent] :=
      .of_scan (by cbv) rfl (by decide)
    exact ⟨_, .fitContent, hword⟩
  | minMax low high =>
    have hlow := h low (by simp [lengths])
    have hhigh := h high (by simp [lengths])
    have hcomma : Prints [','] [.punct .comma] := .of_scan (by cbv) rfl (by decide)
    have hparen : Prints [')'] [.punct .rightParen] := .of_scan (by cbv) rfl (by decide)
    have hname : "minmax".toLower = "minmax" := by cbv
    refine ⟨_, .minMax (.function hname) (low.lengthOf?_kind hlow.nonneg) (high.lengthOf?_kind hhigh.nonneg), ?_⟩
    intro s ks hs
    have hend := Length.readsAs_text hhigh.finite hhigh.readsBack ⟨')', _, rfl, .inr (.inr rfl)⟩ (hparen s ks hs)
    have hbegin := Length.readsAs_text hlow.finite hlow.readsBack ⟨',', _, rfl, .inr (.inl rfl)⟩ (hcomma _ _ hend)
    have hreads := hbegin.token (scan_minMax _) rfl
    have htext : (minMax low high).text.toList = 'm' :: (['i', 'n', 'm', 'a', 'x', '('] ++
        (low.text.toList ++ ',' :: ' ' :: (high.text.toList ++ [')']))) := by
      simp [text]
    rw [htext]
    simpa using hreads

/-! ## Whole texts -/

theorem Style.exists_prints_intercalate {α : Type} {D : α → List TokenKind → Prop} {f : α → String} {as : List α}
    (hne : as ≠ []) (h : ∀ a ∈ as, ∃ ks, D a ks ∧ Prints (f a).toList ks) :
    ∃ ks, DerivesAll D as ks ∧ Prints (" ".intercalate (as.map f)).toList ks := by
  induction as with
  | nil => exact absurd rfl hne
  | cons a as ih =>
    obtain ⟨ha, has⟩ := List.forall_mem_cons.mp h
    obtain ⟨ks, hks, hprints⟩ := ha
    cases as with
    | nil =>
      refine ⟨ks ++ [], .cons hks .nil, ?_⟩
      simpa using hprints
    | cons b bs =>
      obtain ⟨ks', hks', hprints'⟩ := ih nofun has
      refine ⟨ks ++ ks', .cons hks hks', ?_⟩
      have htext : (" ".intercalate ((a :: b :: bs).map f)).toList =
          (f a).toList ++ ' ' :: (" ".intercalate ((b :: bs).map f)).toList := by
        simp [String.intercalate_cons_cons]
      rw [htext]
      exact hprints.append hprints'

namespace Template

def lengths (t : Template) : List Length := t.rows.flatMap (·.height.lengths) ++ t.widths.flatMap Width.lengths

/-- The tokens of a template are those of a definition with its rows and widths. -/
theorem exists_prints {t : Template} (hrows : t.rows ≠ []) (hwidths : t.widths ≠ [])
    (hcells : ∀ r ∈ t.rows, ∀ c ∈ r.cells, IsPlainName c ∧ Text.isBlank c = false) (h : ∀ l ∈ t.lengths, l.Legible) :
    ∃ ks, DerivesDefinition t.rows t.widths ks ∧ Prints t.text.toList ks := by
  obtain ⟨hheights, hlengths⟩ := List.forall_mem_append.mp h
  obtain ⟨rs, hrs, hrows'⟩ := exists_prints_intercalate hrows fun r hr =>
    r.exists_prints (hcells r hr) fun l hl => hheights l (List.mem_flatMap_of_mem hr hl)
  obtain ⟨ws, hws, hwidths'⟩ := exists_prints_intercalate hwidths fun w hw =>
    w.exists_prints fun l hl => hlengths l (List.mem_flatMap_of_mem hw hl)
  refine ⟨rs ++ ws, ⟨rs, ws, hrs, hws, rfl⟩, ?_⟩
  have htext : t.text.toList = (" ".intercalate (t.rows.map Row.text)).toList ++
      ' ' :: (" ".intercalate (t.widths.map Width.text)).toList := by
    simp [text, hwidths]
  rw [htext]
  exact hrows'.append hwidths'

end Template

end SlotGrid
