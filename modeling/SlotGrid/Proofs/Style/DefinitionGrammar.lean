import SlotGrid.Proofs.Style.Registrations
import SlotGrid.Proofs.Style.Reread

/-! # The grammar of template definitions

A definition is a row or more and then any number of widths. Spaces may stand behind every token of it, except between
the name of a function and its parenthesis, which are one token. Where no token is a space in front, the grammar
derives the same definitions as the one that leaves spaces out.
-/

namespace SlotGrid.Style

/-! ## The grammar -/

def Blank (ks : List TokenKind) : Prop := ∀ k ∈ ks, k = .space

/-- A number that is not negative with a known unit, or a zero without unit. -/
inductive IsLength : Length → TokenKind → Prop
  | dimension {x : Float} {unit : String} {u : LengthUnit} (hx : ¬ x < 0) (hu : u.symbol = unit.toLower) :
    IsLength ⟨x, u⟩ (.dimension x unit)
  | percentage {x : Float} (hx : ¬ x < 0) : IsLength ⟨x, .percent⟩ (.percentage x)
  | zero {x : Float} (hx : x == 0) : IsLength .zero (.number x)

inductive IsHeight : Height → TokenKind → Prop
  | auto : IsHeight .auto (.keyword .auto)
  | equal : IsHeight .equal (.punct .asterisk)
  | length {l : Length} {k : TokenKind} (h : IsLength l k) : IsHeight (.length l) k

/-- A quoted text, whose characters but the blanks are the cells of the row, and the height behind a slash. -/
inductive IsRow : Row → List TokenKind → Prop
  | bare (text : String) {s : List TokenKind} (hs : Blank s) :
    IsRow ⟨text.toList.filter (!Text.isBlank ·), .auto⟩ (.string text :: s)
  | tall (text : String) {height : Height} {k : TokenKind} {s t u : List TokenKind} (hs : Blank s) (ht : Blank t)
    (hheight : IsHeight height k) (hu : Blank u) :
    IsRow ⟨text.toList.filter (!Text.isBlank ·), height⟩ (.string text :: s ++ .delim '/' :: t ++ k :: u)

/-- The start of a range of widths. -/
inductive OpensRange : List TokenKind → Prop
  | function {name : String} (h : name.toLower = "minmax") : OpensRange [.function name]
  | keyword {s : List TokenKind} (hs : Blank s) : OpensRange (.keyword .minMax :: s ++ [.punct .leftParen])

inductive IsWidth : Width → List TokenKind → Prop
  | equal : IsWidth .equal [.punct .asterisk]
  | minContent : IsWidth .minContent [.keyword .minContent]
  | maxContent : IsWidth .maxContent [.keyword .maxContent]
  | fitContent : IsWidth .fitContent [.keyword .fitContent]
  | length {l : Length} {k : TokenKind} (h : IsLength l k) : IsWidth (.length l) [k]
  | minMax {low high : Length} {k k' : TokenKind} {opening s t u v : List TokenKind} (hopening : OpensRange opening)
    (hs : Blank s) (hlow : IsLength low k) (ht : Blank t) (hu : Blank u) (hhigh : IsLength high k') (hv : Blank v) :
    IsWidth (.minMax low high)
      (opening ++ s ++ k :: t ++ .punct .comma :: u ++ k' :: v ++ [.punct .rightParen])

inductive IsSpacedWidth : Width → List TokenKind → Prop
  | spaced {w : Width} {ks s : List TokenKind} (h : IsWidth w ks) (hs : Blank s) : IsSpacedWidth w (ks ++ s)

/-- The rows of a definition and its widths. -/
structure IsDefinition (rows : List Row) (widths : List Width) (ks : List TokenKind) : Prop where
  rows_ne_nil : rows ≠ []
  derives : ∃ rs ws, DerivesAll IsRow rows rs ∧ DerivesAll IsSpacedWidth widths ws ∧ ks = rs ++ ws

/-! ## Without spaces -/

variable {k : TokenKind} {ks rest : List TokenKind}

def withoutSpaces (ks : List TokenKind) : List TokenKind := ks.filter (· ≠ .space)

@[simp] theorem withoutSpaces_nil : withoutSpaces [] = [] := rfl

@[simp] theorem withoutSpaces_append (ks ks' : List TokenKind) :
    withoutSpaces (ks ++ ks') = withoutSpaces ks ++ withoutSpaces ks' := List.filter_append ks ks'

@[simp] theorem withoutSpaces_cons (h : k ≠ .space) (ks : List TokenKind) :
    withoutSpaces (k :: ks) = k :: withoutSpaces ks :=
  List.filter_cons_of_pos (by simpa using h)

theorem Blank.withoutSpaces_eq {s : List TokenKind} (h : Blank s) : withoutSpaces s = [] :=
  List.filter_eq_nil_iff.mpr fun k hk => by simp [h k hk]

theorem parse?_eq_some_iff {s : String} {u : LengthUnit} : LengthUnit.parse? s = some u ↔ u.symbol = s.toLower := by
  unfold LengthUnit.parse?
  constructor
  · intro h
    simpa using List.find?_some h
  · intro h
    rw [← h]
    cases u <;> decide

theorem ofUnit_eq_ok_iff {x : Float} {unit : String} {l : Length} :
    Length.ofUnit x unit = .ok l ↔ ¬ x < 0 ∧ ∃ u : LengthUnit, u.symbol = unit.toLower ∧ l = ⟨x, u⟩ := by
  simp only [← parse?_eq_some_iff]
  unfold Length.ofUnit
  split_ifs with hx
  · simp [hx]
  · cases LengthUnit.parse? unit <;> simp [hx, eq_comm]

theorem lengthOf?_eq_ok_iff {l : Length} : Reader.lengthOf? k = some (.ok l) ↔ IsLength l k := by
  have hpercent : LengthUnit.parse? "%" = some .percent := LengthUnit.parse?_symbol .percent
  constructor
  · intro h
    unfold Reader.lengthOf? at h
    split at h
    · obtain ⟨hx, u, hu, rfl⟩ := ofUnit_eq_ok_iff.mp (Option.some.inj h)
      exact .dimension hx hu
    · obtain ⟨hx, u, hu, rfl⟩ := ofUnit_eq_ok_iff.mp (Option.some.inj h)
      obtain rfl : u = .percent := Option.some.inj ((parse?_eq_some_iff.mpr hu).symm.trans hpercent)
      exact .percentage hx
    · split_ifs at h with hx
      · cases h
        exact .zero hx
      · cases h
    · cases h
  · intro h
    cases h with
    | dimension hx hu => exact congrArg some (ofUnit_eq_ok_iff.mpr ⟨hx, _, hu, rfl⟩)
    | percentage hx => exact congrArg some (ofUnit_eq_ok_iff.mpr ⟨hx, _, parse?_eq_some_iff.mp hpercent, rfl⟩)
    | zero hx => exact if_pos hx

theorem derivesHeight_iff {height : Height} : DerivesHeight height k ↔ IsHeight height k := by
  constructor
  · rintro (_ | _ | hl)
    · exact .auto
    · exact .equal
    · exact .length (lengthOf?_eq_ok_iff.mp hl)
  · rintro (_ | _ | hl)
    · exact .auto
    · exact .equal
    · exact .length (lengthOf?_eq_ok_iff.mpr hl)

theorem IsLength.kind_ne_space {l : Length} (h : IsLength l k) : k ≠ .space := by
  cases h <;> nofun

theorem IsHeight.kind_ne_space {height : Height} (h : IsHeight height k) : k ≠ .space := by
  cases h with
  | length hl => exact hl.kind_ne_space
  | _ => nofun

theorem IsRow.derives {row : Row} (h : IsRow row ks) : DerivesRow row (withoutSpaces ks) := by
  cases h with
  | bare text hs => simpa [Row.ofText, hs.withoutSpaces_eq] using DerivesRow.bare text
  | tall text hs ht hheight hu =>
    simpa [Row.ofText, hheight.kind_ne_space, hs.withoutSpaces_eq, ht.withoutSpaces_eq, hu.withoutSpaces_eq] using
      DerivesRow.tall text (derivesHeight_iff.mpr hheight)

theorem OpensRange.opens (h : OpensRange ks) : OpensMinMax (withoutSpaces ks) := by
  cases h with
  | function hname => exact .function hname
  | keyword hs => simpa [hs.withoutSpaces_eq] using OpensMinMax.keyword

theorem IsSpacedWidth.derives {w : Width} (h : IsSpacedWidth w ks) : DerivesWidth w (withoutSpaces ks) := by
  obtain ⟨h, hs⟩ := h
  rw [withoutSpaces_append, hs.withoutSpaces_eq, List.append_nil]
  cases h with
  | equal => exact .equal
  | minContent => exact .minContent
  | maxContent => exact .maxContent
  | fitContent => exact .fitContent
  | length hl =>
    rw [withoutSpaces_cons hl.kind_ne_space]
    exact .length (lengthOf?_eq_ok_iff.mpr hl)
  | minMax hopening hs hlow ht hu hhigh hv =>
    have hwidth := DerivesWidth.minMax hopening.opens (lengthOf?_eq_ok_iff.mpr hlow) (lengthOf?_eq_ok_iff.mpr hhigh)
    simpa [hlow.kind_ne_space, hhigh.kind_ne_space, hs.withoutSpaces_eq,
      ht.withoutSpaces_eq, hu.withoutSpaces_eq, hv.withoutSpaces_eq] using hwidth

theorem derivesAll_withoutSpaces {α : Type} {D D' : α → List TokenKind → Prop} {as : List α}
    (hD : ∀ {a ks}, D a ks → D' a (withoutSpaces ks)) (h : DerivesAll D as ks) :
    DerivesAll D' as (withoutSpaces ks) := by
  induction h with
  | nil => exact .nil
  | cons ha _ ih =>
    rw [withoutSpaces_append]
    exact .cons (hD ha) ih

/-! ## With spaces again -/

/-- The kinds but the spaces, of which none is in front. -/
structure Leaves (rest ks : List TokenKind) : Prop where
  kinds : withoutSpaces ks = rest
  front : ks.head? ≠ some .space

theorem exists_leaves (ks : List TokenKind) : ∃ s ks', Blank s ∧ ks = s ++ ks' ∧ Leaves (withoutSpaces ks) ks' := by
  induction ks with
  | nil => exact ⟨[], [], nofun, rfl, rfl, nofun⟩
  | cons k ks ih =>
    by_cases hk : k = .space
    · subst hk
      obtain ⟨s, ks', hs, rfl, hleaves⟩ := ih
      exact ⟨.space :: s, ks', List.forall_mem_cons.mpr ⟨rfl, hs⟩, rfl, hleaves⟩
    · exact ⟨[], k :: ks, nofun, rfl, rfl, fun h => hk (Option.some.inj h)⟩

namespace Leaves

theorem ks_eq_nil (h : Leaves [] ks) : ks = [] := by
  cases ks with
  | nil => rfl
  | cons k ks =>
    have hkinds := h.kinds
    rw [withoutSpaces_cons fun hk => h.front (congrArg some hk)] at hkinds
    cases hkinds

/-- The first kind comes with the spaces behind it. -/
theorem exists_cons (h : Leaves (k :: rest) ks) : ∃ s ks', Blank s ∧ ks = k :: s ++ ks' ∧ Leaves rest ks' := by
  cases ks with
  | nil => cases h.kinds
  | cons k' ks =>
    have hkinds := h.kinds
    rw [withoutSpaces_cons fun hk => h.front (congrArg some hk)] at hkinds
    obtain ⟨rfl, rfl⟩ := List.cons.inj hkinds
    obtain ⟨s, ks', hs, hks, hleaves⟩ := exists_leaves ks
    exact ⟨s, ks', hs, congrArg (k' :: ·) hks, hleaves⟩

theorem exists_row {row : Row} {rs : List TokenKind} (hrow : DerivesRow row rs) (h : Leaves (rs ++ rest) ks) :
    ∃ x ks', IsRow row x ∧ ks = x ++ ks' ∧ Leaves rest ks' := by
  cases hrow with
  | bare text =>
    obtain ⟨s, ks', hs, rfl, hleaves⟩ := h.exists_cons
    exact ⟨_, ks', .bare text hs, rfl, hleaves⟩
  | tall text hheight =>
    obtain ⟨s, ks₁, hs, rfl, h₁⟩ := h.exists_cons
    obtain ⟨t, ks₂, ht, rfl, h₂⟩ := h₁.exists_cons
    obtain ⟨u, ks₃, hu, rfl, h₃⟩ := h₂.exists_cons
    exact ⟨_, ks₃, .tall text hs ht (derivesHeight_iff.mp hheight) hu, by simp, h₃⟩

theorem exists_opening {opening : List TokenKind} (hopening : OpensMinMax opening) (h : Leaves (opening ++ rest) ks) :
    ∃ x s ks', OpensRange x ∧ Blank s ∧ ks = x ++ s ++ ks' ∧ Leaves rest ks' := by
  cases hopening with
  | keyword =>
    obtain ⟨s, ks₁, hs, rfl, h₁⟩ := h.exists_cons
    obtain ⟨t, ks₂, ht, rfl, h₂⟩ := h₁.exists_cons
    exact ⟨_, t, ks₂, .keyword hs, ht, by simp, h₂⟩
  | function hname =>
    obtain ⟨s, ks₁, hs, rfl, h₁⟩ := h.exists_cons
    exact ⟨_, s, ks₁, .function hname, hs, rfl, h₁⟩

theorem exists_width {w : Width} {ws : List TokenKind} (hw : DerivesWidth w ws) (h : Leaves (ws ++ rest) ks) :
    ∃ x ks', IsSpacedWidth w x ∧ ks = x ++ ks' ∧ Leaves rest ks' := by
  have hone : ∀ {k : TokenKind}, IsWidth w [k] → Leaves (k :: rest) ks →
      ∃ x ks', IsSpacedWidth w x ∧ ks = x ++ ks' ∧ Leaves rest ks' := by
    intro k hk h
    obtain ⟨s, ks', hs, rfl, hleaves⟩ := h.exists_cons
    exact ⟨_, ks', .spaced hk hs, rfl, hleaves⟩
  cases hw with
  | equal => exact hone .equal h
  | minContent => exact hone .minContent h
  | maxContent => exact hone .maxContent h
  | fitContent => exact hone .fitContent h
  | length hl => exact hone (.length (lengthOf?_eq_ok_iff.mp hl)) h
  | minMax hopening hlow hhigh =>
    have hlow := lengthOf?_eq_ok_iff.mp hlow
    have hhigh := lengthOf?_eq_ok_iff.mp hhigh
    rw [List.append_assoc] at h
    obtain ⟨x, s, ks₁, hx, hs, rfl, h₁⟩ := h.exists_opening hopening
    obtain ⟨t, ks₂, ht, rfl, h₂⟩ := h₁.exists_cons
    obtain ⟨u, ks₃, hu, rfl, h₃⟩ := h₂.exists_cons
    obtain ⟨v, ks₄, hv, rfl, h₄⟩ := h₃.exists_cons
    obtain ⟨b, ks₅, hb, rfl, h₅⟩ := h₄.exists_cons
    exact ⟨_, ks₅, .spaced (.minMax hx hs hlow ht hu hhigh hv) hb, by simp, h₅⟩

theorem exists_all {α : Type} {D D' : α → List TokenKind → Prop} {as : List α} {xs : List TokenKind}
    (hD : ∀ {a xs rest ks}, D' a xs → Leaves (xs ++ rest) ks → ∃ x ks', D a x ∧ ks = x ++ ks' ∧ Leaves rest ks')
    (has : DerivesAll D' as xs) (h : Leaves (xs ++ rest) ks) :
    ∃ x ks', DerivesAll D as x ∧ ks = x ++ ks' ∧ Leaves rest ks' := by
  induction has generalizing ks with
  | nil => exact ⟨[], ks, .nil, rfl, h⟩
  | cons ha _ ih =>
    rw [List.append_assoc] at h
    obtain ⟨x, ks₁, hx, rfl, h₁⟩ := hD ha h
    obtain ⟨y, ks₂, hy, rfl, h₂⟩ := ih h₁
    exact ⟨x ++ y, ks₂, .cons hx hy, (List.append_assoc x y ks₂).symm, h₂⟩

end Leaves

/-- Where a quoted text is in front, spaces make no difference to what is derived. -/
theorem isDefinition_iff {rows : List Row} {widths : List Width} {text : String} (h : ks.head? = some (.string text)) :
    IsDefinition rows widths ks ↔ DerivesDefinition rows widths (withoutSpaces ks) := by
  constructor
  · rintro ⟨-, rs, ws, hrs, hws, rfl⟩
    exact ⟨_, _, derivesAll_withoutSpaces IsRow.derives hrs, derivesAll_withoutSpaces IsSpacedWidth.derives hws,
      withoutSpaces_append rs ws⟩
  · rintro ⟨rs, ws, hrs, hws, hks⟩
    have hleaves : Leaves (rs ++ (ws ++ [])) ks := ⟨by rw [hks, List.append_nil], by rw [h]; nofun⟩
    obtain ⟨x, ks₁, hx, hks₁, h₁⟩ := hleaves.exists_all (D := IsRow) (fun ha h => h.exists_row ha) hrs
    obtain ⟨y, ks₂, hy, hks₂, h₂⟩ := h₁.exists_all (D := IsSpacedWidth) (fun ha h => h.exists_width ha) hws
    obtain rfl := h₂.ks_eq_nil
    refine ⟨?_, x, y, hx, hy, by rw [hks₁, hks₂, List.append_nil]⟩
    -- without a row the text in front would be the first kind of a width
    rintro rfl
    cases hrs
    obtain ⟨ks', rfl⟩ := List.head?_eq_some_iff.mp h
    refine (Reader.head?_of_derivesWidths hws).2 text ?_
    rw [← List.nil_append ws, ← hks]
    rfl

/-! ## The reader -/

namespace Stream

theorem map_kind_ofTokens (ts : List Token) :
    (ofTokens ts).map Item.kind = (ts.map Token.kind).filter (· ≠ .comment) := by
  induction ts with
  | nil => rfl
  | cons t ts ih =>
    by_cases ht : t.kind = .comment
    · simpa [ofTokens, Item.isComment, ht] using ih
    · rw [ofTokens_cons ht, List.map_cons, ih, List.map_cons, List.filter_cons_of_pos (by simpa using ht)]
      rfl

theorem valueKinds_ofTokens (ts : List Token) : (ofTokens ts).valueKinds =
    withoutSpaces (((ts.map Token.kind).filter (· ≠ .comment)).takeWhile (!·.endsDeclaration)) := by
  rw [← map_kind_ofTokens, List.takeWhile_map]
  rfl

theorem skipDeclaration_ofTokens (ts : List Token) :
    (ofTokens ts).skipDeclaration = ofTokens (ts.dropWhile (!·.kind.endsDeclaration)) := by
  induction ts with
  | nil => rfl
  | cons t ts ih =>
    cases hends : t.kind.endsDeclaration with
    | true =>
      have ht : t.kind ≠ .comment := fun ht => by
        rw [ht] at hends
        cases hends
      rw [List.dropWhile_cons_of_neg (by simpa using hends), ofTokens_cons ht]
      exact skipDeclaration_of_ends hends
    | false =>
      rw [List.dropWhile_cons_of_pos (by simpa using hends), ← ih]
      by_cases ht : t.kind = .comment
      · simp [ofTokens, Item.isComment, ht]
      · have hi : (Item.token t).kind.endsDeclaration = false := hends
        rw [ofTokens_cons ht]
        exact List.dropWhile_cons_of_pos (by simpa using hi)

end Stream

theorem head?_map_kind {s : Stream} {text : String} (h : s.kind = .string text) :
    (s.map Item.kind).head? = some (.string text) := by
  cases s with
  | nil => cases h
  | cons i s => exact congrArg some h

/-- Nothing but the stream changes, and it is left at the end of the declaration. -/
theorem eq_of_templateDefinition {p q : Progress} {rows : List Row} {widths : List Width} (hp : p.stream.kind ≠ .space)
    (h : Reader.templateDefinition p = .ok (rows, widths) q) : q = { p with stream := p.stream.skipDeclaration } := by
  have hwrote : p.Wrote q := Reader.plain_templateDefinition.of_ok h
  have hmoved : p.Moved q := Reader.moved_templateDefinition.of_ok h
  obtain ⟨is, his, hsplit⟩ := hwrote.passed
  rw [← hsplit, his.skipDeclaration_append,
    Stream.skipDeclaration_of_ends (Reader.derives_of_templateDefinition hp h).1]
  exact hmoved

/-- From a quoted text on, a definition is read exactly where the kinds up to the end of the declaration are those of
rows and widths. It is theirs, and the reader stops at that end. -/
theorem templateDefinition_eq_ok_iff_isDefinition {p : Progress} {ts : List Token} {text : String} {rows : List Row}
    {widths : List Width} {q : Progress} (hstream : p.stream = .ofTokens ts) (htext : p.stream.kind = .string text) :
    Reader.templateDefinition p = .ok (rows, widths) q ↔
      IsDefinition rows widths (((ts.map Token.kind).filter (· ≠ .comment)).takeWhile (!·.endsDeclaration)) ∧
        q = { p with stream := .ofTokens (ts.dropWhile (!·.kind.endsDeclaration)) } := by
  have hspace : p.stream.kind ≠ .space := by
    rw [htext]
    nofun
  have hhead : (((ts.map Token.kind).filter (· ≠ .comment)).takeWhile (!·.endsDeclaration)).head? =
      some (.string text) := by
    obtain ⟨ks, hks⟩ := List.head?_eq_some_iff.mp (head?_map_kind htext)
    rw [← Stream.map_kind_ofTokens, ← hstream, hks]
    rfl
  have hat : Reader.At p.stream.valueKinds p := ⟨⟨hstream ▸ Stream.whole_ofTokens ts, rfl⟩, hspace⟩
  rw [isDefinition_iff hhead, ← Stream.valueKinds_ofTokens, ← Stream.skipDeclaration_ofTokens, ← hstream,
    ← Reader.templateDefinition_eq_ok_iff hat]
  constructor
  · exact fun hq => ⟨⟨q, hq⟩, eq_of_templateDefinition hspace hq⟩
  · rintro ⟨⟨q', hq'⟩, rfl⟩
    rw [← eq_of_templateDefinition hspace hq']
    exact hq'

/-- `"a b" / */**/"c"min-content *;` -/
theorem templateDefinition_two_rows :
    let semicolon : Token := ⟨.punct .semicolon, [';'], 29⟩
    let p : Progress := .start (.ofTokens [⟨.string "a b", "\"a b\"".toList, 0⟩, ⟨.space, [' '], 5⟩,
      ⟨.delim '/', ['/'], 6⟩, ⟨.space, [' '], 7⟩, ⟨.punct .asterisk, ['*'], 8⟩, ⟨.comment, "/**/".toList, 9⟩,
      ⟨.string "c", "\"c\"".toList, 13⟩, ⟨.keyword .minContent, "min-content".toList, 16⟩, ⟨.space, [' '], 27⟩,
      ⟨.punct .asterisk, ['*'], 28⟩, semicolon])
    Reader.templateDefinition p = .ok ([⟨['a', 'b'], .equal⟩, ⟨['c'], .auto⟩], [.minContent, .equal])
      { p with stream := [.token semicolon] } := by
  intro semicolon p
  have hnone : Blank [] := List.forall_mem_nil _
  have hone : Blank [.space] := List.forall_mem_singleton.mpr rfl
  have hcells : "a b".toList.filter (!Text.isBlank ·) = ['a', 'b'] ∧ "c".toList.filter (!Text.isBlank ·) = ['c'] := by
    decide +kernel
  have hrows := DerivesAll.cons (IsRow.tall "a b" hone hone .equal hnone) (.cons (.bare "c" hnone) .nil)
  have hwidths := DerivesAll.cons (IsSpacedWidth.spaced .minContent hone) (.cons (.spaced .equal hnone) .nil)
  rw [hcells.1, hcells.2] at hrows
  exact (templateDefinition_eq_ok_iff_isDefinition rfl rfl).mpr ⟨⟨List.cons_ne_nil _ _, _, _, hrows, hwidths, rfl⟩, rfl⟩

end SlotGrid.Style
