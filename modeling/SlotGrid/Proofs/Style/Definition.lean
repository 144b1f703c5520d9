import SlotGrid.Proofs.Style.Recognition

/-! # Definitions of templates

Spaces apart, the tokens of a definition are those of its rows and then those of its widths. The readers of template
definitions read exactly what this grammar derives, and the definition is the one that it derives.
-/

namespace SlotGrid.Style

open Reader

/-! ## The grammar -/

inductive DerivesHeight : Height → TokenKind → Prop
  | auto : DerivesHeight .auto (.keyword .auto)
  | equal : DerivesHeight .equal (.punct .asterisk)
  | length {l : Length} {k : TokenKind} (h : lengthOf? k = some (.ok l)) : DerivesHeight (.length l) k

inductive DerivesRow : Row → List TokenKind → Prop
  | bare (text : String) : DerivesRow (.ofText text .auto) [.string text]
  | tall (text : String) {height : Height} {k : TokenKind} (h : DerivesHeight height k) :
    DerivesRow (.ofText text height) [.string text, .delim '/', k]

/-- The start of a range of widths, with or without a space in it. -/
inductive OpensMinMax : List TokenKind → Prop
  | keyword : OpensMinMax [.keyword .minMax, .punct .leftParen]
  | function {name : String} (h : name.toLower = "minmax") : OpensMinMax [.function name]

inductive DerivesWidth : Width → List TokenKind → Prop
  | equal : DerivesWidth .equal [.punct .asterisk]
  | minContent : DerivesWidth .minContent [.keyword .minContent]
  | maxContent : DerivesWidth .maxContent [.keyword .maxContent]
  | fitContent : DerivesWidth .fitContent [.keyword .fitContent]
  | length {l : Length} {k : TokenKind} (h : lengthOf? k = some (.ok l)) : DerivesWidth (.length l) [k]
  | minMax {opening : List TokenKind} {low high : Length} {k k' : TokenKind} (hopening : OpensMinMax opening)
    (hlow : lengthOf? k = some (.ok low)) (hhigh : lengthOf? k' = some (.ok high)) :
    DerivesWidth (.minMax low high) (opening ++ [k, .punct .comma, k', .punct .rightParen])

theorem DerivesRow.ne_nil {row : Row} {ks : List TokenKind} (h : DerivesRow row ks) : ks ≠ [] := by
  cases h <;> simp

theorem DerivesWidth.ne_nil {w : Width} {ks : List TokenKind} (h : DerivesWidth w ks) : ks ≠ [] := by
  cases h <;> simp

/-- The kinds of several rows or of several widths. -/
inductive DerivesAll {α : Type} (D : α → List TokenKind → Prop) : List α → List TokenKind → Prop
  | nil : DerivesAll D [] []
  | cons {a : α} {as : List α} {ks ks' : List TokenKind} (h : D a ks) (hs : DerivesAll D as ks') :
    DerivesAll D (a :: as) (ks ++ ks')

/-- The kinds of a definition. -/
def DerivesDefinition (rows : List Row) (widths : List Width) (ks : List TokenKind) : Prop :=
  ∃ rs ws, DerivesAll DerivesRow rows rs ∧ DerivesAll DerivesWidth widths ws ∧ ks = rs ++ ws

/-! ## The kinds of a value -/

namespace Stream

/-- The kinds of the items up to the end of the declaration, without spaces. -/
def valueKinds (s : Stream) : List TokenKind := (s.declarationItems.map Item.kind).filter (· ≠ .space)

variable {i : Item} {s : Stream} {k : TokenKind} {ks : List TokenKind}

theorem valueKinds_of_ends (h : s.kind.endsDeclaration = true) : s.valueKinds = [] := by
  cases s with
  | nil => rfl
  | cons i s =>
    have hi : i.kind.endsDeclaration = true := h
    simp [valueKinds, declarationItems, hi]

theorem valueKinds_cons_of_space (h : i.kind = .space) : valueKinds (i :: s) = valueKinds s := by
  simp [valueKinds, declarationItems, h, TokenKind.endsDeclaration]

theorem valueKinds_cons (h : i.kind.endsDeclaration = false) (hspace : i.kind ≠ .space) :
    valueKinds (i :: s) = i.kind :: valueKinds s := by
  simp [valueKinds, declarationItems, h, hspace]

theorem valueKinds_dropWhile_space (s : Stream) : valueKinds (s.dropWhile (·.kind = .space)) = valueKinds s := by
  induction s with
  | nil => rfl
  | cons i s ih =>
    by_cases hi : i.kind = .space
    · rw [List.dropWhile_cons_of_pos (by simpa using hi), ih, valueKinds_cons_of_space hi]
    · rw [List.dropWhile_cons_of_neg (by simpa using hi)]

theorem valueKinds_append {is : List Item} (his : ∀ i ∈ is, i.kind.endsDeclaration = false)
    (hs : s.kind.endsDeclaration = true) : valueKinds (is ++ s) = valueKinds is := by
  have hnone : declarationItems s = [] := by
    cases s with
    | nil => rfl
    | cons i s => exact List.takeWhile_cons_of_neg (by simpa [kind] using hs)
  have hall : declarationItems is = is := by
    unfold declarationItems
    rw [List.takeWhile_eq_self_iff]
    simpa using his
  have happend : declarationItems (is ++ s) = is ++ declarationItems s :=
    List.takeWhile_append_of_pos (by simpa using his)
  unfold valueKinds
  rw [happend, hnone, hall, List.append_nil]

theorem ends_of_valueKinds (h : s.valueKinds = []) (hspace : s.kind ≠ .space) : s.kind.endsDeclaration = true := by
  cases s with
  | nil => rfl
  | cons i s =>
    by_contra hends
    rw [valueKinds_cons (by simpa using hends) hspace] at h
    cases h

theorem eq_cons_of_valueKinds (h : s.valueKinds = k :: ks) (hspace : s.kind ≠ .space) :
    ∃ i t, s = i :: t ∧ i.kind = k ∧ valueKinds t = ks := by
  cases s with
  | nil => cases h
  | cons i s =>
    cases hends : i.kind.endsDeclaration with
    | true =>
      rw [valueKinds_of_ends (by exact hends)] at h
      cases h
    | false =>
      rw [valueKinds_cons hends hspace] at h
      obtain ⟨rfl, rfl⟩ := List.cons.inj h
      exact ⟨i, s, rfl, rfl, rfl⟩

end Stream

namespace Reader

variable {α : Type} {p q : Progress} {k : TokenKind} {ks rest : List TokenKind}

/-! ## What is read is derived -/

theorem kinds_of_advance {a : Unit} (h : advance p = .ok a q) (hk : p.stream.kind = k)
    (hends : k.endsDeclaration = false) (hspace : k ≠ .space) : p.stream.valueKinds = k :: q.stream.valueKinds := by
  rw [(advance_eq_ok.mp h).1]
  cases hs : p.stream with
  | nil =>
    rw [hs] at hk
    subst hk
    cases hends
  | cons i s =>
    rw [hs] at hk
    subst hk
    exact Stream.valueKinds_cons hends hspace

theorem kinds_of_expect {expected : String} {a : Unit} (h : expect k expected p = .ok a q)
    (hends : k.endsDeclaration = false) (hspace : k ≠ .space) : p.stream.valueKinds = k :: q.stream.valueKinds := by
  unfold expect at h
  rw [bind_kind] at h
  split_ifs at h with hk
  · exact kinds_of_advance h hk hends hspace
  · exact absurd h unexpected_ne_ok

theorem kinds_of_skipSpace {a : Unit} (h : discard skipSpace p = .ok a q) :
    p.stream.valueKinds = q.stream.valueKinds ∧ q.stream.kind ≠ .space := by
  obtain ⟨b, p', hskip, h⟩ := bind_eq_ok.mp (show (skipSpace >>= fun _ => pure ()) p = .ok a q from h)
  cases h
  refine ⟨?_, kind_ne_space_of_skipSpace hskip⟩
  rw [(skipSpace_eq_ok hskip).1]
  exact p.stream.valueKinds_dropWhile_space.symm

theorem lengthOf?_divides {l : Except TemplateError Length} (h : lengthOf? k = some l) :
    k.endsDeclaration = false ∧ k ≠ .space := by
  cases k <;> simp_all [lengthOf?, TokenKind.endsDeclaration]

theorem kinds_of_length {expected : String} {l : Length} (h : length expected p = .ok l q) :
    ∃ k, lengthOf? k = some (.ok l) ∧ p.stream.valueKinds = k :: q.stream.valueKinds := by
  unfold length at h
  rw [bind_kind] at h
  rcases hl : lengthOf? p.stream.kind with _ | (e | l')
  · rw [hl] at h
    exact absurd h unexpected_ne_ok
  · rw [hl] at h
    cases h
  · rw [hl] at h
    obtain ⟨_, p', hadvance, h⟩ := bind_eq_ok.mp h
    cases h
    obtain ⟨hends, hspace⟩ := lengthOf?_divides hl
    exact ⟨_, hl, kinds_of_advance hadvance rfl hends hspace⟩

theorem kinds_of_rowHeight {height : Height} (h : rowHeight p = .ok height q) :
    ∃ k, DerivesHeight height k ∧ p.stream.valueKinds = k :: q.stream.valueKinds := by
  unfold rowHeight at h
  rw [bind_kind] at h
  generalize hk : p.stream.kind = k at h
  split at h
  · obtain ⟨_, p', hadvance, h⟩ := bind_eq_ok.mp h
    cases h
    exact ⟨_, .auto, kinds_of_advance hadvance hk rfl nofun⟩
  · obtain ⟨_, p', hadvance, h⟩ := bind_eq_ok.mp h
    cases h
    exact ⟨_, .equal, kinds_of_advance hadvance hk rfl nofun⟩
  · obtain ⟨l, p', hlength, h⟩ := bind_eq_ok.mp h
    cases h
    obtain ⟨k, hl, hkinds⟩ := kinds_of_length hlength
    exact ⟨k, .length hl, hkinds⟩

theorem kinds_of_minMaxLengths {w : Width} (h : minMaxLengths p = .ok w q) :
    ∃ low high k k', w = .minMax low high ∧ lengthOf? k = some (.ok low) ∧ lengthOf? k' = some (.ok high) ∧
      p.stream.valueKinds = [k, .punct .comma, k', .punct .rightParen] ++ q.stream.valueKinds := by
  unfold minMaxLengths at h
  obtain ⟨_, p₁, hskip₁, h⟩ := bind_eq_ok.mp h
  obtain ⟨low, p₂, hlow, h⟩ := bind_eq_ok.mp h
  obtain ⟨_, p₃, hskip₃, h⟩ := bind_eq_ok.mp h
  obtain ⟨_, p₄, hcomma, h⟩ := bind_eq_ok.mp h
  obtain ⟨_, p₅, hskip₅, h⟩ := bind_eq_ok.mp h
  obtain ⟨high, p₆, hhigh, h⟩ := bind_eq_ok.mp h
  obtain ⟨_, p₇, hskip₇, h⟩ := bind_eq_ok.mp h
  obtain ⟨_, p₈, hparen, h⟩ := bind_eq_ok.mp h
  cases h
  obtain ⟨k, hk, hlow⟩ := kinds_of_length hlow
  obtain ⟨k', hk', hhigh⟩ := kinds_of_length hhigh
  refine ⟨low, high, k, k', rfl, hk, hk', ?_⟩
  rw [(kinds_of_skipSpace hskip₁).1, hlow, (kinds_of_skipSpace hskip₃).1, kinds_of_expect hcomma rfl nofun,
    (kinds_of_skipSpace hskip₅).1, hhigh, (kinds_of_skipSpace hskip₇).1, kinds_of_expect hparen rfl nofun]
  rfl

theorem derives_of_columnWidth {w : Width} (h : columnWidth p = .ok w q) :
    ∃ ks, DerivesWidth w ks ∧ p.stream.valueKinds = ks ++ q.stream.valueKinds := by
  have hlength : ∀ {w : Width}, (do return Width.length (← length "column width")) p = .ok w q →
      ∃ ks, DerivesWidth w ks ∧ p.stream.valueKinds = ks ++ q.stream.valueKinds := by
    intro w h
    obtain ⟨l, p', hlength, h⟩ := bind_eq_ok.mp h
    cases h
    obtain ⟨k, hl, hkinds⟩ := kinds_of_length hlength
    exact ⟨[k], .length hl, hkinds⟩
  unfold columnWidth at h
  rw [bind_kind] at h
  generalize hk : p.stream.kind = k at h
  split at h
  · obtain ⟨_, p', hadvance, h⟩ := bind_eq_ok.mp h
    cases h
    exact ⟨_, .equal, kinds_of_advance hadvance hk rfl nofun⟩
  · obtain ⟨_, p', hadvance, h⟩ := bind_eq_ok.mp h
    cases h
    exact ⟨_, .minContent, kinds_of_advance hadvance hk rfl nofun⟩
  · obtain ⟨_, p', hadvance, h⟩ := bind_eq_ok.mp h
    cases h
    exact ⟨_, .maxContent, kinds_of_advance hadvance hk rfl nofun⟩
  · obtain ⟨_, p', hadvance, h⟩ := bind_eq_ok.mp h
    cases h
    exact ⟨_, .fitContent, kinds_of_advance hadvance hk rfl nofun⟩
  · obtain ⟨_, p₁, hadvance, h⟩ := bind_eq_ok.mp h
    obtain ⟨_, p₂, hskip, h⟩ := bind_eq_ok.mp h
    obtain ⟨_, p₃, hparen, h⟩ := bind_eq_ok.mp h
    obtain ⟨low, high, k, k', rfl, hlow, hhigh, hkinds⟩ := kinds_of_minMaxLengths h
    refine ⟨_, .minMax .keyword hlow hhigh, ?_⟩
    rw [kinds_of_advance hadvance hk rfl nofun, (kinds_of_skipSpace hskip).1, kinds_of_expect hparen rfl nofun, hkinds]
    rfl
  · split_ifs at h with hname
    · obtain ⟨_, p₁, hadvance, h⟩ := bind_eq_ok.mp h
      obtain ⟨low, high, k, k', rfl, hlow, hhigh, hkinds⟩ := kinds_of_minMaxLengths h
      refine ⟨_, .minMax (.function hname) hlow hhigh, ?_⟩
      rw [kinds_of_advance hadvance hk rfl nofun, hkinds]
      rfl
    · exact hlength h
  · exact hlength h

theorem row?_eq_ok {row : Option Row} (h : row? p = .ok row q) :
    (row = none ∧ q = p) ∨
      ∃ r ks, row = some r ∧ DerivesRow r ks ∧ p.stream.valueKinds = ks ++ q.stream.valueKinds ∧
        q.stream.kind ≠ .space := by
  unfold row? at h
  rw [bind_kind] at h
  generalize hk : p.stream.kind = k at h
  split at h
  · rename_i text
    obtain ⟨_, p₁, hadvance, h⟩ := bind_eq_ok.mp h
    obtain ⟨_, p₂, hskip, h⟩ := bind_eq_ok.mp h
    obtain ⟨hkinds, hspace⟩ := kinds_of_skipSpace hskip
    rw [bind_kind] at h
    split_ifs at h with hslash
    · obtain ⟨_, p₃, hadvance', h⟩ := bind_eq_ok.mp h
      obtain ⟨_, p₄, hskip₄, h⟩ := bind_eq_ok.mp h
      obtain ⟨height, p₅, hheight, h⟩ := bind_eq_ok.mp h
      obtain ⟨_, p₆, hskip₆, h⟩ := bind_eq_ok.mp h
      cases h
      obtain ⟨k, hk', hheight⟩ := kinds_of_rowHeight hheight
      obtain ⟨hkinds₆, hspace₆⟩ := kinds_of_skipSpace hskip₆
      refine .inr ⟨_, _, rfl, .tall text hk', ?_, hspace₆⟩
      rw [kinds_of_advance hadvance hk rfl nofun, hkinds, kinds_of_advance hadvance' hslash rfl nofun,
        (kinds_of_skipSpace hskip₄).1, hheight, hkinds₆]
      rfl
    · cases h
      refine .inr ⟨_, _, rfl, .bare text, ?_, hspace⟩
      rw [kinds_of_advance hadvance hk rfl nofun, hkinds]
      rfl
  · cases h
    exact .inl ⟨rfl, rfl⟩

theorem columnWidth?_eq_ok {width : Option Width} (h : columnWidth? p = .ok width q) :
    (width = none ∧ q = p ∧ p.stream.kind.endsDeclaration = true) ∨
      ∃ w ks, width = some w ∧ DerivesWidth w ks ∧ p.stream.valueKinds = ks ++ q.stream.valueKinds ∧
        q.stream.kind ≠ .space := by
  unfold columnWidth? at h
  rw [bind_kind] at h
  split_ifs at h with hends
  · cases h
    exact .inl ⟨rfl, rfl, hends⟩
  · obtain ⟨w, p', hwidth, h⟩ := bind_eq_ok.mp h
    obtain ⟨_, p'', hskip, h⟩ := bind_eq_ok.mp h
    cases h
    obtain ⟨ks, hw, hkinds⟩ := derives_of_columnWidth hwidth
    obtain ⟨hkinds', hspace⟩ := kinds_of_skipSpace hskip
    exact .inr ⟨w, ks, rfl, hw, by rw [hkinds, hkinds'], hspace⟩

/-- What has kinds is passed. -/
theorem length_lt_of_kinds (hs : q.stream <:+ p.stream) (h : p.stream.valueKinds = ks ++ q.stream.valueKinds)
    (hne : ks ≠ []) : q.stream.length < p.stream.length := by
  refine lt_of_le_of_ne hs.length_le fun hlength => ?_
  rw [hs.eq_of_length hlength] at h
  exact hne (List.append_left_eq_self.mp h.symm)

section Collect

variable {D : α → List TokenKind → Prop} {r : Reader (Option α)} {as : List α}

/-- What is collected is derived, up to where the reader has nothing more. -/
theorem derives_of_collect (hr : Plain (fun _ => True) r) (hD : ∀ {a ks}, D a ks → ks ≠ [])
    (hread : ∀ {p o q}, r p = .ok o q → (o = none ∧ q = p) ∨ ∃ a ks, o = some a ∧ D a ks ∧
      p.stream.valueKinds = ks ++ q.stream.valueKinds ∧ q.stream.kind ≠ .space)
    (hp : p.stream.kind ≠ .space) (h : collect r p = .ok as q) :
    q.stream.kind ≠ .space ∧ r q = .ok none q ∧
      ∃ ks, DerivesAll D as ks ∧ p.stream.valueKinds = ks ++ q.stream.valueKinds := by
  induction hn : p.stream.length using Nat.strong_induction_on generalizing p as with
  | _ n ih =>
    cases hone : r p with
    | error e p' =>
      rw [collect, hone] at h
      cases h
    | ok o p' =>
      rcases hread hone with ⟨rfl, rfl⟩ | ⟨a, ks, rfl, ha, hkinds, hspace⟩
      · rw [collect_of_none hone] at h
        cases h
        exact ⟨hp, hone, [], .nil, rfl⟩
      · have hlt := length_lt_of_kinds (hr.of_ok (R := Progress.Wrote) hone).suffix hkinds (hD ha)
        rcases collect_of_some hone h with ⟨hnot, -, -⟩ | ⟨-, bs, rfl, hrest⟩
        · contradiction
        · obtain ⟨hspace', hend, ks', hks', hkinds'⟩ := ih _ (hn ▸ hlt) hspace hrest rfl
          refine ⟨hspace', hend, ks ++ ks', .cons ha hks', ?_⟩
          rw [hkinds, hkinds', List.append_assoc]

end Collect

/-- A definition that is read ends with the declaration, and the grammar derives it. -/
theorem derives_of_templateDefinition {rows : List Row} {widths : List Width} (hp : p.stream.kind ≠ .space)
    (h : templateDefinition p = .ok (rows, widths) q) :
    q.stream.kind.endsDeclaration = true ∧ DerivesDefinition rows widths p.stream.valueKinds := by
  unfold templateDefinition at h
  obtain ⟨_, p', hrows, h⟩ := bind_eq_ok.mp h
  obtain ⟨_, q', hwidths, h⟩ := bind_eq_ok.mp h
  cases h
  obtain ⟨hspace, -, rs, hrs, hkinds⟩ := derives_of_collect plain_row? DerivesRow.ne_nil row?_eq_ok hp hrows
  obtain ⟨-, hend, ws, hws, hkinds'⟩ := derives_of_collect plain_columnWidth? DerivesWidth.ne_nil
    (fun h => (columnWidth?_eq_ok h).imp (fun h => ⟨h.1, h.2.1⟩) id) hspace hwidths
  obtain ⟨-, -, hends⟩ := (columnWidth?_eq_ok hend).resolve_right (by rintro ⟨w, ks, hw, -⟩; cases hw)
  refine ⟨hends, rs, ws, hrs, hws, ?_⟩
  rw [hkinds, hkinds', Stream.valueKinds_of_ends hends, List.append_nil]

/-! ## What is derived is read -/

/-- From `p` the reader gives a value, and ends where a condition holds. -/
def Yields (r : Reader α) (p : Progress) (a : α) (P : Progress → Prop) : Prop := ∃ q, r p = .ok a q ∧ P q

theorem Yields.bind {β : Type} {r : Reader α} {f : α → Reader β} {a : α} {b : β} {P Q : Progress → Prop}
    (hr : Yields r p a P) (hf : ∀ {q}, P q → Yields (f a) q b Q) : Yields (r >>= f) p b Q := by
  obtain ⟨q, hq, hP⟩ := hr
  obtain ⟨q', hq', hQ⟩ := hf hP
  exact ⟨q', by rw [bind_of_ok hq, hq'], hQ⟩

theorem Yields.kind_bind {β : Type} {f : TokenKind → Reader β} {b : β} {Q : Progress → Prop}
    (hk : p.stream.kind = k) (hf : Yields (f k) p b Q) : Yields (kind >>= f) p b Q := by
  subst hk
  exact hf

theorem Yields.pure {a : α} {P : Progress → Prop} (h : P p) : Yields (Pure.pure a) p a P := ⟨p, rfl, h⟩

/-- All items are tokens, and these are the kinds up to the end of the declaration. -/
structure Before (ks : List TokenKind) (p : Progress) : Prop where
  whole : p.stream.Whole
  kinds : p.stream.valueKinds = ks

/-- And no space is in front of them. -/
structure At (ks : List TokenKind) (p : Progress) : Prop extends Before ks p where
  kind : p.stream.kind ≠ .space

theorem At.kind_eq (h : At (k :: ks) p) : p.stream.kind = k := by
  obtain ⟨i, s, hs, hi, -⟩ := Stream.eq_cons_of_valueKinds h.kinds h.kind
  rw [hs]
  exact hi

theorem yields_advance (h : At (k :: ks) p) : Yields advance p () (Before ks) := by
  obtain ⟨i, s, hs, -, hkinds⟩ := Stream.eq_cons_of_valueKinds h.kinds h.kind
  have hwhole : Stream.Whole s := by
    intro j hj
    exact h.whole j (hs ▸ List.mem_cons_of_mem i hj)
  refine ⟨_, advance_eq_ok.mpr ⟨rfl, ?_⟩, ?_⟩
  · rw [hs]
    exact hwhole.opensAddress
  · rw [hs]
    exact ⟨hwhole, hkinds⟩

theorem yields_skipSpace (h : Before ks p) : Yields (discard skipSpace) p () (At ks) := by
  have hsplit : p.stream = p.stream.takeWhile (·.kind = .space) ++ p.stream.dropWhile (·.kind = .space) :=
    List.takeWhile_append_dropWhile.symm
  have hspaces : Spaces (p.stream.takeWhile (·.kind = .space)) := by
    intro i hi
    simpa using List.mem_takeWhile_imp hi
  have hskip := takes_discard_skipSpace hspaces p.stream.kind_dropWhile_space (hsplit ▸ h.whole) p hsplit
  refine ⟨_, hskip, ?_⟩
  obtain ⟨hkinds, hspace⟩ := kinds_of_skipSpace hskip
  refine ⟨⟨fun i hi => h.whole i ?_, hkinds.symm.trans h.kinds⟩, hspace⟩
  exact (List.dropWhile_suffix _).subset hi

theorem yields_expect {expected : String} (h : At (k :: ks) p) : Yields (expect k expected) p () (Before ks) := by
  refine .kind_bind h.kind_eq ?_
  rw [if_pos rfl]
  exact yields_advance h

theorem yields_length {expected : String} {l : Length} (h : At (k :: ks) p) (hk : lengthOf? k = some (.ok l)) :
    Yields (length expected) p l (Before ks) := by
  refine .kind_bind h.kind_eq ?_
  rw [hk]
  exact (yields_advance h).bind .pure

theorem yields_rowHeight {height : Height} (h : At (k :: ks) p) (hk : DerivesHeight height k) :
    Yields rowHeight p height (Before ks) := by
  refine .kind_bind h.kind_eq ?_
  cases hk with
  | auto => exact (yields_advance h).bind .pure
  | equal => exact (yields_advance h).bind .pure
  | @length l _ hl =>
    have hread : Yields (do return Height.length (← length "row height")) p (.length l) (Before ks) :=
      (yields_length h hl).bind .pure
    split
    · cases hl
    · cases hl
    · exact hread

theorem yields_minMaxLengths {low high : Length} {k' : TokenKind}
    (h : Before ([k, .punct .comma, k', .punct .rightParen] ++ ks) p) (hlow : lengthOf? k = some (.ok low))
    (hhigh : lengthOf? k' = some (.ok high)) : Yields minMaxLengths p (.minMax low high) (Before ks) :=
  (yields_skipSpace h).bind fun h => (yields_length h hlow).bind fun h =>
    (yields_skipSpace h).bind fun h => (yields_expect h).bind fun h =>
      (yields_skipSpace h).bind fun h => (yields_length h hhigh).bind fun h =>
        (yields_skipSpace h).bind fun h => (yields_expect h).bind .pure

theorem yields_columnWidth {w : Width} (h : At (ks ++ rest) p) (hw : DerivesWidth w ks) :
    Yields columnWidth p w (Before rest) := by
  unfold columnWidth
  cases hw with
  | equal => exact .kind_bind h.kind_eq <| (yields_advance h).bind .pure
  | minContent => exact .kind_bind h.kind_eq <| (yields_advance h).bind .pure
  | maxContent => exact .kind_bind h.kind_eq <| (yields_advance h).bind .pure
  | fitContent => exact .kind_bind h.kind_eq <| (yields_advance h).bind .pure
  | @length l k hl =>
    have hread : Yields (do return Width.length (← length "column width")) p (.length l) (Before rest) :=
      (yields_length h hl).bind .pure
    refine .kind_bind h.kind_eq ?_
    split <;> first | cases hl | exact hread
  | minMax hopening hlow hhigh =>
    rw [List.append_assoc] at h
    cases hopening with
    | keyword =>
      exact .kind_bind h.kind_eq <| (yields_advance h).bind fun h => (yields_skipSpace h).bind fun h =>
        (yields_expect h).bind fun h => yields_minMaxLengths h hlow hhigh
    | function hname =>
      refine .kind_bind h.kind_eq ?_
      simp only [hname, if_true]
      exact (yields_advance h).bind fun h => yields_minMaxLengths h hlow hhigh

theorem At.kind_ne (h : At ks p) (hends : k.endsDeclaration = false) (hk : ks.head? ≠ some k) :
    p.stream.kind ≠ k := by
  rintro rfl
  cases ks with
  | nil =>
    have hends' := Stream.ends_of_valueKinds h.kinds h.kind
    rw [hends] at hends'
    cases hends'
  | cons k ks => exact hk (congrArg some h.kind_eq.symm)

theorem yields_row? {row : Row} (h : At (ks ++ rest) p) (hrow : DerivesRow row ks)
    (hrest : rest.head? ≠ some (.delim '/')) : Yields row? p (some row) (At rest) := by
  cases hrow with
  | bare text =>
    refine .kind_bind h.kind_eq <| (yields_advance h).bind fun h => (yields_skipSpace h).bind fun h => ?_
    refine .kind_bind rfl ?_
    rw [if_neg (h.kind_ne rfl hrest)]
    exact .pure h
  | tall text hheight =>
    refine .kind_bind h.kind_eq <| (yields_advance h).bind fun h => (yields_skipSpace h).bind fun h => ?_
    refine .kind_bind h.kind_eq ?_
    rw [if_pos rfl]
    exact (yields_advance h).bind fun h => (yields_skipSpace h).bind fun h => (yields_rowHeight h hheight).bind fun h =>
      (yields_skipSpace h).bind .pure

theorem yields_row?_none (h : ∀ text, p.stream.kind ≠ .string text) {P : Progress → Prop} (hp : P p) :
    Yields row? p none P := by
  refine .kind_bind rfl ?_
  split
  · rename_i text hk
    exact absurd hk (h text)
  · exact .pure hp

theorem endsDeclaration_of_derivesHeight {height : Height} (h : DerivesHeight height k) : k.endsDeclaration = false := by
  cases h with
  | length hl => exact (lengthOf?_divides hl).1
  | _ => rfl

/-- A row goes on the declaration. -/
theorem endsDeclaration_of_derivesRow {row : Row} (h : DerivesRow row ks) : ∀ k ∈ ks, k.endsDeclaration = false := by
  cases h with
  | bare text => simp [TokenKind.endsDeclaration]
  | tall text hheight =>
    have hk := endsDeclaration_of_derivesHeight hheight
    simp_all [TokenKind.endsDeclaration]

/-- A width goes on the declaration. -/
theorem endsDeclaration_of_derivesWidth {w : Width} (h : DerivesWidth w ks) : ∀ k ∈ ks, k.endsDeclaration = false := by
  cases h with
  | length hl => simp [(lengthOf?_divides hl).1]
  | minMax hopening hlow hhigh =>
    have hlow := (lengthOf?_divides hlow).1
    have hhigh := (lengthOf?_divides hhigh).1
    cases hopening <;> simp_all [TokenKind.endsDeclaration]
  | _ => simp [TokenKind.endsDeclaration]

theorem forall_of_derivesAll {D : α → List TokenKind → Prop} {as : List α} {P : TokenKind → Prop}
    (hD : ∀ {a ks}, D a ks → ∀ k ∈ ks, P k) (h : DerivesAll D as ks) : ∀ k ∈ ks, P k := by
  induction h with
  | nil => nofun
  | cons ha has ih => exact List.forall_mem_append.mpr ⟨hD ha, ih⟩

theorem endsDeclaration_of_derivesDefinition {rows : List Row} {widths : List Width}
    (h : DerivesDefinition rows widths ks) : ∀ k ∈ ks, k.endsDeclaration = false := by
  obtain ⟨rs, ws, hrs, hws, rfl⟩ := h
  exact List.forall_mem_append.mpr
    ⟨forall_of_derivesAll endsDeclaration_of_derivesRow hrs, forall_of_derivesAll endsDeclaration_of_derivesWidth hws⟩

theorem yields_columnWidth? {w : Width} (h : At (ks ++ rest) p) (hw : DerivesWidth w ks) :
    Yields columnWidth? p (some w) (At rest) := by
  obtain ⟨k, ks, rfl⟩ := List.exists_cons_of_ne_nil hw.ne_nil
  refine .kind_bind h.kind_eq ?_
  simp only [endsDeclaration_of_derivesWidth hw k List.mem_cons_self]
  exact (yields_columnWidth h hw).bind fun h => (yields_skipSpace h).bind .pure

theorem yields_columnWidth?_none (h : At [] p) : Yields columnWidth? p none (At []) := by
  refine .kind_bind rfl ?_
  rw [if_pos (Stream.ends_of_valueKinds h.kinds h.kind)]
  exact .pure h

/-- What is derived is collected. -/
theorem yields_collect {D : α → List TokenKind → Prop} {r : Reader (Option α)} {as : List α}
    (hr : Plain (fun _ => True) r) (hD : ∀ {a ks}, D a ks → ks ≠ []) (has : DerivesAll D as ks)
    (hread : ∀ {a as ks ks' p}, D a ks → DerivesAll D as ks' → At (ks ++ (ks' ++ rest)) p →
      Yields r p (some a) (At (ks' ++ rest)))
    (hnone : ∀ {p}, At rest p → Yields r p none (At rest)) (h : At (ks ++ rest) p) :
    Yields (collect r) p as (At rest) := by
  induction has generalizing p with
  | nil =>
    obtain ⟨q, hq, hrest⟩ := hnone h
    exact ⟨q, collect_of_none hq, hrest⟩
  | cons ha has ih =>
    rw [List.append_assoc] at h
    obtain ⟨p', hp', hat⟩ := hread ha has h
    obtain ⟨q, hq, hrest⟩ := ih hat
    have hlt := length_lt_of_kinds (hr.of_ok (R := Progress.Wrote) hp').suffix (hat.kinds ▸ h.kinds) (hD ha)
    refine ⟨q, ?_, hrest⟩
    rw [collect, hp']
    simp only [hlt, if_true, hq]

theorem head?_of_derivesWidths {widths : List Width} (h : DerivesAll DerivesWidth widths ks) :
    ks.head? ≠ some (.delim '/') ∧ ∀ text, ks.head? ≠ some (.string text) := by
  cases h with
  | nil => exact ⟨nofun, fun _ => nofun⟩
  | cons hw =>
    cases hw with
    | @length l k hl => cases k <;> simp_all [lengthOf?]
    | minMax hopening => cases hopening <;> simp
    | _ => simp

/-- A definition that the grammar derives is read up to the end of the declaration. -/
theorem yields_templateDefinition {rows : List Row} {widths : List Width} (h : At ks p)
    (hks : DerivesDefinition rows widths ks) : Yields templateDefinition p (rows, widths) (At []) := by
  obtain ⟨rs, ws, hrs, hws, rfl⟩ := hks
  obtain ⟨hslash, hstring⟩ := head?_of_derivesWidths hws
  refine Yields.bind (P := At ws) ?_ fun h => Yields.bind (P := At []) ?_ .pure
  · refine yields_collect plain_row? DerivesRow.ne_nil hrs ?_ ?_ h
    · intro row rows ks ks' p hrow hrows h
      refine yields_row? h hrow ?_
      cases hrows with
      | nil => exact hslash
      | cons hrow => cases hrow <;> simp
    · exact fun h => yields_row?_none (fun text => h.kind_ne rfl (hstring text)) h
  · rw [← List.append_nil ws] at h
    exact yields_collect plain_columnWidth? DerivesWidth.ne_nil hws (fun hw _ h => yields_columnWidth? h hw)
      yields_columnWidth?_none h

/-- A definition is read exactly where the grammar derives it. -/
theorem templateDefinition_eq_ok_iff {rows : List Row} {widths : List Width} (h : At ks p) :
    (∃ q, templateDefinition p = .ok (rows, widths) q) ↔ DerivesDefinition rows widths ks := by
  constructor
  · rintro ⟨q, hq⟩
    rw [← h.kinds]
    exact (derives_of_templateDefinition h.kind hq).2
  · intro hks
    obtain ⟨q, hq, -⟩ := yields_templateDefinition h hks
    exact ⟨q, hq⟩

end Reader

end SlotGrid.Style
