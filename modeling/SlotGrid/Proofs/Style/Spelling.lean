import SlotGrid.Proofs.Style.Boundary
import SlotGrid.Style.Reader

/-! # How tokens are spelled

The kind of a token tells how it is spelled where all tokens of the kind look alike: spaces, comments and the marks of
comments start with certain characters, and punctuation is a single one. At the end of a text these tokens end for
certain, so that they are the same in front of a line feed. Only spaces run on.
-/

namespace SlotGrid.Style

/-! ## From kinds to characters -/

/-- What a text starts with where a form makes a token of the kind of it. -/
def TokenKind.Opens : TokenKind → List Char → Prop
  | .space, cs => ∃ c t, isSpace c ∧ cs = c :: t
  | .comment, cs => ['/', '*'] <+: cs
  | .commentOpen, cs => ['<', '!', '-', '-'] <+: cs
  | .commentClose, cs => ['-', '-', '>'] <+: cs
  | .ident _, cs | .keyword _, cs => startsIdent cs
  | .punct _, _ | .delim _, _ | .endOfInput, _ => False
  | _, _ => True

theorem Probe.exists_of_follow {es : List (Char → Bool)} {taken cs : List Char}
    (h : (follow es ⟨taken, cs⟩).1 = es.length) :
    ∃ ds rest, List.Forall₂ (fun d e => e d = true) ds es ∧ cs = ds ++ rest ∧
      (follow es ⟨taken, cs⟩).2 = ⟨ds.reverse ++ taken, rest⟩ := by
  induction es generalizing taken cs with
  | nil => exact ⟨[], cs, .nil, rfl, rfl⟩
  | cons e es ih =>
    cases cs with
    | nil => cases h
    | cons c cs =>
      by_cases hc : e c = true
      · simp only [follow, hc, if_true, bump, List.length_cons, Nat.add_right_cancel_iff] at h ⊢
        obtain ⟨ds, rest, hds, rfl, hfollow⟩ := ih h
        exact ⟨c :: ds, rest, .cons hc hds, rfl, by simpa using hfollow⟩
      · simp [follow, hc] at h

namespace Form

theorem opens_scanAddress {opening cs text : List Char} {k : TokenKind}
    (h : (scanAddress opening cs).kind? = some k) : k.Opens text := by
  unfold scanAddress at h
  dsimp only at h
  split at h
  · cases h
    trivial
  · cases h

/-- A form makes tokens of a kind where the text starts as it does for the kind. -/
def Opening (f : Form) : Prop :=
  ∀ (taken rest : List Char) (s : Scan) (k : TokenKind), List.Forall₂ (fun d e => e d = true) taken f.opening →
    f.finish? taken rest = some s → s.kind? = some k → k.Opens (taken ++ rest)

theorem opening_range : range.Opening := by
  intro taken rest s k _ hs hk
  obtain rfl := Option.some.inj (Option.ite_none_right_eq_some.mp hs).2
  unfold scanRange at hk
  dsimp only at hk
  split_ifs at hk
  all_goals
    cases hk
    trivial

theorem opening_name : name.Opening := by
  intro taken rest s k htaken hs hk
  obtain ⟨hstarts, hs⟩ := Option.ite_none_right_eq_some.mp hs
  obtain rfl := Option.some.inj hs
  obtain rfl := List.forall₂_nil_right_iff.mp htaken
  unfold scanName at hk
  dsimp only at hk
  split at hk
  · split_ifs at hk
    · exact opens_scanAddress hk
    · cases hk
      trivial
  · cases hk
    cases TokenKind.keyword? (decodedText (nameReader.run rest).1) <;> exact hstarts

theorem opening_marked {mark : Char} {starts : List Char → Bool} {kind : String → TokenKind}
    (hkind : ∀ name cs, (kind name).Opens cs) : (marked mark starts kind).Opening := by
  intro taken rest s k _ hs hk
  obtain rfl := Option.some.inj (Option.ite_none_right_eq_some.mp hs).2
  cases hk
  exact hkind _ _

theorem opening_number : number.Opening := by
  intro taken rest s k _ hs hk
  obtain ⟨n, -, rfl⟩ := Option.map_eq_some_iff.mp hs
  unfold scanNumber at hk
  dsimp only at hk
  split_ifs at hk
  · cases hk
    trivial
  · split at hk
    all_goals
      cases hk
      trivial

theorem opening_quoted (quote : Char) : (quoted quote).Opening := by
  intro taken rest s k _ hs hk
  cases hs
  cases hk
  trivial

theorem opening_spaces : spaces.Opening := by
  rintro taken rest s k (_ | ⟨hc, _ | _⟩) hs hk
  cases hs
  cases hk
  exact ⟨_, _, hc, rfl⟩

theorem opening_symbol {first : Char → Bool} {more : List (Char → Bool)} {kind : TokenKind}
    (h : ∀ taken rest, List.Forall₂ (fun d e => e d = true) taken (first :: more) → kind.Opens (taken ++ rest)) :
    (symbol first more kind).Opening := by
  intro taken rest s k htaken hs hk
  cases hs
  cases hk
  exact h taken rest htaken

theorem opening_comment : comment.Opening := by
  rintro taken rest s k (_ | ⟨hc, _ | ⟨hd, _ | _⟩⟩) hs hk
  cases hs
  cases hk
  obtain rfl := eq_of_beq hc
  obtain rfl := eq_of_beq hd
  exact List.prefix_append _ _

theorem opening_commentOpen :
    (symbol (· == '<') [(· == '!'), (· == '-'), (· == '-')] .commentOpen).Opening := by
  apply opening_symbol
  rintro taken rest (_ | ⟨ha, _ | ⟨hb, _ | ⟨hc, _ | ⟨hd, _ | _⟩⟩⟩⟩)
  obtain rfl := eq_of_beq ha
  obtain rfl := eq_of_beq hb
  obtain rfl := eq_of_beq hc
  obtain rfl := eq_of_beq hd
  exact List.prefix_append _ _

theorem opening_commentClose : (symbol (· == '-') [(· == '-'), (· == '>')] .commentClose).Opening := by
  apply opening_symbol
  rintro taken rest (_ | ⟨ha, _ | ⟨hb, _ | ⟨hc, _ | _⟩⟩⟩)
  obtain rfl := eq_of_beq ha
  obtain rfl := eq_of_beq hb
  obtain rfl := eq_of_beq hc
  exact List.prefix_append _ _

theorem opening_of_mem_all {f : Form} (hf : f ∈ all) : f.Opening := by
  have hmatcher : ∀ mark m, (matcher mark m).Opening := fun _ _ => opening_symbol fun _ _ _ => trivial
  have hall : ∀ f ∈ all, f.Opening := by
    unfold all
    simp only [List.forall_mem_cons]
    exact ⟨opening_range, opening_name, opening_marked fun _ _ => trivial, opening_number,
      opening_marked fun _ _ => trivial, opening_quoted _, opening_quoted _, opening_spaces, opening_comment,
      opening_commentOpen, opening_commentClose, hmatcher _ _, hmatcher _ _, hmatcher _ _, hmatcher _ _,
      hmatcher _ _, opening_symbol fun _ _ _ => trivial, fun _ h => absurd h List.not_mem_nil⟩
  exact hall f hf

/-- A token of a form is made of characters that the form opens with and of the text after them. -/
theorem exists_of_attempt? {f : Form} {cs : List Char} {s : Scan} (h : f.attempt? (.start cs) = some (.found s)) :
    ∃ taken rest, List.Forall₂ (fun d e => e d = true) taken f.opening ∧ cs = taken ++ rest ∧
      f.finish? taken rest = some s := by
  unfold attempt? Probe.start at h
  have hfollow := @Probe.exists_of_follow f.opening [] cs
  generalize Probe.follow f.opening ⟨[], cs⟩ = nq at h hfollow
  obtain ⟨n, q⟩ := nq
  dsimp only at h hfollow
  split at h
  · rename_i s' hs
    cases h
    obtain ⟨hn, hs⟩ := Option.ite_none_right_eq_some.mp hs
    obtain ⟨ds, rest, hds, rfl, rfl⟩ := hfollow hn
    rw [List.append_nil, List.reverse_reverse] at hs
    exact ⟨ds, rest, hds, rfl, hs⟩
  · obtain ⟨_, -, h⟩ := Option.map_eq_some_iff.mp h
    cases h

theorem opens_of_attempt? {f : Form} (hf : f ∈ all) {cs : List Char} {s : Scan} {k : TokenKind}
    (h : f.attempt? (.start cs) = some (.found s)) (hk : s.kind? = some k) : k.Opens cs := by
  obtain ⟨taken, rest, htaken, rfl, hs⟩ := exists_of_attempt? h
  exact opening_of_mem_all hf _ _ _ _ htaken hs hk

theorem opens_of_attemptAll? {fs : List Form} (hfs : fs ⊆ all) {cs : List Char} {s : Scan} {k : TokenKind}
    (h : attemptAll? fs (.start cs) = some (.found s)) (hk : s.kind? = some k) : k.Opens cs := by
  induction fs with
  | nil => cases h
  | cons f fs ih =>
    obtain ⟨hf, hfs⟩ := List.cons_subset.mp hfs
    unfold attemptAll? at h
    rcases f.attempt?_start cs with hattempt | ⟨s', hattempt, -⟩
    · rw [hattempt] at h
      exact ih hfs h
    · rw [hattempt] at h
      cases h
      exact opens_of_attempt? hf hattempt hk

end Form

/-- A token that no form makes is a single character. -/
theorem opens_or_single {c : Char} {cs : List Char} {k : TokenKind} (h : (scan c cs).kind? = some k) :
    k.Opens (c :: cs) ∨ k = (TokenKind.ofChar? c).getD (.delim c) ∧ scan c cs = ⟨some k, [c], cs⟩ := by
  obtain ⟨s, hs, -⟩ := exists_scan? c cs
  have hscan := scan_eq_of_scan? hs
  unfold scan? at hs
  rcases Form.attemptAll?_start Form.all (c :: cs) with hall | ⟨s', hall, -⟩
  · rw [hall] at hs
    cases hs
    rw [hscan] at h ⊢
    cases h
    exact .inr ⟨rfl, rfl⟩
  · rw [hall] at hs
    cases hs
    rw [hscan] at h
    exact .inl (Form.opens_of_attemptAll? (List.Subset.refl _) hall h)

theorem scan_of_punct {c : Char} {cs : List Char} {m : Punctuation}
    (h : (scan c cs).kind? = some (.punct m)) :
    TokenKind.ofChar? c = some (.punct m) ∧ scan c cs = ⟨some (.punct m), [c], cs⟩ := by
  rcases opens_or_single h with hopens | ⟨hc, hscan⟩
  · exact absurd hopens not_false
  · refine ⟨?_, hscan⟩
    cases hchar : TokenKind.ofChar? c with
    | none =>
      rw [hchar] at hc
      cases hc
    | some k =>
      rw [hchar] at hc
      exact congrArg some hc.symm

/-- A name is read where one starts, unless a range is read first. -/
theorem scan_of_startsIdent {c : Char} {cs : List Char} (hstarts : startsIdent (c :: cs))
    (hrange : ∀ s, Form.range.attempt? (.start (c :: cs)) ≠ some (.found s)) : scan c cs = scanName (c :: cs) := by
  have hback : Form.range.attempt? (.start (c :: cs)) = some (.givenBack (.start (c :: cs))) := by
    refine (Form.range.attempt?_start (c :: cs)).resolve_right ?_
    rintro ⟨s, hs, -⟩
    exact hrange s hs
  have hname : Form.name.attempt? (.start (c :: cs)) = some (.found (scanName (c :: cs))) := by
    simp [Form.attempt?, Form.name, Probe.follow, Probe.start, hstarts]
  apply scan_eq_of_scan?
  unfold scan? Form.all Form.attemptAll?
  rw [hback]
  unfold Form.attemptAll?
  dsimp only
  rw [hname]
  rfl

/-- Where a word stands no range is read, so the word is what is read of the name. -/
theorem scan_of_word {c : Char} {cs : List Char} {k : TokenKind} (h : (scan c cs).kind? = some k)
    (hk : (∃ name, k = .ident name) ∨ ∃ w, k = .keyword w) : scan c cs = scanName (c :: cs) := by
  have hstarts : startsIdent (c :: cs) := by
    rcases opens_or_single h with hopens | ⟨rfl, -⟩
    · rcases hk with ⟨name, rfl⟩ | ⟨w, rfl⟩ <;> exact hopens
    · unfold TokenKind.ofChar? at hk
      split at hk <;> simp at hk
  refine scan_of_startsIdent hstarts fun s hrange => ?_
  have hscan : scan c cs = s := by
    apply scan_eq_of_scan?
    unfold scan? Form.all Form.attemptAll?
    rw [hrange]
    rfl
  obtain ⟨taken, rest, -, -, hfinish⟩ := Form.exists_of_attempt? hrange
  obtain rfl := Option.some.inj (Option.ite_none_right_eq_some.mp hfinish).2
  rw [hscan] at h
  unfold scanRange at h
  dsimp only at h
  split_ifs at h
  all_goals
    cases h
    rcases hk with ⟨_, hk⟩ | ⟨_, hk⟩ <;> cases hk

theorem eq_of_ofChar?_rightBrace {c : Char} (h : TokenKind.ofChar? c = some (.punct .rightBrace)) : c = '}' := by
  unfold TokenKind.ofChar? at h
  split at h
  all_goals first | rfl | cases h

theorem eq_of_ofChar?_semicolon {c : Char} (h : TokenKind.ofChar? c = some (.punct .semicolon)) : c = ';' := by
  unfold TokenKind.ofChar? at h
  split at h
  all_goals first | rfl | cases h

/-- The kinds that single characters do not have. -/
def TokenKind.isBlank : TokenKind → Bool
  | .space | .comment | .commentOpen | .commentClose | .endOfInput => true
  | _ => false

theorem opens_of_blank {c : Char} {cs : List Char} {k : TokenKind} (h : (scan c cs).kind? = some k)
    (hk : k.isBlank = true) : k.Opens (c :: cs) := by
  refine (opens_or_single h).resolve_right ?_
  rintro ⟨rfl, -⟩
  unfold TokenKind.ofChar? at hk
  split at hk <;> cases hk

theorem kind?_ne_endOfInput (c : Char) (cs : List Char) : (scan c cs).kind? ≠ some .endOfInput :=
  fun h => opens_of_blank h rfl

/-! ## From characters to tokens -/

theorem scan_semicolon (t : List Char) : scan ';' t = ⟨some (.punct .semicolon), [';'], t⟩ :=
  scan_eq_of_scan? rfl

theorem scan_commentOpen (t : List Char) :
    scan '<' ('!' :: '-' :: '-' :: t) = ⟨some .commentOpen, ['<', '!', '-', '-'], t⟩ :=
  scan_eq_of_scan? rfl

theorem scan_commentClose (t : List Char) : scan '-' ('-' :: '>' :: t) = ⟨some .commentClose, ['-', '-', '>'], t⟩ :=
  scan_eq_of_scan? rfl

theorem scan_comment (t : List Char) : scan '/' ('*' :: t) =
    ⟨some .comment, '/' :: '*' :: t.take (Form.commentLength t), t.drop (Form.commentLength t)⟩ :=
  scan_eq_of_scan? rfl

/-- A comment ends at its end, whatever stands behind it. -/
theorem commentLength_append_end (x t : List Char) :
    Form.commentLength (x ++ '*' :: '/' :: t) = Form.commentLength (x ++ ['*', '/']) := by
  induction x with
  | nil => rfl
  | cons c x ih =>
    by_cases hend : c = '*' ∧ ∃ y, x = '/' :: y
    · obtain ⟨rfl, y, rfl⟩ := hend
      rfl
    · have hlength : ∀ t, Form.commentLength (c :: x ++ '*' :: '/' :: t) =
          Form.commentLength (x ++ '*' :: '/' :: t) + 1 := by
        intro t
        rw [List.cons_append, Form.commentLength]
        intro s hc hs
        cases x with
        | nil => cases hs
        | cons d x =>
          obtain ⟨rfl, -⟩ := List.cons_eq_cons.mp hs
          exact hend ⟨hc, x, rfl⟩
      rw [hlength, hlength, ih]

theorem commentLength_le (cs : List Char) : Form.commentLength cs ≤ cs.length := by
  fun_induction Form.commentLength cs with
  | case1 cs => simp
  | case2 c cs hend ih => simpa using ih
  | case3 => exact Nat.le_refl _

/-! ## The last item of a text -/

namespace Item

/-- A comment that ends before the text does. -/
def IsClosedComment (i : Item) : Prop := i.kind = .comment ∧ ∃ x, i.lexeme = ['/', '*'] ++ x ++ ['*', '/']

/-- An item that is the same in front of a line feed as it is at the end of a text. -/
def Ends (i : Item) : Prop :=
  i.kind = .punct .rightBrace ∨ i.kind = .punct .semicolon ∨ i.kind = .commentOpen ∨ i.kind = .commentClose ∨
    i.IsClosedComment

theorem ofScan_of_kind {n : ℕ} {s : Scan} {k : TokenKind} (h : (ofScan n s).kind = k) (hk : k ≠ .space) :
    s.kind? = some k := by
  unfold ofScan at h
  split at h
  · rename_i hs
    rw [hs, ← h]
    rfl
  · exact absurd h.symm hk

/-- Every item of a text is a scan at its place in the text. -/
theorem exists_scan_of_mem_items {d : Cursor} {i : Item} (hi : i ∈ d.items) :
    ∃ n c cs, i = ofScan n (scan c cs) := by
  fun_induction Cursor.items d with
  | case1 => cases hi
  | case2 d j e hnext ih =>
    rcases List.mem_cons.mp hi with rfl | hi
    · unfold Cursor.next? at hnext
      split at hnext
      · cases hnext
      · cases hnext
        exact ⟨_, _, _, rfl⟩
    · exact ih hi

/-- The first item of a text is scanned from it. -/
theorem exists_scan_of_cons {n : ℕ} {cs : List Char} {i : Item} {back : List Item}
    (h : Cursor.items ⟨n, cs⟩ = i :: back) :
    ∃ k? c x s, i = ofScan n ⟨k?, c :: x, s⟩ ∧ i.lexeme = c :: x ∧ cs = c :: (x ++ s) ∧
      scan c (x ++ s) = ⟨k?, c :: x, s⟩ ∧ Cursor.items ⟨n + (c :: x).length, s⟩ = back := by
  cases cs with
  | nil =>
    rw [Cursor.items_nil] at h
    cases h
  | cons c cs =>
    rw [Cursor.items_cons] at h
    obtain ⟨hi, hrest⟩ := List.cons.inj h
    obtain ⟨hne, hsplits⟩ := scan_splits c cs
    rcases hscan : scan c cs with ⟨k?, lexeme, s⟩
    rw [hscan] at hi hrest hne hsplits
    dsimp only at hne hsplits
    obtain ⟨d, x, rfl⟩ := List.exists_cons_of_ne_nil hne
    obtain ⟨rfl, rfl⟩ := List.cons.inj hsplits
    exact ⟨k?, d, x, s, hi.symm, by rw [← hi, lexeme_ofScan], rfl, hscan, hrest⟩

end Item

/-- A token that ends for certain is the same whatever stands behind the text. -/
theorem scan_append_of_ends {m : ℕ} {c : Char} {s : List Char} (hi : (Item.ofScan m (scan c s)).Ends)
    (hrest : (scan c s).rest = []) (t : List Char) : scan c (s ++ t) = (scan c s).extend t := by
  rcases hi with hk | hk | hk | hk | ⟨hk, x, hx⟩
  · obtain rfl := eq_of_ofChar?_rightBrace (scan_of_punct (Item.ofScan_of_kind hk nofun)).1
    rw [scan_brace, scan_brace]
    rfl
  · obtain rfl := eq_of_ofChar?_semicolon (scan_of_punct (Item.ofScan_of_kind hk nofun)).1
    rw [scan_semicolon, scan_semicolon]
    rfl
  · obtain ⟨r, hr⟩ : TokenKind.commentOpen.Opens (c :: s) := opens_of_blank (Item.ofScan_of_kind hk nofun) rfl
    cases hr
    exact (scan_commentOpen (r ++ t)).trans (congrArg (·.extend t) (scan_commentOpen r)).symm
  · obtain ⟨r, hr⟩ : TokenKind.commentClose.Opens (c :: s) := opens_of_blank (Item.ofScan_of_kind hk nofun) rfl
    cases hr
    exact (scan_commentClose (r ++ t)).trans (congrArg (·.extend t) (scan_commentClose r)).symm
  · obtain ⟨r, hr⟩ : TokenKind.comment.Opens (c :: s) := opens_of_blank (Item.ofScan_of_kind hk nofun) rfl
    cases hr
    have hscan : scan '/' ('*' :: r) = _ := scan_comment r
    have hlength : Form.commentLength r = r.length := by
      refine Nat.le_antisymm (commentLength_le r) (List.drop_eq_nil_iff.mp ?_)
      exact (congrArg Scan.rest hscan).symm.trans hrest
    have hlexeme : r = x ++ ['*', '/'] := by
      have htake := (congrArg Scan.lexeme hscan).symm.trans ((Item.lexeme_ofScan m _).symm.trans hx)
      rw [hlength, List.take_length] at htake
      have happend : ['/', '*'] ++ r = ['/', '*'] ++ (x ++ ['*', '/']) := by simpa using htake
      exact List.append_cancel_left happend
    have hlonger : Form.commentLength (r ++ t) = r.length := by
      rw [← hlength, hlexeme, List.append_assoc]
      exact commentLength_append_end x t
    refine (scan_comment (r ++ t)).trans ?_
    refine Eq.trans ?_ (congrArg (·.extend t) hscan).symm
    unfold Scan.extend
    rw [hlonger, hlength, List.take_left', List.drop_left', List.take_length, List.drop_length]
    all_goals rfl

namespace Cursor

theorem items_last {cs : List Char} {n : ℕ} {is : List Item} {i : Item} (h : items ⟨n, cs⟩ = is ++ [i]) :
    ∃ m c s, i.lexeme = c :: s ∧ i = .ofScan m (scan c s) ∧ m = n + (is.flatMap Item.lexeme).length ∧
      (scan c s).rest = [] := by
  induction is generalizing n cs with
  | nil =>
    cases cs with
    | nil =>
      rw [items_nil] at h
      cases h
    | cons c s =>
      obtain ⟨-, hsplits⟩ := scan_splits c s
      rw [items_cons] at h
      obtain ⟨rfl, hrest⟩ := List.cons_eq_cons.mp h
      have hnil : (scan c s).rest = [] := by
        have htext := flatMap_lexeme_items ⟨n + (scan c s).lexeme.length, (scan c s).rest⟩
        rw [hrest] at htext
        exact htext.symm
      rw [hnil, List.append_nil] at hsplits
      exact ⟨n, c, s, (Item.lexeme_ofScan n _).trans hsplits, rfl, rfl, hnil⟩
  | cons j is ih =>
    cases cs with
    | nil =>
      rw [items_nil] at h
      cases h
    | cons c s =>
      rw [items_cons] at h
      obtain ⟨hj, hrest⟩ := List.cons_eq_cons.mp h
      obtain ⟨m, d, r, hlexeme, hi, hm, hnil⟩ := ih hrest
      refine ⟨m, d, r, hlexeme, hi, ?_, hnil⟩
      have hj' : j.lexeme = (scan c s).lexeme := by rw [← hj, Item.lexeme_ofScan]
      rw [hm, List.flatMap_cons, List.length_append, hj', Nat.add_assoc]

/-- An item that ends for certain is followed by the line feed behind the text. -/
theorem items_append_lineFeed {cs : List Char} {n : ℕ} {is : List Item} {i : Item} (h : items ⟨n, cs⟩ = is ++ [i])
    (hi : i.Ends) (t : List Char) :
    ∃ k, items ⟨n, cs ++ '\n' :: t⟩ = is ++ i :: items ⟨k, '\n' :: t⟩ := by
  obtain ⟨m, c, s, hlexeme, rfl, hm, hrest⟩ := items_last h
  refine ⟨m + (scan c s).lexeme.length, ?_⟩
  rw [items_append h (.append_lineFeed cs t), ← hm, hlexeme, List.cons_append, items_cons,
    scan_append_of_ends hi hrest]
  unfold Scan.extend
  rw [hrest]
  rfl

/-- Spaces at the end of a text run on over the line feed behind it. -/
theorem items_append_spaces {cs : List Char} {n : ℕ} {is : List Item} {i : Token}
    (h : items ⟨n, cs⟩ = is ++ [.token i]) (hi : i.kind = .space) (t : List Char) :
    ∃ j k, j.kind = .space ∧
      items ⟨n, cs ++ '\n' :: t⟩ = is ++ .token j :: items ⟨k, t.dropWhile isSpace⟩ := by
  obtain ⟨m, c, s, hlexeme, hscan, -, hrest⟩ := items_last h
  have hkind : (scan c s).kind? = some .space := by
    unfold Item.ofScan at hscan
    split at hscan
    · rename_i hk
      cases hscan
      exact hk.trans (congrArg some hi)
    · cases hscan
  obtain ⟨d, r, hd, hcons⟩ : TokenKind.space.Opens (c :: s) := opens_of_blank hkind rfl
  obtain ⟨rfl, rfl⟩ := List.cons_eq_cons.mp hcons
  have hspaces : ∀ x ∈ s, isSpace x := by
    rw [scan_space hd] at hrest
    exact List.dropWhile_eq_nil_iff.mp hrest
  rw [items_append h (.append_lineFeed cs t), hlexeme, List.cons_append, items_cons, scan_space hd]
  rw [List.dropWhile_append_of_pos hspaces]
  exact ⟨_, _, rfl, rfl⟩

end Cursor

end SlotGrid.Style
