import SlotGrid.Proofs.Style.SelectorText

/-! # Where positions come from

Every position that is registered while a text is read is named by a declaration of the text, whether its rule is kept
or not. A slot whose name is no character of names is named with an escape there.
-/

namespace SlotGrid.Style

/-! ## Names with other characters -/

/-- A piece of a name is a character of names, or it has a backslash. -/
theorem namePiece?_cases {cs rest : List Char} {p : Piece} (h : namePiece? cs = some (p, rest)) :
    (∃ c, isNameChar c = true ∧ p = .literal c) ∨ '\\' ∈ p.raw := by
  fun_cases namePiece? cs with
  | case1 cs =>
    obtain ⟨hne, hraw⟩ := escapeAfter_sound h
    obtain ⟨c, raw, hp⟩ := List.exists_cons_of_ne_nil hne
    rw [hp, List.cons_append] at hraw
    rw [hp, (List.cons.inj hraw).1]
    exact .inr List.mem_cons_self
  | case2 c cs _ hc =>
    rw [namePiece?, if_pos hc] at h
    · cases h
      exact .inl ⟨c, hc, rfl⟩
    · simp_all
  | case3 => simp_all [namePiece?]
  | case4 => cases h

theorem mem_run_nameReader {cs : List Char} {p : Piece} (hp : p ∈ (nameReader.run cs).1) :
    (∃ c, isNameChar c = true ∧ p = .literal c) ∨ '\\' ∈ p.raw := by
  fun_induction PieceReader.run nameReader cs with
  | case1 => cases hp
  | case2 cs q rest h ih =>
    rcases List.mem_cons.mp hp with rfl | hp
    · exact namePiece?_cases h
    · exact ih hp

/-- A name has a character that is none of names only by an escape. -/
theorem backslash_mem_rawText {cs : List Char} {c : Char} (hchar : isNameChar c = false)
    (hc : c ∈ (decodedText (nameReader.run cs).1).toList ∨ c ∈ rawText (nameReader.run cs).1) :
    '\\' ∈ rawText (nameReader.run cs).1 := by
  obtain ⟨p, hp, hc⟩ : ∃ p ∈ (nameReader.run cs).1, c ∈ p.decoded ∨ c ∈ p.raw := by
    rcases hc with hc | hc
    · rw [decodedText, String.toList_ofList] at hc
      obtain ⟨p, hp, hc⟩ := List.mem_flatMap.mp hc
      exact ⟨p, hp, .inl hc⟩
    · obtain ⟨p, hp, hc⟩ := List.mem_flatMap.mp hc
      exact ⟨p, hp, .inr hc⟩
  refine List.mem_flatMap.mpr ⟨p, hp, (mem_run_nameReader hp).resolve_left ?_⟩
  rintro ⟨d, hd, rfl⟩
  have hsame : c = d := by
    rcases hc with hc | hc
    all_goals exact List.mem_singleton.mp hc
  rw [hsame, hd] at hchar
  cases hchar

theorem scanName_of_word {cs : List Char} {k : TokenKind} (h : (scanName cs).kind? = some k)
    (hk : (∃ name, k = .ident name) ∨ ∃ w, k = .keyword w) :
    (scanName cs).lexeme = rawText (nameReader.run cs).1 ∧
      ∀ name, k = .ident name → name = decodedText (nameReader.run cs).1 := by
  unfold scanName at h ⊢
  dsimp only at h ⊢
  split at h
  · exfalso
    split_ifs at h
    · unfold scanAddress at h
      dsimp only at h
      split at h
      · rcases hk with ⟨_, rfl⟩ | ⟨_, rfl⟩ <;> cases h
      · cases h
    · rcases hk with ⟨_, rfl⟩ | ⟨_, rfl⟩ <;> cases h
  · cases h
    refine ⟨rfl, fun name hname => ?_⟩
    cases hkeyword : TokenKind.keyword? (decodedText (nameReader.run cs).1) with
    | none =>
      rw [hkeyword] at hname
      cases hname
      rfl
    | some w =>
      rw [hkeyword] at hname
      cases hname

theorem Item.backslash_mem_lexeme {text : String} {i : Item} (hi : i ∈ Stream.ofText text) {name : String}
    (hname : i.name? = some name) {c : Char} (hc : c ∈ name.toList) (hchar : isNameChar c = false) :
    '\\' ∈ i.lexeme := by
  rcases List.mem_cons.mp hi with rfl | hi
  · cases hname
  obtain ⟨n, x, xs, rfl⟩ := Item.exists_scan_of_mem_items (List.mem_of_mem_filter hi)
  rw [Item.lexeme_ofScan]
  unfold Item.ofScan at hname
  cases hk : (scan x xs).kind? with
  | none =>
    rw [hk] at hname
    cases hname
  | some k =>
    rw [hk] at hname
    have hword : (∃ name, k = .ident name) ∨ ∃ w, k = .keyword w := by
      cases k with
      | ident name => exact .inl ⟨name, rfl⟩
      | keyword w => exact .inr ⟨w, rfl⟩
      | _ => cases hname
    have hscan := scan_of_word hk hword
    rw [hscan] at hk hname ⊢
    obtain ⟨hlexeme, hident⟩ := scanName_of_word hk hword
    rw [hlexeme] at hname ⊢
    apply backslash_mem_rawText hchar
    rcases hword with ⟨_, rfl⟩ | ⟨w, rfl⟩
    · cases hname
      exact .inl (hident _ rfl ▸ hc)
    · cases hname
      rw [String.toList_ofList] at hc
      exact .inr hc

/-! ## Positions of a text -/

/-- The start of a declaration that places elements in the slot of a name, up to the name. -/
def PlacesIn (slot : Char) (is : List Item) : Prop :=
  PositionStart is ∧ ∃ i, is.getLast? = some i ∧ i.name?.map String.toList = some [slot]

/-- The stream has been read further, and every new position is named in what was there to read. -/
structure Progress.Sited (p q : Progress) : Prop where
  suffix : q.stream <:+ p.stream
  positions : ∃ xs, q.positions = p.positions ++ xs ∧ ∀ x ∈ xs, ∃ is, PlacesIn x.slot is ∧ is <:+: p.stream

namespace Progress

instance : IsPreorder Progress Sited where
  refl _ := ⟨List.suffix_rfl, [], (List.append_nil _).symm, nofun⟩
  trans p q r h h' := by
    obtain ⟨xs, hxs, hsites⟩ := h.positions
    obtain ⟨ys, hys, hsites'⟩ := h'.positions
    refine ⟨h'.suffix.trans h.suffix, xs ++ ys, by rw [hys, hxs, List.append_assoc], ?_⟩
    refine List.forall_mem_append.mpr ⟨hsites, fun y hy => ?_⟩
    obtain ⟨is, his, hinfix⟩ := hsites' y hy
    exact ⟨is, his, hinfix.trans h.suffix.isInfix⟩

theorem Sited.of_positions_eq {p q : Progress} (hs : q.stream <:+ p.stream) (h : q.positions = p.positions) :
    p.Sited q := ⟨hs, [], h.trans (List.append_nil _).symm, nofun⟩

instance : RegistryFrame Sited := ⟨fun hs h => .of_positions_eq hs h.positions⟩

end Progress

namespace Reader

open Progress

variable {p q : Progress} {registered : ℕ}

theorem positions_templateDeclaration (registered : ℕ) (p : Progress) :
    (after (templateDeclaration registered) p).positions = p.positions := by
  unfold after templateDeclaration
  cases h : templateDefinition p with
  | error e q => exact (plain_templateDefinition.of_error (R := Unregistered) h).positions
  | ok d q =>
    have hnone := plain_templateDefinition.of_ok (R := Unregistered) h
    simp only
    cases Template.ofRows q.selector (valueText p.stream.declarationItems) d.1 d.2 with
    | error e => exact hnone.positions
    | ok t => exact hnone.positions

theorem sited_display {text : String} (h : property p = .ok "display" q) (hk : q.stream.kind = .string text) :
    p.Sited (after (templateDeclaration registered) q) := by
  have hproperty : p.Sited q := plain_property.of_ok h
  obtain ⟨hsuffix, -⟩ := noted_templateDeclaration registered q hk
  exact trans_of Sited hproperty (.of_positions_eq hsuffix (positions_templateDeclaration registered q))

theorem sited_position {items : List Item} {p' : Progress} (h : property p = .ok "position" q)
    (hvalue : value q = .ok items p') : p.Sited (p'.place items) := by
  have hmoved : p.Unregistered p' :=
    trans_of Unregistered (plain_property.of_ok h) (moved_value.of_ok hvalue).unregistered
  obtain ⟨is, his, -, hposition⟩ := exists_passed_of_property h
  obtain ⟨-, hitems⟩ := value_eq_ok_items hvalue
  have hsuffix : p'.stream <:+ p.stream := List.IsSuffix.trans ⟨items, hitems⟩ ⟨is, his⟩
  rcases place_cases p' items with hplace | ⟨spaces, slot, more, c, rfl, hspaces, hslot, hplace⟩
  · rw [hplace]
    exact .of_positions_eq hsuffix hmoved.positions
  · rw [hplace]
    refine ⟨hsuffix, _, congrArg (· ++ _) hmoved.positions, List.forall_mem_singleton.mpr ?_⟩
    refine ⟨is ++ (spaces ++ [slot]), ⟨hposition rfl spaces slot hspaces ⟨c, hslot⟩, slot, by simp, hslot⟩, ?_⟩
    refine ⟨[], more ++ p'.stream, ?_⟩
    rw [← his, ← hitems]
    simp

theorem sited_rule? : Within Sited (rule? registered) :=
  kept_rule? (kept_declaration sited_display sited_position)

end Reader

namespace Progress

variable {registered : ℕ}

theorem sited_step (registered : ℕ) (p : Progress) : p.Sited (p.step registered) := by
  have hsuffix : p.Further (p.step registered) := keeps_step registered p
  have hrule : p.fresh.Sited (Reader.after (Reader.rule? registered) p.fresh) := Reader.sited_rule? _
  obtain ⟨xs, hxs, hsites⟩ := hrule.positions
  exact ⟨hsuffix, xs, (unregistered_step registered p).positions.trans hxs, hsites⟩

theorem sited_finish (registered : ℕ) (p : Progress) : p.Sited (p.finish registered) := by
  induction p using induction_step registered with
  | step p ih =>
    by_cases hlt : (p.step registered).stream.length < p.stream.length
    · rw [finish_of_lt hlt]
      exact trans_of Sited (sited_step registered p) (ih hlt)
    · rw [finish_of_not_lt hlt]
      exact sited_step registered p

end Progress

/-- A position of a text is named by one of its declarations, and a name that is no character of names has a
backslash there. -/
theorem exists_of_mem_positions {registered : ℕ} {text : String} {x : Position}
    (hx : x ∈ (parse registered text).positions) :
    ∃ front slot, PositionStart (front ++ [slot]) ∧ front ++ [slot] <:+: Stream.ofText text ∧
      slot.name? = some (String.ofList [x.slot]) ∧ (isNameChar x.slot = false → '\\' ∈ slot.lexeme) := by
  obtain ⟨xs, hxs, hsites⟩ := (Progress.sited_finish registered (.start (.ofText text))).positions
  obtain ⟨is, ⟨hstart, slot, hlast, hname⟩, hinfix⟩ := hsites x ((hxs.trans (List.nil_append _)) ▸ hx)
  obtain ⟨front, rfl⟩ := List.getLast?_eq_some_iff.mp hlast
  obtain ⟨name, hname, hlist⟩ := Option.map_eq_some_iff.mp hname
  have hofList : name = String.ofList [x.slot] := by rw [← hlist, String.ofList_toList]
  refine ⟨front, slot, hstart, hinfix, hname.trans (congrArg some hofList), fun hchar => ?_⟩
  have hmem : slot ∈ Stream.ofText text := hinfix.subset (List.mem_append_right _ (List.mem_singleton_self slot))
  exact Item.backslash_mem_lexeme hmem hname (by rw [hlist]; exact List.mem_singleton_self _) hchar

end SlotGrid.Style
