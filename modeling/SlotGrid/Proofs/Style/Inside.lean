import SlotGrid.Proofs.Style.Joined
import SlotGrid.Proofs.Style.Stored

/-! # Inside of blocks

A block is read item by item, and every item leaves less of the stream. So a rule that leaves something behind has been
closed by a brace, and where the reader is inside of a block it is behind a brace or a semicolon.
-/

namespace SlotGrid.Style

namespace Stream

variable {s : Stream} {depth : ℕ}

/-- The rest of a rule is skipped up to its brace if something is left. -/
theorem closesRule_of_ne_nil (h : s.skipRule depth ≠ []) : s.closesRule depth = true := by
  fun_induction closesRule depth s with
  | case1 => exact absurd rfl h
  | case2 depth i s hk ih =>
    rw [skipRule, hk] at h
    exact ih h
  | case3 => rfl
  | case4 depth i s hk hdepth ih =>
    rw [skipRule, hk] at h
    exact ih (by simpa [hdepth] using h)
  | case5 depth i s hleft hright ih =>
    rw [skipRule] at h
    split at h
    · contradiction
    · contradiction
    · exact ih h

theorem closesAtRule_of_ne_nil (h : s.skipAtRule depth ≠ []) : s.closesAtRule depth = true := by
  fun_induction closesAtRule depth s with
  | case1 => exact absurd rfl h
  | case2 => rfl
  | case3 depth i s hk hdepth ih =>
    rw [skipAtRule, hk] at h
    exact ih (by simpa [hdepth] using h)
  | case4 depth i s hk ih =>
    rw [skipAtRule, hk] at h
    exact ih h
  | case5 => rfl
  | case6 depth i s hk hdepth ih =>
    rw [skipAtRule, hk] at h
    exact ih (by simpa [hdepth] using h)
  | case7 depth i s hsemicolon hleft hright ih =>
    rw [skipAtRule] at h
    split at h
    · contradiction
    · contradiction
    · contradiction
    · exact ih h

end Stream

namespace Reader

variable {registered : ℕ} {p q : Progress}

/-! ## Items of a block -/

/-- A value that is read ends with its declaration. -/
theorem ends_of_loop_valueItem {a : Unit} (h : loop valueItem p = .ok a q) :
    q.stream.kind.endsDeclaration = true := by
  induction hn : p.stream.length using Nat.strong_induction_on generalizing p with
  | _ n ih =>
    rw [loop_eq] at h
    cases hitem : valueItem p with
    | error e p₁ =>
      rw [hitem] at h
      cases h
    | ok more p₁ =>
      rw [hitem] at h
      rcases valueItem_eq_ok hitem with ⟨rfl, rfl, hends⟩ | ⟨rfl, i, hs, -⟩
      · cases h
        exact hends
      · have hlt : p₁.stream.length < p.stream.length := by rw [hs]; exact Nat.lt_succ_self _
        simp only [hlt, if_true] at h
        exact ih _ (hn ▸ hlt) h rfl

theorem ends_of_templateDeclaration {a : Unit} (hp : p.stream.kind ≠ .space)
    (h : templateDeclaration registered p = .ok a q) : q.stream.kind.endsDeclaration = true := by
  unfold templateDeclaration at h
  cases hdefinition : templateDefinition p with
  | error e p₁ =>
    rw [hdefinition] at h
    cases h
    exact p₁.stream.ends_skipDeclaration
  | ok d p₁ =>
    obtain ⟨rows, widths⟩ := d
    have hends := (derives_of_templateDefinition hp hdefinition).1
    rw [hdefinition] at h
    simp only at h
    split at h
    all_goals
      cases h
      exact hends

/-- A declaration that is read is passed up to its end. -/
theorem ends_of_declaration {a : Unit} (h : declaration registered p = .ok a q) :
    q.stream.kind.endsDeclaration = true ∧ q.stream.length < p.stream.length := by
  unfold declaration at h
  obtain ⟨name, p₁, hproperty, h⟩ := bind_eq_ok.mp h
  obtain ⟨k, p₂, hkind, h⟩ := bind_eq_ok.mp h
  cases hkind
  have hlt : p₁.stream.length < p.stream.length := by
    obtain ⟨i, before, colon, behind, -, -, -, -, hs⟩ := property_eq_ok hproperty
    rw [hs]
    simp only [List.length_cons, List.length_append]
    omega
  generalize p₁.stream.kind = k at h
  split at h
  · have hle := (within_templateDeclaration.of_ok (R := Progress.Onward) h).length_le
    exact ⟨ends_of_templateDeclaration (kind_ne_space_of_property hproperty) h, hle.trans_lt hlt⟩
  · obtain ⟨items, p₂, hvalue, h⟩ := bind_eq_ok.mp h
    have hends : p₂.stream.kind.endsDeclaration = true := by
      obtain ⟨_, p₃, hget, hvalue⟩ := bind_eq_ok.mp hvalue
      cases hget
      obtain ⟨_, p₃, hloop, hvalue⟩ := bind_eq_ok.mp hvalue
      cases hvalue
      exact ends_of_loop_valueItem hloop
    have hle := (within_value.of_ok (R := Progress.Onward) hvalue).length_le
    have hq : q.stream = p₂.stream := by
      simp only at h
      split_ifs at h
      · obtain ⟨_, p₃, hplace, h⟩ := bind_eq_ok.mp h
        cases hplace
        cases h
        exact stream_place p₂ items
      · cases h
        rfl
    rw [hq]
    exact ⟨hends, hle.trans_lt hlt⟩

/-- The block goes on behind a semicolon or a declaration. -/
theorem blockItem_eq_true (h : blockItem registered p = .ok true q) :
    ∃ p₁, discard skipSpace p = .ok () p₁ ∧
      ((p₁.stream.kind = .punct .semicolon ∧ advance p₁ = .ok () q) ∨ declaration registered p₁ = .ok () q) := by
  unfold blockItem at h
  obtain ⟨_, p₁, hskip, h⟩ := bind_eq_ok.mp h
  obtain ⟨k, p₂, hkind, h⟩ := bind_eq_ok.mp h
  cases hkind
  refine ⟨p₁, hskip, ?_⟩
  generalize hk : p₁.stream.kind = k at h
  split at h
  · obtain ⟨_, p₂, -, h⟩ := bind_eq_ok.mp h
    cases h
  · obtain ⟨_, p₂, hadvance, h⟩ := bind_eq_ok.mp h
    cases h
    exact .inl ⟨rfl, hadvance⟩
  · cases h
  · obtain ⟨_, p₂, hdeclaration, h⟩ := bind_eq_ok.mp h
    cases h
    exact .inr hdeclaration

/-- The block does not go on behind its brace, or at the end of the text. -/
theorem blockItem_eq_false (h : blockItem registered p = .ok false q) :
    q.stream.kind = .endOfInput ∨
      ∃ p₁, discard skipSpace p = .ok () p₁ ∧ p₁.stream.kind = .punct .rightBrace ∧ advance p₁ = .ok () q := by
  unfold blockItem at h
  obtain ⟨_, p₁, hskip, h⟩ := bind_eq_ok.mp h
  obtain ⟨k, p₂, hkind, h⟩ := bind_eq_ok.mp h
  cases hkind
  generalize hk : p₁.stream.kind = k at h
  split at h
  · obtain ⟨_, p₂, hadvance, h⟩ := bind_eq_ok.mp h
    cases h
    exact .inr ⟨p₁, hskip, hk, hadvance⟩
  · obtain ⟨_, p₂, -, h⟩ := bind_eq_ok.mp h
    cases h
  · cases h
    exact .inl hk
  · obtain ⟨_, p₂, -, h⟩ := bind_eq_ok.mp h
    cases h

theorem length_lt_of_advance {a : Unit} (h : advance p = .ok a q) (hk : p.stream.kind ≠ .endOfInput) :
    q.stream.length < p.stream.length := by
  rw [(advance_eq_ok.mp h).1]
  cases hs : p.stream with
  | nil =>
    rw [hs] at hk
    exact absurd rfl hk
  | cons i s => exact Nat.lt_succ_self _

/-- Every item of a block leaves less of the stream. -/
theorem length_lt_of_blockItem (h : blockItem registered p = .ok true q) : q.stream.length < p.stream.length := by
  obtain ⟨p₁, hskip, h⟩ := blockItem_eq_true h
  have hle := ((plain_discard plain_skipSpace).of_ok (R := Progress.Onward) hskip).length_le
  rcases h with ⟨hk, hadvance⟩ | hdeclaration
  · exact (length_lt_of_advance hadvance (by simp [hk])).trans_le hle
  · exact (ends_of_declaration hdeclaration).2.trans_le hle

/-! ## Rules that leave something behind -/

/-- A block is closed by its brace, or it goes on to the end of the text. -/
theorem exists_brace_of_block {a : Unit} (h : loop (blockItem registered) p = .ok a q) :
    q.stream.kind = .endOfInput ∨ ∃ is brace, brace.kind = .punct .rightBrace ∧ p.stream = is ++ brace :: q.stream := by
  induction hn : p.stream.length using Nat.strong_induction_on generalizing p with
  | _ n ih =>
    rw [loop_eq] at h
    cases hitem : blockItem registered p with
    | error e p₁ =>
      rw [hitem] at h
      cases h
    | ok more p₁ =>
      rw [hitem] at h
      cases more with
      | false =>
        cases h
        apply (blockItem_eq_false hitem).imp_right
        rintro ⟨p₁, hskip, hk, hadvance⟩
        obtain ⟨is, hs⟩ := ((plain_discard plain_skipSpace).of_ok (R := Progress.Onward) hskip).stream
        rw [(advance_eq_ok.mp hadvance).1]
        cases hs₁ : p₁.stream with
        | nil =>
          rw [hs₁] at hk
          cases hk
        | cons brace s =>
          rw [hs₁] at hk hs
          exact ⟨is, brace, hk, hs.symm⟩
      | true =>
        have hlt := length_lt_of_blockItem hitem
        simp only [hlt, if_true] at h
        apply (ih _ (hn ▸ hlt) h rfl).imp_right
        rintro ⟨is, brace, hbrace, hs⟩
        obtain ⟨js, hjs⟩ := (within_blockItem.of_ok (R := Progress.Onward) hitem).stream
        exact ⟨js ++ is, brace, hbrace, by rw [← hjs, hs, List.append_assoc]⟩

theorem exists_brace_of_rule? {r : Rule} (h : rule? registered p = .ok (some r) q) :
    q.stream.kind = .endOfInput ∨ ∃ is brace, brace.kind = .punct .rightBrace ∧ p.stream = is ++ brace :: q.stream := by
  unfold rule? at h
  obtain ⟨_, p₁, hnoise, h⟩ := bind_eq_ok.mp h
  obtain ⟨k, p₂, hkind, h⟩ := bind_eq_ok.mp h
  cases hkind
  generalize p₁.stream.kind = k at h
  split at h
  · cases h
  · obtain ⟨_, p₂, -, h⟩ := bind_eq_ok.mp h
    cases h
  · obtain ⟨r', p₂, hrule, h⟩ := bind_eq_ok.mp h
    cases h
    rw [rule_eq_header] at hrule
    obtain ⟨_, p₃, hheader, hrule⟩ := bind_eq_ok.mp hrule
    obtain ⟨_, p₄, hmodify, hrule⟩ := bind_eq_ok.mp hrule
    cases hmodify
    obtain ⟨_, p₅, hblock, hrule⟩ := bind_eq_ok.mp hrule
    cases hrule
    apply (exists_brace_of_block hblock).imp_right
    rintro ⟨is, brace, hbrace, hs⟩
    obtain ⟨js, hjs⟩ := (plain_skipNoise.of_ok (R := Progress.Onward) hnoise).stream
    obtain ⟨ks, hks⟩ := (opened_header.of_ok hheader).suffix
    refine ⟨js ++ (ks ++ is), brace, hbrace, ?_⟩
    rw [← hjs, ← hks, show p₃.stream = is ++ brace :: q.stream from hs]
    simp

end Reader

namespace Progress

variable {registered : ℕ} {p : Progress}

/-- A step that leaves something behind ends in the text. -/
theorem ends_of_ne_nil (hkinds : ∀ i ∈ p.stream, i.kind ≠ .endOfInput) (h : (p.step registered).stream ≠ []) :
    p.Ends registered := by
  obtain ⟨i, s, hs⟩ := List.exists_cons_of_ne_nil h
  have hsuffix : (p.step registered).stream <:+ p.stream := (keeps_step (R := Further) registered p)
  have hi : i.kind ≠ .endOfInput := hkinds i (hsuffix.subset (hs ▸ List.mem_cons_self))
  unfold Ends
  cases hrule : Reader.rule? registered p.fresh with
  | error e q =>
    rw [step_of_error hrule] at h
    exact Stream.closesRule_of_ne_nil h
  | ok r q =>
    cases r with
    | some r =>
      rw [step_of_rule hrule] at hs
      refine (Reader.exists_brace_of_rule? hrule).resolve_left fun hk => hi ?_
      rw [← hk, show q.stream = i :: s from hs]
      rfl
    | none =>
      rw [step_of_none hrule] at hs h
      obtain ⟨p', hnoise, hq⟩ := Reader.rule?_eq_none_iff.mp hrule
      obtain rfl := Reader.skipNoise_eq_ok hnoise
      rcases hq with ⟨hk, rfl⟩ | ⟨name, -, rfl⟩
      · rw [hs] at hk
        exact absurd hk hi
      · exact .inr (Stream.closesAtRule_of_ne_nil h)

end Progress

/-! ## The place in a block -/

namespace Reader

variable {registered : ℕ} {p q b c : Progress}

/-- From the start of a rule on its block has been read up to here. -/
inductive Reaches (registered : ℕ) (p : Progress) : Progress → Prop
  | opened {q b : Progress} (hnoise : skipNoise p = .ok () q) (hheader : header q = .ok () b) :
      Reaches registered p { b with depth := 1 }
  | next {b c : Progress} (h : Reaches registered p b) (hitem : blockItem registered b = .ok true c) :
      Reaches registered p c

/-- The rest of a rule from inside of its block. -/
def restOfRule (registered : ℕ) : Reader Rule := do
  loop (blockItem registered)
  return ⟨(← get).selector, (← get).declarations⟩

theorem restOfRule_of_blockItem (h : blockItem registered b = .ok true c) :
    restOfRule registered b = restOfRule registered c := by
  have hloop : loop (blockItem registered) b = loop (blockItem registered) c := by
    rw [loop_eq (blockItem registered) b, h]
    exact if_pos (length_lt_of_blockItem h)
  exact bind_congr hloop

/-- The rest of a rule depends on the next item of the block only. -/
theorem restOfRule_congr (h : blockItem registered b = blockItem registered c) :
    restOfRule registered b = restOfRule registered c := by
  have hloop : loop (blockItem registered) b = loop (blockItem registered) c := by
    rw [loop_eq (blockItem registered) b, loop_eq (blockItem registered) c, h]
    cases hitem : blockItem registered c with
    | error e p' => rfl
    | ok more p' =>
      cases more with
      | false => rfl
      | true =>
        have hlt := length_lt_of_blockItem (h.trans hitem)
        have hlt' := length_lt_of_blockItem hitem
        simp only [hlt, hlt', if_true]
  exact bind_congr hloop

/-- No selector starts at the end of the text, or with an at-rule. -/
theorem selectors_ne_ok {a : Unit} (hk : p.stream.kind = .endOfInput ∨ ∃ name, p.stream.kind = .atKeyword name) :
    selectors p ≠ .ok a q := by
  have hname : p.stream.head?.bind Item.name? = none := by
    cases hs : p.stream with
    | nil => rfl
    | cons i s =>
      rw [hs] at hk
      rcases hk with hk | ⟨name, hk⟩
      all_goals
        cases i with
        | token t => simp_all [Stream.kind, Item.kind, Item.name?, Token.name?]
        | openAddress => rfl
  have htyped : typeOrUniversal p = .ok false p := by
    unfold typeOrUniversal
    rw [bind_name?, hname]
    change (kind >>= _) p = _
    rw [bind_kind]
    rcases hk with hk | ⟨name, hk⟩
    all_goals
      rw [hk]
      rfl
  have hqualifier : qualifier p = .ok false p := by
    unfold qualifier
    rw [bind_kind]
    rcases hk with hk | ⟨name, hk⟩
    all_goals
      rw [hk]
      rfl
  have hparts : collect (do
      if (← kind) = .negation then negation; return some ()
      else if ← qualifier then return some ()
      else return none) p = .ok [] p := by
    apply collect_of_none
    rw [bind_kind, if_neg (by rcases hk with hk | ⟨name, hk⟩ <;> simp [hk]), bind_of_ok hqualifier]
    rfl
  intro h
  obtain ⟨_, p₁, hselector, -⟩ := bind_eq_ok.mp h
  obtain ⟨_, p₂, hcompound, -⟩ := bind_eq_ok.mp hselector
  unfold compound at hcompound
  rw [bind_of_ok htyped, bind_of_ok hparts] at hcompound
  exact unexpected_ne_ok hcompound

/-- A rule is what is read from inside of its block. -/
theorem Reaches.rule?_eq (h : Reaches registered p b) :
    rule? registered p = (do return some (← restOfRule registered)) b := by
  induction h with
  | @opened q b hnoise hheader =>
    obtain ⟨_, p₁, hselectors, -⟩ := bind_eq_ok.mp hheader
    unfold rule?
    rw [bind_of_ok hnoise, bind_kind]
    generalize hkind : q.stream.kind = k
    split
    · exact absurd hselectors (selectors_ne_ok (.inl hkind))
    · exact absurd hselectors (selectors_ne_ok (.inr ⟨_, hkind⟩))
    · have hrule : rule registered q = restOfRule registered { b with depth := 1 } := by
        rw [rule_eq_header, bind_of_ok hheader]
        rfl
      exact bind_congr hrule
  | next h hitem ih => rw [ih, bind_congr (restOfRule_of_blockItem hitem)]

theorem Reaches.suffix (h : Reaches registered p b) : b.stream <:+ p.stream := by
  induction h with
  | opened hnoise hheader =>
    have hnoise' := (plain_skipNoise.of_ok (R := Progress.Onward) hnoise).stream
    exact (opened_header.of_ok hheader).suffix.trans hnoise'
  | next h hitem ih => exact (within_blockItem.of_ok (R := Progress.Onward) hitem).stream.trans ih

/-- The reader is inside of a block behind the brace that opens it, behind a semicolon, or where a declaration ends. -/
theorem Reaches.exists_divider (h : Reaches registered p b) (hends : b.stream.kind.endsDeclaration = false) :
    ∃ is i m, i.kind = .punct m ∧ (TokenKind.punct m).divides = true ∧ p.stream = is ++ i :: b.stream := by
  cases h with
  | @opened p₁ b hnoise hheader =>
    obtain ⟨_, p₂, hselectors, hexpect⟩ := bind_eq_ok.mp hheader
    obtain ⟨brace, hk, hs⟩ := expect_eq_ok hexpect nofun
    obtain ⟨is, hp⟩ := (plain_skipNoise.of_ok (R := Progress.Onward) hnoise).stream
    obtain ⟨js, hp₁⟩ := (plain_selectors.of_ok (R := Progress.Onward) hselectors).stream
    refine ⟨is ++ js, brace, _, hk, rfl, ?_⟩
    rw [← hp, ← hp₁, hs, List.append_assoc]
  | next h hitem =>
    obtain ⟨p₁, hskip, ⟨hk, hadvance⟩ | hdeclaration⟩ := blockItem_eq_true hitem
    · obtain ⟨i, hi, hreads⟩ := reads_advance hadvance hk nofun
      obtain ⟨is, hp₁⟩ := ((plain_discard plain_skipSpace).of_ok (R := Progress.Onward) hskip).stream.trans h.suffix
      exact ⟨is, i, _, hi, rfl, by rw [← hp₁, hreads.stream, List.singleton_append]⟩
    · rw [(ends_of_declaration hdeclaration).1] at hends
      cases hends

end Reader

end SlotGrid.Style
