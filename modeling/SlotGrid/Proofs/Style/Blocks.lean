import SlotGrid.Proofs.Style.Declarations

/-! # Blocks that are skipped

When a rule fails, the reader is in front of its block or between the braces of the block, and it has passed whole
declarations only. So the rest of the rule can be skipped by counting braces, as long as the count says how many of
them are open.
-/

namespace SlotGrid.Style

/-- Stretches without braces. -/
def Braceless (is : List Item) : Prop := ∀ i ∈ is, i.kind ≠ .punct .leftBrace ∧ i.kind ≠ .punct .rightBrace

/-- Stretches in which every brace has its partner. -/
inductive Balanced : List Item → Prop
  | nil : Balanced []
  | item {i : Item} {is : List Item} (hopening : i.kind ≠ .punct .leftBrace) (hclosing : i.kind ≠ .punct .rightBrace)
      (h : Balanced is) : Balanced (i :: is)
  | block {opening closing : Item} {is js : List Item} (hopening : opening.kind = .punct .leftBrace)
      (hclosing : closing.kind = .punct .rightBrace) (h : Balanced is) (h' : Balanced js) :
      Balanced (opening :: (is ++ closing :: js))

theorem Braceless.balanced {is : List Item} (h : Braceless is) : Balanced is := by
  induction is with
  | nil => exact .nil
  | cons i is ih =>
    obtain ⟨⟨hopening, hclosing⟩, his⟩ := List.forall_mem_cons.mp h
    exact .item hopening hclosing (ih his)

theorem Item.isComment_of_punct {i : Item} {b : Punctuation} (h : i.kind = .punct b) : i.isComment = false := by
  cases i with
  | openAddress => rfl
  | token t => simp_all [isComment, kind]

theorem Balanced.uncommented {is : List Item} (h : Balanced is) : Balanced (is.filter (!·.isComment)) := by
  induction h with
  | nil => exact .nil
  | item hopening hclosing _ ih =>
    rw [List.filter_cons]
    split_ifs
    · exact .item hopening hclosing ih
    · exact ih
  | block hopening hclosing _ _ ih ih' =>
    simp only [List.filter_cons, List.filter_append, Item.isComment_of_punct hopening,
      Item.isComment_of_punct hclosing, Bool.not_false, if_true]
    exact .block hopening hclosing ih ih'

/-! ## Skipping -/

namespace Stream

variable {i : Item} {s : Stream} {depth : ℕ}

theorem skipRule_of_opening (h : i.kind = .punct .leftBrace) : skipRule depth (i :: s) = skipRule (depth + 1) s := by
  rw [skipRule, h]

theorem skipRule_of_closing (h : i.kind = .punct .rightBrace) :
    skipRule depth (i :: s) = if depth ≤ 1 then s else skipRule (depth - 1) s := by
  rw [skipRule, h]

theorem skipRule_of_ne (hopening : i.kind ≠ .punct .leftBrace) (hclosing : i.kind ≠ .punct .rightBrace) :
    skipRule depth (i :: s) = skipRule depth s := by
  rw [skipRule]
  split
  · contradiction
  · contradiction
  · rfl

end Stream

theorem Braceless.skipRule_append {is : List Item} (h : Braceless is) (depth : ℕ) (s : Stream) :
    Stream.skipRule depth (is ++ s) = Stream.skipRule depth s := by
  induction is with
  | nil => rfl
  | cons i is ih =>
    obtain ⟨⟨hopening, hclosing⟩, his⟩ := List.forall_mem_cons.mp h
    rw [List.cons_append, Stream.skipRule_of_ne hopening hclosing, ih his]

/-- Within a block the count of braces is the same behind a balanced stretch. -/
theorem Balanced.skipRule_append {is : List Item} (h : Balanced is) (depth : ℕ) (s : Stream) :
    Stream.skipRule (depth + 1) (is ++ s) = Stream.skipRule (depth + 1) s := by
  induction h generalizing depth s with
  | nil => rfl
  | item hopening hclosing _ ih => rw [List.cons_append, Stream.skipRule_of_ne hopening hclosing, ih]
  | block hopening hclosing _ _ ih ih' =>
    rw [List.cons_append, Stream.skipRule_of_opening hopening, List.append_assoc, ih, List.cons_append,
      Stream.skipRule_of_closing hclosing, if_neg (by omega), Nat.add_sub_cancel, ih']

/-- The rest of a block, up to the brace that closes it. -/
def InBlock (s : Stream) : Prop := ∃ is closing, Balanced is ∧ closing.kind = .punct .rightBrace ∧ s = is ++ [closing]

namespace InBlock

variable {i : Item} {is : List Item} {s : Stream}

theorem skipRule_append (h : InBlock s) (t : Stream) : Stream.skipRule 1 (s ++ t) = t := by
  obtain ⟨is, closing, his, hclosing, rfl⟩ := h
  rw [List.append_assoc, his.skipRule_append 0, List.singleton_append, Stream.skipRule_of_closing hclosing,
    if_pos le_rfl]

theorem tail (h : InBlock (i :: s)) (hopening : i.kind ≠ .punct .leftBrace) (hclosing : i.kind ≠ .punct .rightBrace) :
    InBlock s := by
  obtain ⟨is, closing, his, hend, hs⟩ := h
  cases his with
  | nil =>
    obtain ⟨rfl, -⟩ := List.cons.inj hs
    exact absurd hend hclosing
  | item _ _ his =>
    obtain ⟨-, hs⟩ := List.cons.inj hs
    exact ⟨_, closing, his, hend, hs⟩
  | block ho =>
    obtain ⟨rfl, -⟩ := List.cons.inj hs
    exact absurd ho hopening

theorem of_append (h : InBlock (is ++ s)) (his : Undivided is) : InBlock s := by
  induction is with
  | nil => exact h
  | cons i is ih =>
    obtain ⟨hi, his⟩ := List.forall_mem_cons.mp his
    refine ih (h.tail ?_ ?_) his
    all_goals
      intro hk
      rw [hk] at hi
      exact hi rfl

/-- Nothing is behind the brace that closes the block. -/
theorem tail_eq_nil (h : InBlock (i :: s)) (hi : i.kind = .punct .rightBrace) : s = [] := by
  obtain ⟨is, closing, his, -, hs⟩ := h
  cases his with
  | nil => exact (List.cons.inj hs).2
  | item _ hclosing =>
    obtain ⟨rfl, -⟩ := List.cons.inj hs
    exact absurd hi hclosing
  | block ho =>
    obtain ⟨rfl, -⟩ := List.cons.inj hs
    exact absurd (ho.symm.trans hi) nofun

end InBlock

/-! ## Readers that fail -/

namespace Progress

variable {p q : Progress}

theorem Passed.suffix (h : p.Passed q) : q.stream <:+ p.stream := by
  obtain ⟨is, -, hs⟩ := h.passed
  exact ⟨is, hs⟩

/-- The reader is inside of the block that the stream ends with. -/
structure Inside (p : Progress) : Prop where
  depth : p.depth = 1
  block : InBlock p.stream
  templates : ¬ OpensInTemplate p.stream

theorem Inside.passed (h : p.Inside) (hq : p.Passed q) : q.Inside := by
  obtain ⟨is, his, hs⟩ := hq.passed
  have hblock := h.block
  rw [← hs] at hblock
  exact ⟨hq.depth.trans h.depth, hblock.of_append his, fun ht => h.templates (ht.mono hq.suffix.isInfix)⟩

/-- The reader is in front of the block that the stream ends with. -/
structure Before (opening : Item) (block : Stream) (p : Progress) : Prop where
  depth : p.depth = 0
  stream : ∃ is, Braceless is ∧ p.stream = is ++ opening :: block

theorem Before.passed {opening : Item} {block : Stream} (h : p.Before opening block)
    (hopening : opening.kind = .punct .leftBrace) (hq : p.Passed q) : q.Before opening block := by
  obtain ⟨is, his, hs⟩ := h.stream
  obtain ⟨js, hjs, hs'⟩ := hq.passed
  refine ⟨hq.depth.trans h.depth, ?_⟩
  rw [hs] at hs'
  rcases List.append_eq_append_iff.mp hs' with ⟨ks, rfl, hks⟩ | ⟨ks, rfl, hks⟩
  · exact ⟨ks, fun i hi => his i (List.mem_append_right js hi), hks⟩
  · cases ks with
    | nil => exact ⟨[], fun i hi => absurd hi List.not_mem_nil, hks.symm⟩
    | cons k ks =>
      obtain ⟨rfl, -⟩ := List.cons.inj hks
      have hdivides := hjs opening (List.mem_append_right is List.mem_cons_self)
      rw [hopening] at hdivides
      exact absurd rfl hdivides

theorem Before.skipRule_append {opening : Item} {block : Stream} (h : p.Before opening block)
    (hopening : opening.kind = .punct .leftBrace) (t : Stream) :
    Stream.skipRule p.depth (p.stream ++ t) = Stream.skipRule 1 (block ++ t) := by
  obtain ⟨is, his, hs⟩ := h.stream
  rw [h.depth, hs, List.append_assoc, his.skipRule_append, List.cons_append, Stream.skipRule_of_opening hopening]

end Progress

namespace Reader

open Progress

variable {p q : Progress} {registered : ℕ} {e : SyntaxError}

/-- Moving on from a semicolon stays inside of the block. -/
theorem inside_semicolon (h : p.Inside) (hk : p.stream.kind = .punct .semicolon) :
    Inside { p with stream := p.stream.tail } := by
  obtain ⟨hdepth, hblock, htemplates⟩ := h
  cases hs : p.stream with
  | nil =>
    rw [hs] at hk
    cases hk
  | cons i s =>
    rw [hs] at hk hblock
    have hi : i.kind = .punct .semicolon := hk
    refine ⟨hdepth, hblock.tail (by simp [hi]) (by simp [hi]), fun ht => htemplates ?_⟩
    rw [hs]
    exact ht.mono (List.suffix_cons i s).isInfix

theorem blockItem_eq_ok (hp : p.Inside) (h : blockItem registered p = .ok true q) : q.Inside := by
  unfold blockItem at h
  obtain ⟨_, p₁, hspace, h⟩ := bind_eq_ok.mp h
  have hp₁ := hp.passed ((plain_discard plain_skipSpace).of_ok hspace)
  obtain ⟨k, p₂, hkind, h⟩ := bind_eq_ok.mp h
  cases hkind
  generalize hk : p₁.stream.kind = k at h
  split at h
  · obtain ⟨_, p₂, -, h⟩ := bind_eq_ok.mp h
    cases h
  · obtain ⟨_, p₂, hadvance, h⟩ := bind_eq_ok.mp h
    cases h
    rw [(advance_eq_ok.mp hadvance).1]
    exact inside_semicolon hp₁ hk
  · cases h
  · obtain ⟨_, p₂, hdeclaration, h⟩ := bind_eq_ok.mp h
    cases h
    exact hp₁.passed (declaration_eq_ok hdeclaration hp₁.templates)

/-- A block fails inside of it, since nothing follows the brace that closes it. -/
theorem blockItem_eq_error (hp : p.Inside) (h : blockItem registered p = .error e q) : q.Inside := by
  unfold blockItem at h
  rcases bind_eq_error.mp h with h | ⟨_, p₁, hspace, h⟩
  · exact hp.passed ((plain_discard plain_skipSpace).of_error h)
  have hp₁ := hp.passed ((plain_discard plain_skipSpace).of_ok hspace)
  rcases bind_eq_error.mp h with h | ⟨k, p₂, hkind, h⟩
  · cases h
  cases hkind
  generalize hk : p₁.stream.kind = k at h
  split at h
  · rcases bind_eq_error.mp h with h | ⟨_, p₂, -, h⟩
    · have htail := (advance_eq_error h).2
      have hblock := hp₁.block
      cases hs : p₁.stream with
      | nil =>
        rw [hs] at hk
        cases hk
      | cons i s =>
        rw [hs] at hk hblock htail
        rw [hblock.tail_eq_nil hk] at htail
        cases htail
    · cases h
  · rcases bind_eq_error.mp h with h | ⟨_, p₂, -, h⟩
    · rw [(advance_eq_error h).1]
      exact inside_semicolon hp₁ hk
    · cases h
  · cases h
  · rcases bind_eq_error.mp h with h | ⟨_, p₂, -, h⟩
    · exact hp₁.passed (declaration_eq_error h)
    · cases h

theorem block_eq_error (hp : p.Inside) (h : loop (blockItem registered) p = .error e q) : q.Inside := by
  induction hn : p.stream.length using Nat.strong_induction_on generalizing p with
  | _ n ih =>
    rw [loop_eq] at h
    cases hitem : blockItem registered p with
    | error e' p' =>
      rw [hitem] at h
      cases h
      exact blockItem_eq_error hp hitem
    | ok more p' =>
      rw [hitem] at h
      cases more with
      | false => cases h
      | true =>
        simp only at h
        split_ifs at h with hlt
        exact ih _ (hn ▸ hlt) (blockItem_eq_ok hp hitem) h rfl

/-- What is left of a rule that fails is skipped up to the brace that closes its block, and no further. An address
that is not closed and stands at the front of the block makes it fail before the brace is counted. -/
theorem rule_eq_error {opening : Item} {block : Stream} (hp : p.Before opening block)
    (hopening : opening.kind = .punct .leftBrace) (hblock : InBlock block) (htemplates : ¬ OpensInTemplate block)
    (hopens : block.opensAddress = true → ∀ t, Stream.skipRule 0 (block ++ t) = t)
    (h : rule registered p = .error e q) (t : Stream) : Stream.skipRule q.depth (q.stream ++ t) = t := by
  have hbefore : ∀ {q : Progress}, q.Before opening block → Stream.skipRule q.depth (q.stream ++ t) = t := by
    intro q hq
    rw [hq.skipRule_append hopening, hblock.skipRule_append]
  unfold rule at h
  rcases bind_eq_error.mp h with h | ⟨_, p₁, hselectors, h⟩
  · exact hbefore (hp.passed hopening (plain_selectors.of_error h))
  have hp₁ := hp.passed hopening (plain_selectors.of_ok hselectors)
  obtain ⟨is, his, hs⟩ := hp₁.stream
  -- The opening brace is the only brace in front of the block, so it is the one that is asked for.
  have hfront : p₁.stream.kind = .punct .leftBrace → p₁.stream.tail = block := by
    intro hk
    cases is with
    | nil => rw [hs, List.nil_append, List.tail_cons]
    | cons i is =>
      rw [hs] at hk
      exact absurd hk (List.forall_mem_cons.mp his).1.1
  rcases bind_eq_error.mp h with h | ⟨_, p₂, hexpect, h⟩
  · unfold expect at h
    rcases bind_eq_error.mp h with h | ⟨k, p₂, hkind, h⟩
    · cases h
    cases hkind
    split_ifs at h with hk
    · obtain ⟨rfl, htail⟩ := advance_eq_error h
      rw [hfront hk] at htail ⊢
      rw [hp₁.depth]
      exact hopens htail t
    · obtain rfl := unexpected_eq_error h
      exact hbefore hp₁
  obtain ⟨i, hk, hs₂⟩ := expect_eq_ok hexpect nofun
  have hblock₂ : p₂.stream = block := by
    rw [← hfront (by rw [hs₂]; exact hk), hs₂, List.tail_cons]
  rcases bind_eq_error.mp h with h | ⟨_, p₃, hmodify, h⟩
  · cases h
  cases hmodify
  have hinside : Inside { p₂ with depth := 1 } := ⟨rfl, hblock₂ ▸ hblock, hblock₂ ▸ htemplates⟩
  rcases bind_eq_error.mp h with h | ⟨_, p₄, -, h⟩
  · have hq := block_eq_error hinside h
    rw [hq.depth, hq.block.skipRule_append]
  · cases h

theorem rule?_eq_error {opening : Item} {block : Stream} (hp : p.Before opening block)
    (hopening : opening.kind = .punct .leftBrace) (hblock : InBlock block) (htemplates : ¬ OpensInTemplate block)
    (hopens : block.opensAddress = true → ∀ t, Stream.skipRule 0 (block ++ t) = t)
    (h : rule? registered p = .error e q) (t : Stream) : Stream.skipRule q.depth (q.stream ++ t) = t := by
  unfold rule? at h
  rcases bind_eq_error.mp h with h | ⟨_, p₁, hnoise, h⟩
  · have hq := hp.passed hopening (plain_skipNoise.of_error h)
    rw [hq.skipRule_append hopening, hblock.skipRule_append]
  have hp₁ := hp.passed hopening (plain_skipNoise.of_ok hnoise)
  rcases bind_eq_error.mp h with h | ⟨k, p₂, hkind, h⟩
  · cases h
  cases hkind
  generalize p₁.stream.kind = k at h
  split at h
  · cases h
  · cases h
  · rcases bind_eq_error.mp h with h | ⟨r, p₂, -, h⟩
    · exact rule_eq_error hp₁ hopening hblock htemplates hopens h t
    · cases h

end Reader

end SlotGrid.Style
