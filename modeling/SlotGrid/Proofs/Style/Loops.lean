import SlotGrid.Proofs.Style.Inside

/-! # Loops that end

The readers repeat themselves only as long as the stream gets shorter. Without that condition they would end in the same
way: every iteration of a loop leaves it, or fewer characters are left to be scanned, or the item at the end of the text
has been passed. So the condition never stops a loop.
-/

namespace SlotGrid.Style

/-! ## What is left of a text -/

namespace Stream

/-- The number of characters behind the current item, and whether the text goes on with an item. -/
def remaining (size : ℕ) : Stream → ℕ ×ₗ Bool
  | [] => toLex (0, false)
  | i :: _ => toLex (size - (i.position + i.lexeme.length), true)

/-- Every item lies behind the items in front of it. -/
structure Placed (size : ℕ) (s : Stream) : Prop where
  apart : s.Pairwise fun i j => i.position + i.lexeme.length ≤ j.position ∧ j.lexeme ≠ []
  within : ∀ i ∈ s, i.position + i.lexeme.length ≤ size

/-- Some items have been passed. -/
def Passed (s t : Stream) : Prop := ∃ is, is ≠ [] ∧ s = is ++ t

theorem Passed.suffix {s t : Stream} (h : Passed s t) : t <:+ s := by
  obtain ⟨is, -, rfl⟩ := h
  exact List.suffix_append is t

theorem Passed.length_lt {s t : Stream} (h : Passed s t) : t.length < s.length := by
  obtain ⟨is, hne, rfl⟩ := h
  exact Reader.length_lt_of_ne_nil hne t

theorem Passed.trans_suffix {s t u : Stream} (h : Passed s t) (hu : u <:+ t) : Passed s u := by
  obtain ⟨is, hne, rfl⟩ := h
  obtain ⟨js, rfl⟩ := hu
  exact ⟨is ++ js, List.append_ne_nil_of_left_ne_nil hne js, (List.append_assoc is js u).symm⟩

theorem Passed.of_suffix {s t u : Stream} (hs : t <:+ s) (h : Passed t u) : Passed s u := by
  obtain ⟨is, rfl⟩ := hs
  obtain ⟨js, hne, rfl⟩ := h
  exact ⟨is ++ js, List.append_ne_nil_of_right_ne_nil is hne, (List.append_assoc is js u).symm⟩

theorem passed_of_length_lt {s t : Stream} (hs : t <:+ s) (h : t.length < s.length) : Passed s t := by
  obtain ⟨is, rfl⟩ := hs
  refine ⟨is, ?_, rfl⟩
  rintro rfl
  exact Nat.lt_irrefl _ h

theorem Placed.of_suffix {size : ℕ} {s t : Stream} (h : Placed size s) (hs : t <:+ s) : Placed size t :=
  ⟨h.apart.sublist hs.sublist, fun i hi => h.within i (hs.subset hi)⟩

/-- Where items are passed, there is less left. -/
theorem Placed.remaining_lt {size : ℕ} {s t : Stream} (h : Placed size s) (hs : Passed s t) :
    t.remaining size < s.remaining size := by
  obtain ⟨is, hne, rfl⟩ := hs
  obtain ⟨i, is, rfl⟩ := List.exists_cons_of_ne_nil hne
  rw [Prod.Lex.lt_iff]
  cases t with
  | nil =>
    -- the last token ends with the text, or what is behind it has been dropped as comments
    rcases Nat.eq_zero_or_pos (size - (i.position + i.lexeme.length)) with hzero | hpos
    · exact .inr ⟨hzero.symm, rfl⟩
    · exact .inl hpos
  | cons j t =>
    have hmem : j ∈ is ++ j :: t := List.mem_append_right is List.mem_cons_self
    obtain ⟨happart, hlexeme⟩ := (List.pairwise_cons.mp h.apart).1 j hmem
    have hwithin := h.within j (List.mem_cons_of_mem i hmem)
    have hpos := List.length_pos_iff.mpr hlexeme
    refine .inl ?_
    change size - (j.position + j.lexeme.length) < size - (i.position + i.lexeme.length)
    omega

theorem placed_items (c : Cursor) : Placed (c.position + c.rest.length) c.items ∧
    ∀ i ∈ c.items, c.position ≤ i.position ∧ i.lexeme ≠ [] := by
  fun_induction Cursor.items c with
  | case1 => exact ⟨⟨.nil, List.forall_mem_nil _⟩, List.forall_mem_nil _⟩
  | case2 c i d hnext ih =>
    obtain ⟨⟨happart, hwithin⟩, hbehind⟩ := ih
    obtain ⟨hne, hrest, hposition, hafter⟩ := Cursor.next?_splits hnext
    have hlength := congrArg List.length hrest
    rw [List.length_append] at hlength
    refine ⟨⟨List.pairwise_cons.mpr ⟨fun j hj => ?_, happart⟩, List.forall_mem_cons.mpr ⟨by omega, fun j hj => ?_⟩⟩,
      List.forall_mem_cons.mpr ⟨⟨hposition.ge, hne⟩, fun j hj => ?_⟩⟩
    · obtain ⟨hle, hlexeme⟩ := hbehind j hj
      exact ⟨by omega, hlexeme⟩
    · have := hwithin j hj
      omega
    · obtain ⟨hle, hlexeme⟩ := hbehind j hj
      exact ⟨by omega, hlexeme⟩

theorem placed_ofText (text : String) : Placed text.length (ofText text) := by
  obtain ⟨⟨happart, hwithin⟩, hbehind⟩ := placed_items (Cursor.start text)
  have hsize : (Cursor.start text).position + (Cursor.start text).rest.length = text.length := by
    rw [Cursor.start, Nat.zero_add, String.length_toList]
  rw [hsize] at hwithin
  refine ⟨List.pairwise_cons.mpr ⟨fun i hi => ?_, happart.filter _⟩, List.forall_mem_cons.mpr ⟨Nat.zero_le _, ?_⟩⟩
  · exact ⟨Nat.zero_le _, (hbehind i (List.mem_of_mem_filter hi)).2⟩
  · exact fun i hi => hwithin i (List.mem_of_mem_filter hi)

end Stream

/-! ## Loops -/

/-- A loop over the stream. An iteration goes on in another state, or it leaves the loop with a result. -/
structure Loop (σ ρ : Type) where
  stream : σ → Stream
  iterate : σ → σ ⊕ ρ
  /-- What the readers take for the result of the whole loop. -/
  run : σ → ρ

namespace Loop

variable {σ ρ α : Type}

/-- The iterations from a state on come to an end with a result, without any condition on the stream. -/
inductive Ends (L : Loop σ ρ) : σ → ρ → Prop
  | leave {s : σ} {r : ρ} (h : L.iterate s = .inr r) : Ends L s r
  | goOn {s s' : σ} {r : ρ} (h : L.iterate s = .inl s') (h' : Ends L s' r) : Ends L s r

/-- An iteration that goes on passes items of the stream, and the loop is what its iterations are. -/
structure Sound (L : Loop σ ρ) : Prop where
  passed : ∀ {s s'}, (∀ i ∈ L.stream s, i.kind ≠ .endOfInput) → L.iterate s = .inl s' →
    (L.stream s).Passed (L.stream s')
  run_eq : ∀ {s}, (∀ i ∈ L.stream s, i.kind ≠ .endOfInput) → L.run s = (L.iterate s).elim L.run id

theorem Sound.ends {L : Loop σ ρ} (h : L.Sound) {s : σ} (hs : ∀ i ∈ L.stream s, i.kind ≠ .endOfInput) :
    L.Ends s (L.run s) := by
  -- induction on the items that are left, of which every iteration that goes on passes some
  induction hn : (L.stream s).length using Nat.strong_induction_on generalizing s with
  | _ n ih =>
    have hrun := h.run_eq hs
    cases hiterate : L.iterate s with
    | inr r =>
      rw [hiterate] at hrun
      rw [hrun]
      exact .leave hiterate
    | inl s' =>
      have hpassed := h.passed hs hiterate
      rw [hiterate] at hrun
      rw [hrun]
      exact .goOn hiterate (ih _ (hn ▸ hpassed.length_lt) (fun i hi => hs i (hpassed.suffix.subset hi)) rfl)

/-- Over a text the loop comes to an end with its result, and every iteration that goes on leaves less of the text. -/
def EndsIn (text : String) (L : Loop σ ρ) : Prop :=
  ∀ s, L.stream s <:+ Stream.ofText text → L.Ends s (L.run s) ∧
    ∀ s', L.iterate s = .inl s' → L.stream s' <:+ L.stream s ∧
      (L.stream s').remaining text.length < (L.stream s).remaining text.length

theorem Sound.endsIn {L : Loop σ ρ} (h : L.Sound) (text : String) : L.EndsIn text := by
  intro s hs
  have hkinds : ∀ i ∈ L.stream s, i.kind ≠ .endOfInput := fun i hi =>
    kind_ne_endOfInput_of_mem_ofText (hs.subset hi)
  refine ⟨h.ends hkinds, fun s' hiterate => ?_⟩
  have hpassed := h.passed hkinds hiterate
  exact ⟨hpassed.suffix, ((Stream.placed_ofText text).of_suffix hs).remaining_lt hpassed⟩

/-! ### Loops of readers -/

/-- A reader whose results are collected until it has none. -/
def collecting (r : Reader (Option α)) : Loop (List α × Progress) (EStateM.Result SyntaxError Progress (List α)) where
  stream s := s.2.stream
  iterate s :=
    match r s.2 with
    | .ok (some a) q => .inl (s.1 ++ [a], q)
    | .ok none q => .inr (.ok s.1 q)
    | .error e q => .inr (.error e q)
  run s :=
    match Reader.collect r s.2 with
    | .ok as q => .ok (s.1 ++ as) q
    | .error e q => .error e q

/-- A reader that is repeated as long as it answers that it goes on. -/
def repeating (r : Reader Bool) : Loop Progress (EStateM.Result SyntaxError Progress Unit) where
  stream p := p.stream
  iterate p :=
    match r p with
    | .ok true q => .inl q
    | .ok false q => .inr (.ok () q)
    | .error e q => .inr (.error e q)
  run := Reader.loop r

theorem sound_collecting {r : Reader (Option α)}
    (h : ∀ {p q a}, r p = .ok (some a) q → p.stream.Passed q.stream) : (collecting r).Sound where
  passed := by
    rintro ⟨as, p⟩ s' - hiterate
    dsimp only [collecting] at hiterate ⊢
    split at hiterate <;> cases hiterate
    rename_i hr
    exact h hr
  run_eq := by
    rintro ⟨as, p⟩ -
    dsimp only [collecting]
    rw [Reader.collect]
    cases hr : r p with
    | error e q => rfl
    | ok o q =>
      cases o with
      | none => simp
      | some a =>
        simp only [(h hr).length_lt, if_true, Sum.elim_inl]
        cases Reader.collect r q <;> simp

theorem sound_repeating {r : Reader Bool} (h : ∀ {p q}, r p = .ok true q → p.stream.Passed q.stream) :
    (repeating r).Sound where
  passed := by
    intro p p' _ hiterate
    dsimp only [repeating] at hiterate ⊢
    split at hiterate <;> cases hiterate
    rename_i hr
    exact h hr
  run_eq := by
    intro p _
    dsimp only [repeating]
    rw [Reader.loop_eq]
    cases hr : r p with
    | error e q => rfl
    | ok b q =>
      cases b with
      | false => rfl
      | true => exact if_pos (h hr).length_lt

/-! ### Loops over what is dropped -/

/-- The rest of a rule, with the number of braces that are open. -/
def ruleRest : Loop (ℕ × Stream) Stream where
  stream s := s.2
  iterate
    | (_, []) => .inr []
    | (depth, i :: rest) =>
      match i.kind with
      | .punct .leftBrace => .inl (depth + 1, rest)
      | .punct .rightBrace => if depth ≤ 1 then .inr rest else .inl (depth - 1, rest)
      | _ => .inl (depth, rest)
  run s := s.2.skipRule s.1

/-- The rest of an at-rule, with the number of braces that are open. -/
def atRuleRest : Loop (ℕ × Stream) Stream where
  stream s := s.2
  iterate
    | (_, []) => .inr []
    | (depth, i :: rest) =>
      match i.kind with
      | .punct .semicolon => if depth = 0 then .inr rest else .inl (depth, rest)
      | .punct .leftBrace => .inl (depth + 1, rest)
      | .punct .rightBrace => if depth ≤ 1 then .inr rest else .inl (depth - 1, rest)
      | _ => .inl (depth, rest)
  run s := s.2.skipAtRule s.1

/-- The rest of a declaration. -/
def declarationRest : Loop Stream Stream where
  stream s := s
  iterate
    | [] => .inr []
    | i :: rest => if i.kind.endsDeclaration then .inr (i :: rest) else .inl rest
  run s := s.skipDeclaration

theorem passed_cons (i : Item) (s : Stream) : Stream.Passed (i :: s) s := ⟨[i], List.cons_ne_nil i [], rfl⟩

theorem sound_ruleRest : ruleRest.Sound where
  passed := by
    rintro ⟨depth, _ | ⟨i, s⟩⟩ s' - h
    · cases h
    · dsimp only [ruleRest] at h ⊢
      split at h <;> (try split_ifs at h) <;> cases h <;> exact passed_cons i s
  run_eq := by
    rintro ⟨depth, _ | ⟨i, s⟩⟩ -
    · rfl
    · dsimp only [ruleRest]
      rw [Stream.skipRule]
      generalize i.kind = k
      repeat' split
      all_goals first | contradiction | rfl

theorem sound_atRuleRest : atRuleRest.Sound where
  passed := by
    rintro ⟨depth, _ | ⟨i, s⟩⟩ s' - h
    · cases h
    · dsimp only [atRuleRest] at h ⊢
      split at h <;> (try split_ifs at h) <;> cases h <;> exact passed_cons i s
  run_eq := by
    rintro ⟨depth, _ | ⟨i, s⟩⟩ -
    · rfl
    · dsimp only [atRuleRest]
      rw [Stream.skipAtRule]
      generalize i.kind = k
      repeat' split
      all_goals first | contradiction | rfl

theorem sound_declarationRest : declarationRest.Sound where
  passed := by
    rintro (_ | ⟨i, s⟩) s' - h
    · cases h
    · dsimp only [declarationRest] at h ⊢
      split_ifs at h
      cases h
      exact passed_cons i s
  run_eq := by
    rintro (_ | ⟨i, s⟩) -
    · rfl
    · dsimp only [declarationRest]
      split_ifs with hi
      · exact List.dropWhile_cons_of_neg (by simpa using hi)
      · exact List.dropWhile_cons_of_pos (by simpa using hi)

/-! ### Sheets -/

/-- The rules of a sheet. The loop is left at the end of the text. -/
def sheet (registered : ℕ) : Loop Progress Progress where
  stream p := p.stream
  iterate p :=
    match Reader.skipNoise p.fresh with
    | .ok _ q => if q.stream.kind = .endOfInput then .inr q else .inl (p.step registered)
    | .error _ _ => .inl (p.step registered)
  run p := p.finish registered

theorem iterate_sheet (registered : ℕ) (p : Progress) :
    (sheet registered).iterate p = .inl (p.step registered) ∨
      ∃ q, Reader.skipNoise p.fresh = .ok () q ∧ q.stream.kind = .endOfInput ∧
        (sheet registered).iterate p = .inr q := by
  dsimp only [sheet]
  cases hnoise : Reader.skipNoise p.fresh with
  | error e q => exact .inl rfl
  | ok a q =>
    simp only
    split_ifs with hk
    · exact .inr ⟨q, rfl, hk, rfl⟩
    · exact .inl rfl

theorem finish_of_noise {registered : ℕ} {p q : Progress} (hnoise : Reader.skipNoise p.fresh = .ok () q)
    (hk : q.stream.kind = .endOfInput) : p.finish registered = q := by
  have hstep : p.step registered = q :=
    Progress.step_of_none (Reader.rule?_eq_none_iff.mpr ⟨q, hnoise, .inl ⟨hk, rfl⟩⟩)
  have hfresh : q.fresh = q := by
    rw [Reader.skipNoise_eq_ok hnoise]
    rfl
  have hagain : q.step registered = q := (Progress.step_of_none (Reader.rule?_of_ends hk)).trans hfresh
  by_cases hlt : (p.step registered).stream.length < p.stream.length
  · rw [Progress.finish_of_lt hlt, hstep, Progress.finish_of_not_lt (by rw [hagain]; exact Nat.lt_irrefl _), hagain]
  · rw [Progress.finish_of_not_lt hlt, hstep]

/-- An iteration that goes on does not start at the end of the text. -/
theorem ne_nil_of_iterate_sheet {registered : ℕ} {p q : Progress} (h : (sheet registered).iterate p = .inl q) :
    p.stream ≠ [] := by
  intro hnil
  have hk : p.fresh.stream.kind = .endOfInput := by
    change p.stream.kind = _
    rw [hnil]
    rfl
  have hnoise : Reader.skipNoise p.fresh = .ok () p.fresh := Reader.skipNoise_of_not_noise (by rw [hk]; rfl)
  dsimp only [sheet] at h
  rw [hnoise] at h
  simp only [hk, if_true] at h
  cases h

theorem passed_of_iterate_sheet {registered : ℕ} {p q : Progress} (hkinds : ∀ i ∈ p.stream, i.kind ≠ .endOfInput)
    (h : (sheet registered).iterate p = .inl q) : p.stream.Passed q.stream := by
  have hne := ne_nil_of_iterate_sheet h
  rcases iterate_sheet registered p with hstep | ⟨r, -, -, hleave⟩
  swap
  · rw [hleave] at h
    cases h
  rw [hstep] at h
  cases h
  have hsuffix : (p.step registered).stream <:+ p.stream := Progress.keeps_step (R := Progress.Further) registered p
  refine Stream.passed_of_length_lt hsuffix ?_
  rcases Progress.step_shrinks_or_ends p with hlt | hk
  · exact hlt
  · cases hs : (p.step registered).stream with
    | nil => exact List.length_pos_iff.mpr hne
    | cons i s =>
      rw [hs] at hk hsuffix
      exact absurd hk (hkinds i (hsuffix.subset List.mem_cons_self))

theorem sound_sheet (registered : ℕ) : (sheet registered).Sound where
  passed := passed_of_iterate_sheet
  run_eq := by
    intro p hkinds
    rcases iterate_sheet registered p with hstep | ⟨q, hnoise, hk, hleave⟩
    · rw [hstep]
      exact Progress.finish_of_lt (passed_of_iterate_sheet hkinds hstep).length_lt
    · rw [hleave]
      exact finish_of_noise hnoise hk

end Loop

/-! ## What readers repeat -/

namespace Reader

def space? : Reader (Option Unit) := do
  if (← kind) = .space then advance; return some () else return none

def noise : Reader Bool := do
  match ← kind with
  | .space | .commentOpen | .commentClose => advance; return true
  | _ => return false

def term? : Reader (Option Unit) := do
  if ← isTerm then
    writeChars (← lexeme)
    advance
    discard skipSpace
    return some ()
  else return none

def part? : Reader (Option Unit) := do
  if (← kind) = .negation then negation; return some ()
  else if ← qualifier then return some ()
  else return none

/-- A combinator and the compound behind it, unless the selector ends. -/
def nextCompound : Reader Bool := do
  let spaced ← skipSpace
  if (← kind).isCombinator then
    write " "
    writeChars (← lexeme)
    write " "
    advance
    discard skipSpace
    compound
    return true
  else if spaced && (← startsCompound) then
    write " "
    compound
    return true
  else return false

/-- A comma and the selector behind it. -/
def nextSelector : Reader Bool := do
  if (← kind) = .punct .comma then
    advance
    discard skipSpace
    write ", "
    selector
    return true
  else return false

/-- The readers that repeat something. -/
structure Repeats (registered : ℕ) : Prop where
  skipSpace : Reader.skipSpace = do return !(← collect space?).isEmpty
  skipNoise : Reader.skipNoise = loop noise
  expression : Reader.expression = do if (← collect term?).isEmpty then unexpected "expression"
  compound : Reader.compound = do
    let typed ← typeOrUniversal
    let parts ← collect part?
    if !typed && parts.isEmpty then unexpected "selector"
  selector : Reader.selector = do Reader.compound; loop nextCompound
  selectors : Reader.selectors = do Reader.selector; loop nextSelector
  value : Reader.value = do
    let items := (← get).stream.declarationItems
    loop valueItem
    return items
  rule : Reader.rule registered = do
    Reader.selectors
    expect (.punct .leftBrace) "'\x7b'"
    modify ({ · with depth := 1 })
    loop (blockItem registered)
    return ⟨(← get).selector, (← get).declarations⟩
  templateDefinition : Reader.templateDefinition = return (← collect row?, ← collect columnWidth?)

theorem repeats (registered : ℕ) : Repeats registered := ⟨rfl, rfl, rfl, rfl, rfl, rfl, rfl, rfl, rfl⟩

variable {registered : ℕ} {p q : Progress} {a : Unit}

theorem passed_of_advance (h : advance p = .ok a q) (hk : p.stream.kind ≠ .endOfInput) : p.stream.Passed q.stream := by
  obtain ⟨i, -, hreads⟩ := reads_advance h rfl hk
  exact ⟨[i], List.cons_ne_nil i [], hreads.stream⟩

theorem passed_of_space? (h : space? p = .ok (some a) q) : p.stream.Passed q.stream := by
  unfold space? at h
  rw [bind_kind] at h
  split_ifs at h with hk
  · obtain ⟨_, p₁, hadvance, h⟩ := bind_eq_ok.mp h
    cases h
    exact passed_of_advance hadvance (by rw [hk]; nofun)
  · cases h

theorem passed_of_noise (h : noise p = .ok true q) : p.stream.Passed q.stream := by
  unfold noise at h
  rw [bind_kind] at h
  generalize hk : p.stream.kind = k at h
  split at h
  case h_4 => cases h
  all_goals
    obtain ⟨_, p₁, hadvance, h⟩ := bind_eq_ok.mp h
    cases h
    exact passed_of_advance hadvance (by rw [hk]; nofun)

theorem passed_of_term? (h : term? p = .ok (some a) q) : p.stream.Passed q.stream := by
  rcases reads_term h with ⟨-, i, s, -, -, hreads⟩ | ⟨hnone, -⟩
  · exact ⟨i :: s, List.cons_ne_nil i s, hreads.stream⟩
  · cases hnone

theorem passed_of_part? (h : part? p = .ok (some a) q) : p.stream.Passed q.stream := by
  rcases reads_part h with ⟨-, x, is, hx, hreads⟩ | ⟨hnone, -⟩
  · exact ⟨is, ne_nil_of_part hx, hreads.stream⟩
  · cases hnone

theorem passed_of_compound (h : compound p = .ok a q) : p.stream.Passed q.stream := by
  obtain ⟨c, is, hc, hreads⟩ := reads_compound h
  exact ⟨is, ne_nil_of_compound hc, hreads.stream⟩

theorem suffix_of_discard_skipSpace (h : discard skipSpace p = .ok a q) : q.stream <:+ p.stream :=
  ((plain_discard plain_skipSpace).of_ok (R := Progress.Onward) h).stream

/-- A combinator may be nothing but spaces, but a compound has parts. -/
theorem passed_of_nextCompound (h : nextCompound p = .ok true q) : p.stream.Passed q.stream := by
  unfold nextCompound at h
  obtain ⟨spaced, p₁, hskip, h⟩ := bind_eq_ok.mp h
  have hsuffix : p₁.stream <:+ p.stream := (plain_skipSpace.of_ok (R := Progress.Onward) hskip).stream
  refine .of_suffix hsuffix ?_
  rw [bind_kind] at h
  split_ifs at h
  · rw [bind_write, bind_lexeme, writeChars, bind_write, bind_write] at h
    obtain ⟨_, p₂, hadvance, h⟩ := bind_eq_ok.mp h
    obtain ⟨_, p₃, hskip', h⟩ := bind_eq_ok.mp h
    obtain ⟨_, p₄, hcompound, h⟩ := bind_eq_ok.mp h
    cases h
    have htail : p₂.stream <:+ p₁.stream := by
      rw [(advance_eq_ok.mp hadvance).1]
      exact List.tail_suffix p₁.stream
    exact .of_suffix ((suffix_of_discard_skipSpace hskip').trans htail) (passed_of_compound hcompound)
  · obtain ⟨starts, hstarts⟩ := bind_startsCompound
      (fun starts => if (spaced && starts) = true then
        (write " " >>= fun _ => compound >>= fun _ => pure true) else pure false) p₁
    rw [hstarts] at h
    split_ifs at h
    · rw [bind_write] at h
      obtain ⟨_, p₂, hcompound, h⟩ := bind_eq_ok.mp h
      cases h
      exact (passed_of_compound hcompound :)
    · cases h

theorem passed_of_nextSelector (h : nextSelector p = .ok true q) : p.stream.Passed q.stream := by
  unfold nextSelector at h
  rw [bind_kind] at h
  split_ifs at h with hk
  · obtain ⟨_, p₁, hadvance, h⟩ := bind_eq_ok.mp h
    obtain ⟨_, p₂, hskip, h⟩ := bind_eq_ok.mp h
    rw [bind_write] at h
    obtain ⟨_, p₃, hselector, h⟩ := bind_eq_ok.mp h
    cases h
    have hsuffix : q.stream <:+ p₂.stream := (plain_selector.of_ok (R := Progress.Onward) hselector).stream
    have hpassed := passed_of_advance hadvance (by rw [hk]; nofun)
    exact hpassed.trans_suffix (hsuffix.trans (suffix_of_discard_skipSpace hskip))
  · cases h

theorem passed_of_valueItem (h : valueItem p = .ok true q) : p.stream.Passed q.stream := by
  obtain ⟨-, i, hs, -⟩ := (valueItem_eq_ok h).resolve_left nofun
  exact ⟨[i], List.cons_ne_nil i [], hs⟩

theorem passed_of_blockItem (h : blockItem registered p = .ok true q) : p.stream.Passed q.stream :=
  Stream.passed_of_length_lt (within_blockItem.of_ok (R := Progress.Onward) h).stream (length_lt_of_blockItem h)

theorem passed_of_row? {row : Row} (h : row? p = .ok (some row) q) : p.stream.Passed q.stream := by
  obtain ⟨r, ks, -, hr, hkinds, -⟩ := (row?_eq_ok h).resolve_left nofun
  have hsuffix : q.stream <:+ p.stream := (plain_row?.of_ok (R := Progress.Onward) h).stream
  exact Stream.passed_of_length_lt hsuffix (length_lt_of_kinds hsuffix hkinds hr.ne_nil)

theorem passed_of_columnWidth? {width : Width} (h : columnWidth? p = .ok (some width) q) :
    p.stream.Passed q.stream := by
  obtain ⟨w, ks, -, hw, hkinds, -⟩ := (columnWidth?_eq_ok h).resolve_left nofun
  have hsuffix : q.stream <:+ p.stream := (plain_columnWidth?.of_ok (R := Progress.Onward) h).stream
  exact Stream.passed_of_length_lt hsuffix (length_lt_of_kinds hsuffix hkinds hw.ne_nil)

end Reader

/-! ## The end of a text -/

open Reader Loop

/-- The loops over a text, and the scan of it: all of them leave less of the text. -/
structure LoopsEnd (registered : ℕ) (text : String) : Prop where
  scan : ∀ {c d : Cursor} {i : Item}, c.next? = some (i, d) → d.rest.length < c.rest.length
  /-- Also an address that is not closed is passed. -/
  advance : ∀ {p : Progress}, p.stream <:+ Stream.ofText text → p.stream.kind ≠ .endOfInput →
    (after advance p).stream.remaining text.length < p.stream.remaining text.length
  spaces : (collecting space?).EndsIn text
  noise : (repeating noise).EndsIn text
  terms : (collecting term?).EndsIn text
  parts : (collecting part?).EndsIn text
  compounds : (repeating nextCompound).EndsIn text
  selectors : (repeating nextSelector).EndsIn text
  valueItems : (repeating valueItem).EndsIn text
  blockItems : (repeating (blockItem registered)).EndsIn text
  rows : (collecting row?).EndsIn text
  widths : (collecting columnWidth?).EndsIn text
  declarationRest : declarationRest.EndsIn text
  ruleRest : ruleRest.EndsIn text
  atRuleRest : atRuleRest.EndsIn text
  sheet : (sheet registered).EndsIn text

theorem remaining_after_advance_lt {text : String} {p : Progress} (hp : p.stream <:+ Stream.ofText text)
    (hk : p.stream.kind ≠ .endOfInput) :
    (after advance p).stream.remaining text.length < p.stream.remaining text.length := by
  have hplaced := (Stream.placed_ofText text).of_suffix hp
  rw [after_advance]
  cases hs : p.stream with
  | nil => exact absurd (by rw [hs]; rfl) hk
  | cons i s =>
    rw [hs] at hplaced
    exact hplaced.remaining_lt (passed_cons i s)

/-- Reading a text ends: its loops come to an end with the results that the readers have. -/
theorem loops_end_in_text (registered : ℕ) (text : String) :
    Repeats registered ∧ LoopsEnd registered text ∧
      ∃ p, (sheet registered).Ends (.start (.ofText text)) p ∧ p.parsed = parse registered text := by
  refine ⟨repeats registered, ?_, _, ((sound_sheet registered).endsIn text _ List.suffix_rfl).1, rfl⟩
  exact {
    scan := Cursor.length_lt_of_next?
    advance := remaining_after_advance_lt
    spaces := (sound_collecting passed_of_space?).endsIn text
    noise := (sound_repeating passed_of_noise).endsIn text
    terms := (sound_collecting passed_of_term?).endsIn text
    parts := (sound_collecting passed_of_part?).endsIn text
    compounds := (sound_repeating passed_of_nextCompound).endsIn text
    selectors := (sound_repeating passed_of_nextSelector).endsIn text
    valueItems := (sound_repeating passed_of_valueItem).endsIn text
    blockItems := (sound_repeating passed_of_blockItem).endsIn text
    rows := (sound_collecting passed_of_row?).endsIn text
    widths := (sound_collecting passed_of_columnWidth?).endsIn text
    declarationRest := sound_declarationRest.endsIn text
    ruleRest := sound_ruleRest.endsIn text
    atRuleRest := sound_atRuleRest.endsIn text
    sheet := (sound_sheet registered).endsIn text }

end SlotGrid.Style
