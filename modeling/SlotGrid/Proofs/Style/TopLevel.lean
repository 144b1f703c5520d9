import SlotGrid.Proofs.Style.Alike
import SlotGrid.Proofs.Style.Spelling
import SlotGrid.Proofs.Style.Starts

/-! # Steps that end in the text

A step can be ended by the text that it reads: a rule by its brace, an at-rule by its semicolon or its block, and the
rest of a rule that is dropped by the brace that closes the rule. Or it goes on to the end of the text, and would go
on with more text. What all steps have in common that are ended by the text is that they pass some item last which
stays the last one in front of other items.
-/

namespace SlotGrid.Style

namespace Stream

/-- Whether the brace is there that closes a rule of which `depth` braces are open. -/
def closesRule : ℕ → Stream → Bool
  | _, [] => false
  | depth, i :: rest =>
    match i.kind with
    | .punct .leftBrace => closesRule (depth + 1) rest
    | .punct .rightBrace => if depth ≤ 1 then true else closesRule (depth - 1) rest
    | _ => closesRule depth rest

/-- Whether the semicolon or the brace is there that ends an at-rule. -/
def closesAtRule : ℕ → Stream → Bool
  | _, [] => false
  | depth, i :: rest =>
    match i.kind with
    | .punct .semicolon => if depth = 0 then true else closesAtRule depth rest
    | .punct .leftBrace => closesAtRule (depth + 1) rest
    | .punct .rightBrace => if depth ≤ 1 then true else closesAtRule (depth - 1) rest
    | _ => closesAtRule depth rest

variable {s : Stream} {depth : ℕ}

/-- The brace that closes a rule closes it in every alike stream. -/
theorem exists_of_closesRule (h : s.closesRule depth = true) :
    ∃ is brace, brace.kind = .punct .rightBrace ∧ s = is ++ brace :: s.skipRule depth ∧
      ∀ js j t, Alike is js → j.kind = .punct .rightBrace → skipRule depth (js ++ j :: t) = t := by
  induction s generalizing depth with
  | nil => cases h
  | cons i s ih =>
    have hlater : ∀ depth', skipRule depth (i :: s) = skipRule depth' s →
        (∀ j t, i.kind = j.kind → skipRule depth (j :: t) = skipRule depth' t) → closesRule depth' s = true →
        ∃ is brace, brace.kind = .punct .rightBrace ∧ i :: s = is ++ brace :: skipRule depth (i :: s) ∧
          ∀ js j t, Alike is js → j.kind = .punct .rightBrace → skipRule depth (js ++ j :: t) = t := by
      intro depth' hskip halike hs
      obtain ⟨is, brace, hbrace, hs, hcloses⟩ := ih hs
      refine ⟨i :: is, brace, hbrace, by rw [hskip, List.cons_append, ← hs], ?_⟩
      rintro _ j t (_ | @⟨_, k, _, js, hik, hjs⟩) hj
      rw [List.cons_append, halike k _ (Item.kind_eq_of_unplaced hik)]
      exact hcloses js j t hjs hj
    unfold closesRule at h
    split at h
    · rename_i hk
      refine hlater (depth + 1) (by rw [skipRule, hk]) (fun j t hj => ?_) h
      rw [skipRule, ← hj, hk]
    · rename_i hk
      split_ifs at h with hdepth
      · refine ⟨[], i, hk, by rw [skipRule, hk]; simp [hdepth], ?_⟩
        rintro _ j t ⟨⟩ hj
        rw [List.nil_append, skipRule, hj]
        exact if_pos hdepth
      · refine hlater (depth - 1) (by rw [skipRule, hk]; simp [hdepth]) (fun j t hj => ?_) h
        rw [skipRule, ← hj, hk]
        exact if_neg hdepth
    · rename_i hleft hright
      have hread : ∀ j t, i.kind = j.kind → skipRule depth (j :: t) = skipRule depth t := by
        intro j t hj
        rw [skipRule]
        split
        · rename_i hk
          exact absurd (hj.trans hk) hleft
        · rename_i hk
          exact absurd (hj.trans hk) hright
        · rfl
      exact hlater depth (hread i s rfl) hread h

/-- The item that ends an at-rule ends it whatever stands behind it. -/
theorem exists_of_closesAtRule (h : s.closesAtRule depth = true) :
    ∃ is last, (last.kind = .punct .rightBrace ∨ last.kind = .punct .semicolon) ∧
      s = is ++ last :: s.skipAtRule depth ∧ ∀ t, skipAtRule depth (is ++ last :: t) = t := by
  induction s generalizing depth with
  | nil => cases h
  | cons i s ih =>
    have hlater : ∀ depth', (∀ t, skipAtRule depth (i :: t) = skipAtRule depth' t) → closesAtRule depth' s = true →
        ∃ is last, (last.kind = .punct .rightBrace ∨ last.kind = .punct .semicolon) ∧
          i :: s = is ++ last :: skipAtRule depth (i :: s) ∧ ∀ t, skipAtRule depth (is ++ last :: t) = t := by
      intro depth' hskip hs
      obtain ⟨is, last, hlast, hs, hcloses⟩ := ih hs
      refine ⟨i :: is, last, hlast, by rw [hskip, List.cons_append, ← hs], fun t => ?_⟩
      rw [List.cons_append, hskip, hcloses]
    unfold closesAtRule at h
    split at h
    · rename_i hk
      split_ifs at h with hdepth
      · have hskip : ∀ t, skipAtRule depth (i :: t) = t := by
          intro t
          rw [skipAtRule, hk]
          exact if_pos hdepth
        exact ⟨[], i, .inr hk, by rw [hskip, List.nil_append], hskip⟩
      · refine hlater depth (fun t => ?_) h
        rw [skipAtRule, hk]
        exact if_neg hdepth
    · rename_i hk
      exact hlater (depth + 1) (fun t => by rw [skipAtRule, hk]) h
    · rename_i hk
      split_ifs at h with hdepth
      · have hskip : ∀ t, skipAtRule depth (i :: t) = t := by
          intro t
          rw [skipAtRule, hk]
          exact if_pos hdepth
        exact ⟨[], i, .inl hk, by rw [hskip, List.nil_append], hskip⟩
      · refine hlater (depth - 1) (fun t => ?_) h
        rw [skipAtRule, hk]
        exact if_neg hdepth
    · rename_i hsemicolon hleft hright
      refine hlater depth (fun t => ?_) h
      rw [skipAtRule]
      split
      all_goals first | rfl | contradiction

end Stream

namespace Item

/-- Whether the item is passed between rules. -/
def isNoise (i : Item) : Bool := i.kind.isNoise

theorem isNoise_eq_false {i : Item} (h : i.kind = .punct .rightBrace ∨ i.kind = .punct .semicolon) :
    i.isNoise = false := by
  unfold isNoise
  rcases h with hk | hk
  all_goals
    rw [hk]
    rfl

end Item

namespace Reader

variable {registered : ℕ} {p q : Progress}

theorem bind_congr {α β : Type} {r r' : Reader α} {f : α → Reader β} (h : r p = r' q) :
    (r >>= f) p = (r' >>= f) q := by
  change EStateM.bind r f p = EStateM.bind r' f q
  unfold EStateM.bind
  rw [h]

/-- What stands between rules is passed up to the first item of another kind. -/
theorem skipNoise_eq_ok (h : skipNoise p = .ok () q) :
    q = { p with stream := p.stream.dropWhile Item.isNoise } := by
  induction hs : p.stream generalizing p with
  | nil =>
    rw [skipNoise_of_not_noise (by rw [hs]; rfl)] at h
    cases h
    rw [List.dropWhile_nil, ← hs]
  | cons i s ih =>
    have hkind : p.stream.kind = i.kind := by rw [hs]; rfl
    by_cases hi : i.isNoise = true
    · rw [skipNoise_of_noise (hkind ▸ hi)] at h
      obtain ⟨_, p', hadvance, h⟩ := bind_eq_ok.mp h
      obtain ⟨rfl, -⟩ := advance_eq_ok.mp hadvance
      rw [ih h (by rw [hs]; rfl), List.dropWhile_cons_of_pos hi]
    · rw [skipNoise_of_not_noise (hkind ▸ Bool.eq_false_iff.mpr hi)] at h
      cases h
      rw [List.dropWhile_cons_of_neg hi, ← hs]

/-- What stands between rules is passed in the same way in front of another stream. -/
theorem skipNoise_append {x u v : Stream} (h : skipNoise { p with stream := x ++ u } = .ok () q)
    (hv : v.opensAddress = false) (p' : Progress) :
    skipNoise { p' with stream := x ++ v } = match x.dropWhile Item.isNoise with
      | [] => skipNoise { p' with stream := v }
      | i :: z => .ok () { p' with stream := i :: z ++ v } := by
  induction x with
  | nil => rfl
  | cons i x ih =>
    by_cases hi : i.isNoise = true
    · have hnoise : ∀ (p : Progress) (s : Stream), skipNoise { p with stream := i :: s } =
          (advance >>= fun _ => skipNoise) { p with stream := i :: s } :=
        fun p s => skipNoise_of_noise (p := { p with stream := i :: s }) hi
      rw [List.cons_append, hnoise] at h
      obtain ⟨_, p₁, hadvance, h⟩ := bind_eq_ok.mp h
      obtain ⟨rfl, hopens⟩ := advance_eq_ok.mp hadvance
      have hadvance' : advance { p' with stream := i :: x ++ v } = .ok () { p' with stream := x ++ v } := by
        refine advance_eq_ok.mpr ⟨rfl, ?_⟩
        cases x with
        | nil => exact hv
        | cons j x => cases j <;> exact hopens
      rw [List.cons_append, hnoise, ← List.cons_append, bind_of_ok hadvance', ih h, List.dropWhile_cons_of_pos hi]
    · rw [List.dropWhile_cons_of_neg hi]
      exact skipNoise_of_not_noise (p := { p' with stream := i :: x ++ v }) (Bool.eq_false_iff.mpr hi)

/-- No rule is read at the end of the text, or where an at-rule is skipped. -/
theorem rule?_eq_none_iff : rule? registered p = .ok none q ↔ ∃ p', skipNoise p = .ok () p' ∧
    (p'.stream.kind = .endOfInput ∧ q = p' ∨
      ∃ name, p'.stream.kind = .atKeyword name ∧ q = { p' with stream := p'.stream.skipAtRule 0 }) := by
  constructor
  · intro h
    unfold rule? at h
    obtain ⟨_, p', hnoise, h⟩ := bind_eq_ok.mp h
    obtain ⟨k, p₂, hkind, h⟩ := bind_eq_ok.mp h
    cases hkind
    refine ⟨p', hnoise, ?_⟩
    generalize p'.stream.kind = k at h
    split at h
    · cases h
      exact .inl ⟨rfl, rfl⟩
    · rename_i name
      cases h
      exact .inr ⟨name, rfl, rfl⟩
    · obtain ⟨r, p₂, -, h⟩ := bind_eq_ok.mp h
      cases h
  · rintro ⟨p', hnoise, hq⟩
    unfold rule?
    rw [bind_of_ok hnoise, bind_of_ok (r := kind) (a := p'.stream.kind) rfl]
    rcases hq with ⟨hk, rfl⟩ | ⟨name, hk, rfl⟩
    all_goals
      rw [hk]
      rfl

/-- An at-rule that ends in the text is skipped up to its end. -/
theorem rule?_eq_none_of_closes (h : rule? registered p = .ok none q)
    (hcloses : Stream.closesAtRule 0 (p.stream.dropWhile Item.isNoise) = true)
    (hkinds : ∀ i ∈ p.stream, i.kind ≠ .endOfInput) :
    ∃ name, Stream.kind (p.stream.dropWhile Item.isNoise) = .atKeyword name ∧
      q = { p with stream := Stream.skipAtRule 0 (p.stream.dropWhile Item.isNoise) } := by
  obtain ⟨p', hnoise, hq⟩ := rule?_eq_none_iff.mp h
  obtain rfl := skipNoise_eq_ok hnoise
  rcases hq with ⟨hk, -⟩ | ⟨name, hk, rfl⟩
  · refine absurd hk ?_
    change Stream.kind (p.stream.dropWhile Item.isNoise) ≠ _
    cases hs : p.stream.dropWhile Item.isNoise with
    | nil =>
      rw [hs] at hcloses
      cases hcloses
    | cons i s =>
      refine hkinds i ((List.dropWhile_suffix Item.isNoise).subset ?_)
      rw [hs]
      exact List.mem_cons_self
  · exact ⟨name, hk, rfl⟩

end Reader

namespace Progress

variable {registered : ℕ} {p : Progress}

/-- What a step reads ends in the text, not with the end of the text. -/
def Ends (registered : ℕ) (p : Progress) : Prop :=
  match Reader.rule? registered p.fresh with
  | .ok (some _) q => ∃ is brace, brace.kind = .punct .rightBrace ∧ p.stream = is ++ brace :: q.stream
  | .ok none _ =>
    p.stream.dropWhile Item.isNoise = [] ∨ Stream.closesAtRule 0 (p.stream.dropWhile Item.isNoise) = true
  | .error _ q => q.stream.closesRule q.depth = true

/-- The step passes a brace or a semicolon last. -/
def Passes (registered : ℕ) (p : Progress) : Prop :=
  ∃ is last, (last.kind = .punct .rightBrace ∨ last.kind = .punct .semicolon) ∧
    p.stream = is ++ last :: (p.step registered).stream

theorem Passes.length_lt (h : p.Passes registered) : (p.step registered).stream.length < p.stream.length := by
  obtain ⟨is, last, -, hs⟩ := h
  rw [hs, List.length_append, List.length_cons]
  omega

theorem Passes.dropWhile_ne_nil (h : p.Passes registered) : p.stream.dropWhile Item.isNoise ≠ [] := by
  obtain ⟨is, last, hlast, hs⟩ := h
  intro hnil
  have hnoise := List.dropWhile_eq_nil_iff.mp hnil last (by rw [hs]; simp)
  rw [Item.isNoise_eq_false hlast] at hnoise
  cases hnoise

theorem suffix_of_error {e : SyntaxError} {q : Progress} (h : Reader.rule? registered p.fresh = .error e q) :
    q.stream <:+ p.stream := (Reader.within_rule?.of_error (R := Onward) h).stream

/-- A step that ends in the text passes what stands between rules to the end of the text, or passes a brace or a
semicolon last. -/
theorem Ends.passes (h : p.Ends registered) (hkinds : ∀ i ∈ p.stream, i.kind ≠ .endOfInput) :
    (p.stream.dropWhile Item.isNoise = [] ∧ ∃ q, Reader.rule? registered p.fresh = .ok none q) ∨
      p.Passes registered := by
  unfold Ends at h
  cases hrule : Reader.rule? registered p.fresh with
  | error e q =>
    rw [hrule] at h
    obtain ⟨is, brace, hbrace, hs, -⟩ := Stream.exists_of_closesRule h
    obtain ⟨before, hbefore⟩ := suffix_of_error hrule
    refine .inr ⟨before ++ is, brace, .inl hbrace, ?_⟩
    rw [step_of_error hrule, ← hbefore, List.append_assoc]
    exact congrArg (before ++ ·) hs
  | ok r q =>
    rw [hrule] at h
    cases r with
    | some r =>
      obtain ⟨is, brace, hbrace, hs⟩ := h
      refine .inr ⟨is, brace, .inl hbrace, ?_⟩
      rw [step_of_rule hrule]
      exact hs
    | none =>
      rcases h with hnil | hcloses
      · exact .inl ⟨hnil, q, rfl⟩
      · obtain ⟨name, -, rfl⟩ := Reader.rule?_eq_none_of_closes hrule hcloses hkinds
        obtain ⟨is, last, hlast, hs, -⟩ := Stream.exists_of_closesAtRule hcloses
        refine .inr ⟨p.stream.takeWhile Item.isNoise ++ is, last, hlast, ?_⟩
        rw [step_of_none hrule, List.append_assoc]
        exact List.takeWhile_append_dropWhile.symm.trans (congrArg (_ ++ ·) hs)

/-- Where only noise is left it is passed. -/
theorem step_of_noise {q : Progress} (hrule : Reader.rule? registered p.fresh = .ok none q)
    (hnoise : p.stream.dropWhile Item.isNoise = []) : p.step registered = { p.fresh with stream := [] } := by
  obtain ⟨p', hskip, hq⟩ := Reader.rule?_eq_none_iff.mp hrule
  obtain rfl := Reader.skipNoise_eq_ok hskip
  rw [step_of_none hrule]
  simp only [show p.fresh.stream.dropWhile Item.isNoise = [] from hnoise] at hq
  rcases hq with ⟨-, rfl⟩ | ⟨name, hk, -⟩
  · rfl
  · cases hk

/-- Nothing is found there. -/
theorem parsed_finish_of_noise {q : Progress} (hrule : Reader.rule? registered p.fresh = .ok none q)
    (hnoise : p.stream.dropWhile Item.isNoise = []) : (p.finish registered).parsed = p.parsed := by
  rw [← parsed_finish_step, step_of_noise hrule hnoise, parsed_finish_of_ends rfl]
  rfl

/-- Where all steps end in the text, the last item is passed between rules or ends a rule or an at-rule. -/
theorem kind_of_last {s : Stream} {last : Item} (hs : p.stream = s ++ [last])
    (hends : ∀ q ∈ p.starts registered, q.Ends registered) (hkinds : ∀ i ∈ p.stream, i.kind ≠ .endOfInput) :
    last.isNoise = true ∨ last.kind = .punct .rightBrace ∨ last.kind = .punct .semicolon := by
  induction p using induction_step registered generalizing s with
  | step p ih =>
    rcases (hends p (self_mem_starts registered p)).passes hkinds with ⟨hnoise, -⟩ | hpasses
    · have hall := List.dropWhile_eq_nil_iff.mp hnoise
      exact .inl (hall last (by rw [hs]; simp))
    · have hlt := hpasses.length_lt
      obtain ⟨is, i, hi, hstream⟩ := hpasses
      rcases List.eq_nil_or_concat (p.step registered).stream with hnil | ⟨t, j, ht⟩
      · rw [hnil, hs] at hstream
        obtain rfl := List.singleton_inj.mp (List.append_inj' hstream rfl).2
        exact .inr hi
      · rw [List.concat_eq_append] at ht
        have hlast : j = last := by
          rw [ht, hs, ← List.cons_append, ← List.append_assoc] at hstream
          exact (List.singleton_inj.mp (List.append_inj' hstream rfl).2).symm
        refine ih hlt (hlast ▸ ht) (fun q hq => hends q ?_) fun k hk => hkinds k ?_
        · exact starts_of_lt hlt ▸ List.mem_cons_of_mem p hq
        · rw [hstream]
          exact List.mem_append_right is (List.mem_cons_of_mem i hk)

end Progress

/-- A text whose rules, at-rules and comments all end in it, as well as what is skipped behind an error, and that is
not ended in an address that is not closed. -/
structure EndsAtTop (registered : ℕ) (text : String) : Prop where
  steps : ∀ p ∈ (Progress.start (.ofText text)).starts registered, p.Ends registered
  comments : ∀ i ∈ (Cursor.start text).items, i.isComment = true → ∃ x, i.lexeme = ['/', '*'] ++ x ++ ['*', '/']
  address : ∀ is lexeme n, (Cursor.start text).items ≠ is ++ [.openAddress lexeme n]

/-- Only the reader says that a text is at its end. -/
theorem kind_ne_endOfInput_of_mem_items {c : Cursor} {i : Item} (hi : i ∈ c.items) : i.kind ≠ .endOfInput := by
  fun_induction Cursor.items c with
  | case1 => exact absurd hi List.not_mem_nil
  | case2 c j d hnext ih =>
    rcases List.mem_cons.mp hi with rfl | hi
    · intro hk
      unfold Cursor.next? at hnext
      split at hnext
      · cases hnext
      · cases hnext
        exact kind?_ne_endOfInput _ _ (Item.ofScan_of_kind hk (by decide))
    · exact ih hi

theorem kind_ne_endOfInput_of_mem_ofText {text : String} {i : Item} (hi : i ∈ Stream.ofText text) :
    i.kind ≠ .endOfInput := by
  rcases List.mem_cons.mp hi with rfl | hi
  · nofun
  · exact kind_ne_endOfInput_of_mem_items (List.mem_of_mem_filter hi)

/-- The last item of the text is not changed by a line feed behind it, unless it is a space that runs on. -/
theorem EndsAtTop.last {registered : ℕ} {text : String} (h : EndsAtTop registered text) {is : List Item} {i : Item}
    (hitems : (Cursor.start text).items = is ++ [i]) : i.Ends ∨ ∃ t, i = .token t ∧ t.kind = .space := by
  by_cases hcomment : i.isComment = true
  · have hkind : i.kind = .comment := by
      cases i with
      | token t => exact of_decide_eq_true hcomment
      | openAddress lexeme n => cases hcomment
    have hmem : i ∈ (Cursor.start text).items := hitems ▸ List.mem_append_right is (List.mem_singleton_self i)
    exact .inl (.inr (.inr (.inr (.inr ⟨hkind, h.comments i hmem hcomment⟩))))
  · have hstream : Stream.ofText text = (.token ⟨.space, [], 0⟩ :: is.filter (!·.isComment)) ++ [i] := by
      unfold Stream.ofText
      simp [hitems, hcomment]
    have hlast := Progress.kind_of_last (p := .start (.ofText text)) hstream h.steps
      fun _ => kind_ne_endOfInput_of_mem_ofText
    unfold Item.Ends
    rcases hlast with hnoise | hbrace | hsemicolon
    · unfold Item.isNoise TokenKind.isNoise at hnoise
      split at hnoise
      · rename_i hk
        cases i with
        | token t => exact .inr ⟨t, rfl, hk⟩
        | openAddress lexeme n => exact absurd hitems (h.address is lexeme n)
      · rename_i hk
        exact .inl (.inr (.inr (.inl hk)))
      · rename_i hk
        exact .inl (.inr (.inr (.inr (.inl hk))))
      · cases hnoise
    · exact .inl (.inl hbrace)
    · exact .inl (.inr (.inl hsemicolon))

end SlotGrid.Style
