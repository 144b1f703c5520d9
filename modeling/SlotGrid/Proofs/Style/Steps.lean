import SlotGrid.Proofs.Style.Frames

/-! # From rule to rule

Every step of reading a text moves on in the stream until there is nothing left to read. A space in front of a rule
makes no difference to it.
-/

namespace SlotGrid.Style

/-- The kinds of what is passed between rules. -/
def TokenKind.isNoise : TokenKind → Bool
  | .space | .commentOpen | .commentClose => true
  | _ => false

namespace Stream

theorem length_skipRule_lt (depth : ℕ) (i : Item) (s : Stream) : (skipRule depth (i :: s)).length < s.length + 1 := by
  unfold skipRule
  split
  · exact Nat.lt_succ_of_le (skipRule_suffix _ s).length_le
  · split_ifs
    · exact Nat.lt_succ_self _
    · exact Nat.lt_succ_of_le (skipRule_suffix _ s).length_le
  · exact Nat.lt_succ_of_le (skipRule_suffix _ s).length_le

theorem length_skipAtRule_lt {i : Item} {name : String} (hi : i.kind = .atKeyword name) (depth : ℕ) (s : Stream) :
    (skipAtRule depth (i :: s)).length < s.length + 1 := by
  rw [skipAtRule, hi]
  exact Nat.lt_succ_of_le (skipAtRule_suffix depth s).length_le

end Stream

namespace Progress

/-- The reader has moved on in the stream and has added no rule to the sheet. -/
structure Onward (p q : Progress) : Prop where
  stream : q.stream <:+ p.stream
  rules : q.sheet.rules = p.sheet.rules

instance : IsPreorder Progress Onward where
  refl _ := ⟨List.suffix_rfl, rfl⟩
  trans _ _ _ h h' := ⟨h'.stream.trans h.stream, h'.rules.trans h.rules⟩

instance : RuleFrame Onward where
  of_kept hs h _ := ⟨hs, by rw [h]⟩
  of_report _ _ := ⟨List.suffix_rfl, rfl⟩
  of_template _ _ _ _ _ _ _ := ⟨List.suffix_rfl, rfl⟩

theorem Onward.length_le {p q : Progress} (h : p.Onward q) : q.stream.length ≤ p.stream.length := h.stream.length_le

end Progress

namespace Reader

open Progress

variable {registered : ℕ} {p q : Progress}

theorem length_lt_of_rule {r : Rule} (h : rule registered p = .ok r q) : q.stream.length < p.stream.length := by
  unfold rule at h
  obtain ⟨_, p₁, hselectors, h⟩ := bind_eq_ok.mp h
  obtain ⟨_, p₂, hexpect, h⟩ := bind_eq_ok.mp h
  obtain ⟨_, p₃, hmodify, h⟩ := bind_eq_ok.mp h
  cases hmodify
  obtain ⟨_, p₄, hblock, h⟩ := bind_eq_ok.mp h
  cases h
  obtain ⟨i, -, hs⟩ := expect_eq_ok hexpect nofun
  have hselectors := (plain_selectors.of_ok (R := Onward) hselectors).length_le
  have hblock := ((within_loop (R := Onward) within_blockItem).of_ok hblock).length_le
  rw [hs, List.length_cons] at hselectors
  exact hblock.trans_lt hselectors

/-- Nothing is added to the sheet where there is no rule, and the reader moves on unless the text is at its end. -/
theorem rule?_eq_none (h : rule? registered p = .ok none q) :
    q.sheet = p.sheet ∧ (q.stream.length < p.stream.length ∨ q.stream.kind = .endOfInput) := by
  unfold rule? at h
  obtain ⟨_, p₁, hnoise, h⟩ := bind_eq_ok.mp h
  obtain ⟨k, p₂, hkind, h⟩ := bind_eq_ok.mp h
  cases hkind
  have hwrote := plain_skipNoise.of_ok (R := Progress.Wrote) hnoise
  have hsheet : p₁.sheet = p.sheet := by rw [hwrote.eq]
  generalize hk : p₁.stream.kind = k at h
  split at h
  · cases h
    exact ⟨hsheet, .inr hk⟩
  · cases h
    refine ⟨hsheet, .inl ?_⟩
    cases hs : p₁.stream with
    | nil =>
      rw [hs] at hk
      cases hk
    | cons i s =>
      rw [hs] at hk
      have hlt := Stream.length_skipAtRule_lt hk 0 s
      have hle := hwrote.suffix.length_le
      rw [hs] at hle
      change (p₁.stream.skipAtRule 0).length < _
      rw [hs]
      exact hlt.trans_le hle
  · obtain ⟨r, p₂, -, h⟩ := bind_eq_ok.mp h
    cases h

theorem length_lt_of_rule? {r : Rule} (h : rule? registered p = .ok (some r) q) :
    q.stream.length < p.stream.length := by
  unfold rule? at h
  obtain ⟨_, p₁, hnoise, h⟩ := bind_eq_ok.mp h
  obtain ⟨k, p₂, hkind, h⟩ := bind_eq_ok.mp h
  cases hkind
  generalize p₁.stream.kind = k at h
  split at h
  · cases h
  · obtain ⟨_, p₂, -, h⟩ := bind_eq_ok.mp h
    cases h
  · obtain ⟨r, p₂, hrule, h⟩ := bind_eq_ok.mp h
    cases h
    exact (length_lt_of_rule hrule).trans_le (plain_skipNoise.of_ok (R := Onward) hnoise).length_le

theorem skipNoise_eq {k : TokenKind} (hk : k.isNoise = true) (hp : p.stream.kind = k) :
    skipNoise p = match (advance >>= fun _ => pure true : Reader Bool) p with
      | .ok true q => if q.stream.length < p.stream.length then skipNoise q else .ok () q
      | .ok false q => .ok () q
      | .error e q => .error e q := by
  unfold skipNoise
  rw [loop_eq, bind_of_ok (r := kind) (a := p.stream.kind) rfl, hp]
  unfold TokenKind.isNoise at hk
  split at hk
  all_goals first | rfl | cases hk

theorem skipNoise_of_noise (h : p.stream.kind.isNoise = true) :
    skipNoise p = (advance >>= fun _ => skipNoise) p := by
  rw [skipNoise_eq h rfl]
  cases hadvance : advance p with
  | error e q =>
    rw [bind_of_error hadvance, bind_of_error hadvance]
  | ok _ q =>
    have hlt : q.stream.length < p.stream.length := by
      rw [(advance_eq_ok.mp hadvance).1]
      cases hs : p.stream with
      | nil =>
        rw [hs] at h
        cases h
      | cons i s => simp
    rw [bind_of_ok hadvance, bind_of_ok hadvance]
    exact if_pos hlt

theorem skipNoise_of_not_noise (h : p.stream.kind.isNoise = false) : skipNoise p = .ok () p := by
  unfold skipNoise
  rw [loop_eq, bind_of_ok (r := kind) (a := p.stream.kind) rfl]
  revert h
  cases p.stream.kind
  all_goals first | exact fun _ => rfl | exact nofun

theorem rule?_of_ends (h : p.stream.kind = .endOfInput) : rule? registered p = .ok none p := by
  have hnoise : skipNoise p = .ok () p := skipNoise_of_not_noise (by rw [h]; rfl)
  unfold rule?
  rw [bind_of_ok hnoise, bind_of_ok (r := kind) (a := p.stream.kind) rfl, h]
  rfl

/-- A space in front of a rule is passed. -/
theorem rule?_of_space (registered : ℕ) (h : p.stream.kind = .space) :
    rule? registered p = match advance p with
      | .ok _ q => rule? registered q
      | .error e q => .error e q := by
  have hbind : ∀ {α : Type} (f : Unit → Reader α), (skipNoise >>= f) p = match advance p with
      | .ok _ q => (skipNoise >>= f) q
      | .error e q => .error e q := by
    intro α f
    change EStateM.bind skipNoise f p = _
    unfold EStateM.bind
    rw [skipNoise_of_noise (by rw [h]; rfl)]
    cases hadvance : advance p with
    | error e q => rw [bind_of_error hadvance]
    | ok _ q =>
      rw [bind_of_ok hadvance]
      rfl
  exact hbind _

theorem rule?_of_closed_space {i : Item} {s : Stream} (hi : i.kind = .space) (hs : s.opensAddress = false)
    (p : Progress) : rule? registered { p with stream := i :: s } = rule? registered { p with stream := s } := by
  have hadvance : advance { p with stream := i :: s } = .ok () { p with stream := s } := advance_eq_ok.mpr ⟨rfl, hs⟩
  have hrule := rule?_of_space registered (p := { p with stream := i :: s }) hi
  rwa [hadvance] at hrule

theorem rule?_space_congr {i j : Item} (hi : i.kind = .space) (hj : j.kind = .space) (s : Stream) (p : Progress) :
    rule? registered { p with stream := i :: s } = rule? registered { p with stream := j :: s } := by
  have hrule := rule?_of_space registered (p := { p with stream := i :: s }) hi
  have hrule' := rule?_of_space registered (p := { p with stream := j :: s }) hj
  rw [hrule, hrule', advance_eq, advance_eq]
  rfl

end Reader

namespace Progress

variable {registered : ℕ}

/-- What has been found so far. -/
def parsed (p : Progress) : Parsed := ⟨p.sheet, p.templates, p.positions⟩

theorem parsed_finish_of_ends {p : Progress} (h : p.stream.kind = .endOfInput) :
    (p.finish registered).parsed = p.parsed := by
  have hstep : p.step registered = p.fresh := step_of_none (Reader.rule?_of_ends h)
  rw [finish, hstep]
  exact if_neg (Nat.lt_irrefl _) ▸ rfl

theorem sheet_finish_of_ends {p : Progress} (h : p.stream.kind = .endOfInput) :
    (p.finish registered).sheet = p.sheet :=
  congrArg Parsed.sheet (parsed_finish_of_ends h)

theorem step_shrinks_or_ends (p : Progress) :
    (p.step registered).stream.length < p.stream.length ∨ (p.step registered).stream.kind = .endOfInput := by
  cases h : Reader.rule? registered p.fresh with
  | error e q =>
    rw [step_of_error h]
    have hle := (Reader.within_rule?.of_error (R := Onward) h).length_le
    change (q.stream.skipRule q.depth).length < _ ∨ (q.stream.skipRule q.depth).kind = _
    cases hs : q.stream with
    | nil => exact .inr rfl
    | cons i s =>
      rw [hs] at hle
      exact .inl ((Stream.length_skipRule_lt q.depth i s).trans_le hle)
  | ok r q =>
    cases r with
    | none =>
      rw [step_of_none h]
      exact (Reader.rule?_eq_none h).2
    | some r =>
      rw [step_of_rule h]
      have hlt := Reader.length_lt_of_rule? h
      exact .inl hlt

/-- A text has in it what the first step finds and what that leaves. -/
theorem parsed_finish_step (p : Progress) :
    ((p.step registered).finish registered).parsed = (p.finish registered).parsed := by
  rw [finish.eq_def registered p]
  dsimp only
  split_ifs with hlt
  · rfl
  · exact parsed_finish_of_ends ((step_shrinks_or_ends p).resolve_left hlt)

theorem sheet_finish_step (p : Progress) :
    ((p.step registered).finish registered).sheet = (p.finish registered).sheet :=
  congrArg Parsed.sheet (parsed_finish_step p)

theorem parsed_finish_congr {p q : Progress}
    (h : Reader.rule? registered p.fresh = Reader.rule? registered q.fresh) :
    (p.finish registered).parsed = (q.finish registered).parsed := by
  have hstep : p.step registered = q.step registered := by
    unfold fresh at h
    simp only [step, h]
  rw [← parsed_finish_step p, hstep, parsed_finish_step q]

/-- A space at the front of a text makes no difference, unless an address follows that is not closed. -/
theorem parsed_finish_of_space {i : Item} {s : Stream} (hi : i.kind = .space) (hs : s.opensAddress = false)
    (p : Progress) :
    (finish registered { p with stream := i :: s }).parsed = (finish registered { p with stream := s }).parsed :=
  parsed_finish_congr <| Reader.rule?_of_closed_space hi hs p.fresh

theorem sheet_finish_of_space {i : Item} {s : Stream} (hi : i.kind = .space) (hs : s.opensAddress = false)
    (p : Progress) :
    (finish registered { p with stream := i :: s }).sheet = (finish registered { p with stream := s }).sheet :=
  congrArg Parsed.sheet (parsed_finish_of_space hi hs p)

/-- One space at the front of a text is as good as another. -/
theorem parsed_finish_space_congr {i j : Item} (hi : i.kind = .space) (hj : j.kind = .space) (s : Stream)
    (p : Progress) :
    (finish registered { p with stream := i :: s }).parsed = (finish registered { p with stream := j :: s }).parsed :=
  parsed_finish_congr <| Reader.rule?_space_congr hi hj s p.fresh

end Progress

end SlotGrid.Style
