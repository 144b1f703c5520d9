import SlotGrid.Proofs.Style.Boundary
import SlotGrid.Proofs.Style.Lockstep
import SlotGrid.Proofs.Style.Steps

/-! # The first rule of a text

A rule that has been read stays in the sheet, and what stands behind its closing brace is not asked for before
the rule is finished, but for one item: the brace is passed with a look at the item behind it. So a rule is the
first of every text that starts with it, unless the text goes on with an address that is not closed.
-/

namespace SlotGrid.Style

theorem Alike.opensAddress_eq {is js : List Item} (h : Alike is js) :
    Stream.opensAddress is = Stream.opensAddress js := by
  rcases h with _ | @⟨i, j, _, _, hij, _⟩
  · rfl
  · cases i <;> cases j <;> first | rfl | cases hij

/-- An at-rule that goes on with one more item takes it along. -/
theorem Stream.skipAtRule_singleton (depth : ℕ) (i : Item) : skipAtRule depth [i] = [] := by
  unfold skipAtRule
  split
  all_goals first | rfl | (split_ifs <;> rfl)

/-! ## What stays in a sheet -/

namespace Progress

/-- Rules and diagnostics are added behind those that are there. -/
structure Adds (p q : Progress) : Prop where
  rules : p.sheet.rules <+: q.sheet.rules
  diagnostics : p.sheet.diagnostics <+: q.sheet.diagnostics

instance : IsPreorder Progress Adds where
  refl _ := ⟨List.prefix_rfl, List.prefix_rfl⟩
  trans _ _ _ h h' := ⟨h.rules.trans h'.rules, h.diagnostics.trans h'.diagnostics⟩

instance : SheetFrame Adds where
  of_kept _ h _ := by
    constructor
    all_goals rw [h]
  of_report _ _ := ⟨List.prefix_rfl, List.prefix_append _ _⟩
  of_template _ _ _ _ _ _ _ := ⟨List.prefix_rfl, List.prefix_rfl⟩
  of_rule _ _ := ⟨List.prefix_append _ _, List.prefix_rfl⟩

end Progress

namespace Reader

variable {registered : ℕ} {p q : Progress}

/-- A rule is closed with a look at the item behind its brace. -/
theorem closeRule_of_tail (h : Stream.opensAddress p.stream.tail = false) :
    closeRule p = .ok ⟨p.selector, p.declarations⟩ { p with stream := p.stream.tail } := by
  have hadvance : advance p = .ok () { p with stream := p.stream.tail } := advance_eq_ok.mpr ⟨rfl, h⟩
  unfold closeRule
  rw [bind_of_ok hadvance]
  rfl

/-- Where the streams part at the brace that ends the first one, both runs close the same rule. -/
theorem closeRule_of_atJunction {J : Junction} (h : AtJunction J p q) {brace : Item} (hleft : J.left = [brace])
    (hright : Stream.opensAddress J.right.tail = false) :
    closeRule p = .ok ⟨p.selector, p.declarations⟩ { p with stream := p.stream.tail } ∧
      closeRule q = .ok ⟨p.selector, p.declarations⟩ { q with stream := q.stream.tail } := by
  constructor
  · exact closeRule_of_tail (by rw [h.left, hleft]; rfl)
  · rw [← h.follows.selector, ← h.follows.declarations]
    exact closeRule_of_tail (by rw [h.right]; exact hright)

end Reader

namespace Progress

variable {registered : ℕ} {p q p' q' : Progress}

/-- What a step has added is there at the end. -/
theorem adds_finish_of_step (registered : ℕ) (p : Progress) : (p.step registered).Adds (p.finish registered) := by
  rw [finish]
  split_ifs
  · exact keeps_finish registered _
  · exact refl_of Adds _

/-- The first rule of a run is the first rule of another run that has read the same rules so far. -/
theorem head?_rules_of_rule {r rule : Rule} (hp : Reader.rule? registered p.fresh = .ok (some r) p')
    (hq : Reader.rule? registered q.fresh = .ok (some r) q') (hrules : q'.sheet.rules = p'.sheet.rules)
    (hfinish : (p.finish registered).sheet.rules = [rule]) :
    (q.finish registered).sheet.rules.head? = some rule := by
  have hadds := (adds_finish_of_step registered p).rules
  have hadds' := (adds_finish_of_step registered q).rules
  rw [hfinish, step_of_rule hp] at hadds
  rw [step_of_rule hq] at hadds'
  have hone : p'.sheet.rules ++ [r] = [rule] :=
    hadds.eq_of_length_le (by simp)
  dsimp only at hadds'
  rw [hrules, hone] at hadds'
  obtain ⟨rules, hrules⟩ := hadds'
  rw [← hrules]
  rfl

/-- Two runs that part at the brace which ends the first one read the same first rule. -/
theorem head?_rules_finish {J : Junction} (h : Follows J p q) (hbrace : J.AtBrace) {brace : Item}
    (hleft : J.left = [brace])
    (hright : Stream.opensAddress J.right.tail = false) (hbefore : J.before = ⟨.empty, [], []⟩)
    (hrules : p.sheet.rules = []) {rule : Rule} (hfinish : (p.finish registered).sheet = ⟨[rule], []⟩) :
    (q.finish registered).sheet.rules.head? = some rule := by
  have hregistered : registered = registered + J.before.templates.length := by rw [hbefore]; rfl
  induction hn : p.stream.length using Nat.strong_induction_on generalizing p q with
  | _ n ih =>
    have hnone : ∀ p' : Progress, p'.sheet = p.sheet → p'.sheet ≠ ⟨[rule], []⟩ := by
      intro p' hkept hp'
      rw [← hkept, hp'] at hrules
      cases hrules
    rcases Reader.agreeOrClose_rule? h.fresh hbrace hregistered with (hpq | ⟨p', q', hat, hp, hq⟩) | ⟨-, depth, p', hskip, hp⟩
    · generalize hx : Reader.rule? registered p.fresh = x at hpq
      generalize hy : Reader.rule? registered q.fresh = y at hpq
      rcases hpq with @⟨r, p', q', h'⟩ | @⟨e, e', p', q', h'⟩
      · cases r with
        | none =>
          -- Only noise or an at-rule was read: both runs go on, or the first one has ended without a rule.
          have hkept : p'.sheet = p.sheet := (Reader.rule?_eq_none (p := p.fresh) hx).1
          have hlength := h.length_lt_iff h'
          rw [finish, step_of_none hx] at hfinish
          rw [finish, step_of_none hy]
          split_ifs at hfinish with hlt
          · rw [if_pos (hlength.mp hlt)]
            exact ih _ (hn ▸ hlt) h' (hkept ▸ hrules) hfinish rfl
          · exact absurd hfinish (hnone p' hkept)
        | some r =>
          refine head?_rules_of_rule hx hy ?_ (by rw [hfinish])
          rw [h'.rules, hbefore]
          rfl
      · have hadds := (adds_finish_of_step registered p).diagnostics
        rw [hfinish, step_of_error hx] at hadds
        exact absurd (List.prefix_nil.mp hadds) (by simp [recover, report])
    · obtain ⟨hclose, hclose'⟩ := Reader.closeRule_of_atJunction hat hleft hright
      rw [Reader.bind_of_ok hclose] at hp
      rw [Reader.bind_of_ok hclose'] at hq
      refine head?_rules_of_rule hp hq ?_ (by rw [hfinish])
      dsimp only
      rw [hat.follows.rules, hbefore]
      rfl
    · have hkept : p'.sheet = p.sheet := (Reader.rule?_eq_none (p := p.fresh) hp).1
      have hnil : p'.stream = [] := by rw [hskip, hleft, Stream.skipAtRule_singleton]
      rw [finish, step_of_none hp] at hfinish
      split_ifs at hfinish
      · rw [sheet_finish_of_ends (by rw [hnil]; rfl)] at hfinish
        exact absurd hfinish (hnone p' hkept)
      · exact absurd hfinish (hnone p' hkept)

end Progress

/-! ## Longer texts -/

/-- The streams of a text that ends with the token of a closing brace and of a longer text. -/
def junctionOfText (n k : ℕ) (rest : String) : Junction where
  left := [.token ⟨.punct .rightBrace, ['}'], n⟩]
  right := .token ⟨.punct .rightBrace, ['}'], n⟩ :: (Cursor.items ⟨k, rest.toList⟩).filter (!·.isComment)
  parts := .inr ⟨_, _, _, _, rfl, rfl, rfl, rfl⟩
  before := ⟨.empty, [], []⟩

theorem atBrace_junctionOfText (n k : ℕ) (rest : String) : (junctionOfText n k rest).AtBrace := by
  rintro i is ⟨⟩
  rfl

/-- Reading a text that ends with the token of a closing brace and reading a longer text begin alike. -/
theorem follows_start {text : String} {is : List Item} {n : ℕ}
    (hclosed : (Cursor.start text).items = is ++ [.token ⟨.punct .rightBrace, ['}'], n⟩]) (rest : String) :
    ∃ k, Follows (junctionOfText n k rest) (.start (.ofText text)) (.start (.ofText (text ++ rest))) := by
  have hlonger := Cursor.items_append_of_divider (by decide) hclosed rest.toList
  refine ⟨n + 1, ?_⟩
  refine ⟨⟨.token ⟨.space, [], 0⟩ :: is.filter (!·.isComment), _, .refl _, ?_, ?_⟩, rfl, rfl, rfl, rfl, rfl, rfl, rfl⟩
  · change Item.token _ :: (Cursor.start text).items.filter _ = _
    rw [hclosed, List.filter_append]
    rfl
  · change Item.token _ :: (Cursor.items ⟨0, (text ++ rest).toList⟩).filter _ = _
    rw [String.toList_append, hlonger, List.filter_append]
    rfl

/-- A rule that a text consists of is the first rule of every longer text, unless the text goes on with an address
that is not closed. -/
theorem first_rule_append {registered : ℕ} {text rest : String} {rule : Rule} {is : List Item} {n : ℕ}
    (hparse : (parse registered text).sheet = ⟨[rule], []⟩)
    (hclosed : (Cursor.start text).items = is ++ [.token ⟨.punct .rightBrace, ['}'], n⟩])
    (hrest : Stream.opensAddress (Stream.ofText rest).tail = false) :
    (parse registered (text ++ rest)).sheet.rules.head? = some rule := by
  obtain ⟨k, hfollows⟩ := follows_start hclosed rest
  have hright : Stream.opensAddress (junctionOfText n k rest).right.tail = false :=
    ((alike_items k 0 rest.toList).uncommented.opensAddress_eq).trans hrest
  exact Progress.head?_rules_finish hfollows (atBrace_junctionOfText n k rest) rfl hright rfl rfl hparse

/-- The brace ends the rule also where the next one follows at once. -/
theorem first_rule_append_brace :
    (parse 0 "a\x7bb:c\x7d").sheet = ⟨[⟨"a", ⟨[⟨"b", "c", none⟩]⟩⟩], []⟩ ∧
      (parse 0 ("a\x7bb:c\x7d" ++ "\x7d d\x7b")).sheet.rules.head? = some ⟨"a", ⟨[⟨"b", "c", none⟩]⟩⟩ := by
  have hparse : (parse 0 "a\x7bb:c\x7d").sheet = ⟨[⟨"a", ⟨[⟨"b", "c", none⟩]⟩⟩], []⟩ := by decide +kernel
  have hitems : (Cursor.start "a\x7bb:c\x7d").items =
      [.token ⟨.ident "a", ['a'], 0⟩, .token ⟨.punct .leftBrace, ['{'], 1⟩, .token ⟨.ident "b", ['b'], 2⟩,
        .token ⟨.punct .colon, [':'], 3⟩, .token ⟨.ident "c", ['c'], 4⟩] ++
      [.token ⟨.punct .rightBrace, ['}'], 5⟩] := by decide +kernel
  exact ⟨hparse, first_rule_append hparse hitems (by decide +kernel)⟩

/-- An address that is not closed takes the rule in front of it along. -/
theorem not_first_rule_append_openAddress :
    ¬ ∀ (text rest : String) (rule : Rule) (is : List Item) (n : ℕ), (parse 0 text).sheet = ⟨[rule], []⟩ →
      (Cursor.start text).items = is ++ [.token ⟨.punct .rightBrace, ['}'], n⟩] →
        (parse 0 (text ++ rest)).sheet.rules.head? = some rule := by
  intro h
  have hrule := h "a\x7bb:c\x7d" "url(" ⟨"a", ⟨[⟨"b", "c", none⟩]⟩⟩
    [.token ⟨.ident "a", ['a'], 0⟩, .token ⟨.punct .leftBrace, ['{'], 1⟩, .token ⟨.ident "b", ['b'], 2⟩,
      .token ⟨.punct .colon, [':'], 3⟩, .token ⟨.ident "c", ['c'], 4⟩] 5 (by decide +kernel) (by cbv)
  have hstep : Reader.rule? 0 (Progress.start (.ofText ("a\x7bb:c\x7d" ++ "url("))).fresh =
      .error (.lexical (.openAddress 6))
        ⟨[.openAddress ['u', 'r', 'l', '('] 6], "a", 1, ⟨[⟨"b", "c", none⟩]⟩, .empty, [], []⟩ := by decide +kernel
  have hsheet : ((Progress.start (.ofText ("a\x7bb:c\x7d" ++ "url("))).finish 0).sheet.rules = [] := by
    rw [Progress.finish, Progress.step_of_error hstep]
    split_ifs
    · rw [Progress.sheet_finish_of_ends rfl]
      rfl
    · rfl
  change ((Progress.start (.ofText ("a\x7bb:c\x7d" ++ "url("))).finish 0).sheet.rules.head? = _ at hrule
  rw [hsheet] at hrule
  cases hrule

end SlotGrid.Style
