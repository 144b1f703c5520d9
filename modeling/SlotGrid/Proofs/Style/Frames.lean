import SlotGrid.Proofs.Style.Plain

/-! # What readers leave alone

A relation between the progress before and after a reader is a writing frame if it allows to write the selector
and to move on between divisions, a rule frame if it allows all that the readers of rules do, and a sheet frame if
it also allows to add rules. Plain readers stay within every writing frame, readers of rules within every rule
frame and reading a text within every sheet frame, whether a rule fails or not.
-/

namespace SlotGrid.Style

instance decidableEqResult {ε σ α : Type} [DecidableEq ε] [DecidableEq σ] [DecidableEq α] :
    DecidableEq (EStateM.Result ε σ α)
  | .ok a s, .ok b t => decidable_of_iff (a = b ∧ s = t) (by rw [EStateM.Result.ok.injEq])
  | .error e s, .error f t => decidable_of_iff (e = f ∧ s = t) (by rw [EStateM.Result.error.injEq])
  | .ok _ _, .error _ _ => isFalse nofun
  | .error _ _, .ok _ _ => isFalse nofun

/-- No item of a stretch divides the sheet. -/
def Undivided (is : List Item) : Prop := ∀ i ∈ is, ¬ i.kind.divides

theorem undivided_nil : Undivided [] := fun _ h => absurd h List.not_mem_nil

theorem Undivided.append {is js : List Item} (h : Undivided is) (h' : Undivided js) : Undivided (is ++ js) :=
  List.forall_mem_append.mpr ⟨h, h'⟩

namespace Stream

/-- Whether a stream goes on with an address that is not closed. -/
def opensAddress : Stream → Bool
  | .openAddress _ _ :: _ => true
  | _ => false

theorem skipRule_suffix (depth : ℕ) (s : Stream) : s.skipRule depth <:+ s := by
  induction s generalizing depth with
  | nil => exact List.suffix_rfl
  | cons i s ih =>
    unfold skipRule
    split
    · exact (ih _).trans (List.suffix_cons i s)
    · split_ifs
      · exact List.suffix_cons i s
      · exact (ih _).trans (List.suffix_cons i s)
    · exact (ih _).trans (List.suffix_cons i s)

theorem skipAtRule_suffix (depth : ℕ) (s : Stream) : s.skipAtRule depth <:+ s := by
  induction s generalizing depth with
  | nil => exact List.suffix_rfl
  | cons i s ih =>
    unfold skipAtRule
    split
    · split_ifs
      · exact List.suffix_cons i s
      · exact (ih _).trans (List.suffix_cons i s)
    · exact (ih _).trans (List.suffix_cons i s)
    · split_ifs
      · exact List.suffix_cons i s
      · exact (ih _).trans (List.suffix_cons i s)
    · exact (ih _).trans (List.suffix_cons i s)

end Stream

namespace Progress

/-- Nothing but the stream and the selector has changed, and no item was passed that divides the sheet. -/
structure Wrote (p q : Progress) : Prop where
  eq : q = { p with stream := q.stream, selector := q.selector }
  passed : ∃ is, Undivided is ∧ is ++ q.stream = p.stream

instance : IsPreorder Progress Wrote where
  refl _ := ⟨rfl, [], undivided_nil, rfl⟩
  trans p q r h h' := by
    obtain ⟨is, his, hs⟩ := h.passed
    obtain ⟨js, hjs, hs'⟩ := h'.passed
    refine ⟨?_, is ++ js, his.append hjs, by rw [List.append_assoc, hs', hs]⟩
    rw [h'.eq, h.eq]

end Progress

/-- A relation that allows to write the selector and to pass items that divide nothing. -/
class WritingFrame (R : Progress → Progress → Prop) : Prop extends IsPreorder Progress R where
  of_wrote : ∀ {p q}, p.Wrote q → R p q

instance : WritingFrame Progress.Wrote := ⟨id⟩

/-- A relation that allows what may happen to the stream, the diagnostics and the templates while a rule is read,
and everything that happens elsewhere. -/
class RuleFrame (R : Progress → Progress → Prop) : Prop extends IsPreorder Progress R where
  of_kept : ∀ {p q : Progress}, q.stream <:+ p.stream → q.sheet = p.sheet → q.templates = p.templates → R p q
  of_report : ∀ (p : Progress) (e : SyntaxError), R p (p.report e)
  of_template : ∀ (p : Progress) {t : Template} {selector css : String} {rows : List Row} {widths : List Width},
    Template.ofRows selector css rows widths = .ok t → R p { p with templates := p.templates ++ [t] }

/-- A relation that also allows to add rules. -/
class SheetFrame (R : Progress → Progress → Prop) : Prop extends RuleFrame R where
  of_rule : ∀ (p : Progress) (r : Rule), R p { p with sheet.rules := p.sheet.rules ++ [r] }

theorem Progress.Wrote.suffix {p q : Progress} (h : p.Wrote q) : q.stream <:+ p.stream := by
  obtain ⟨is, -, hs⟩ := h.passed
  exact ⟨is, hs⟩

instance {R : Progress → Progress → Prop} [RuleFrame R] : WritingFrame R where
  of_wrote h := RuleFrame.of_kept h.suffix (by rw [h.eq]) (by rw [h.eq])

namespace Reader

variable {α β : Type}

/-- The progress that a reader ends with, whether it fails or not. -/
def after (r : Reader α) (p : Progress) : Progress :=
  match r p with
  | .ok _ q | .error _ q => q

/-- Whether a reader changes the progress only as a relation allows. -/
def Within (R : Progress → Progress → Prop) (r : Reader α) : Prop := ∀ p, R p (after r p)

theorem Within.of_ok {R : Progress → Progress → Prop} {r : Reader α} (hr : Within R r) {p q : Progress} {a : α}
    (h : r p = .ok a q) : R p q := by
  have hp := hr p
  unfold after at hp
  rwa [h] at hp

theorem Within.of_error {R : Progress → Progress → Prop} {r : Reader α} (hr : Within R r) {p q : Progress}
    {e : SyntaxError} (h : r p = .error e q) : R p q := by
  have hp := hr p
  unfold after at hp
  rwa [h] at hp

theorem bind_of_ok {r : Reader α} {f : α → Reader β} {p q : Progress} {a : α} (h : r p = .ok a q) :
    (r >>= f) p = f a q := by
  change EStateM.bind r f p = _
  unfold EStateM.bind
  rw [h]

theorem bind_of_error {r : Reader α} {f : α → Reader β} {p q : Progress} {e : SyntaxError}
    (h : r p = .error e q) : (r >>= f) p = .error e q := by
  change EStateM.bind r f p = _
  unfold EStateM.bind
  rw [h]

theorem bind_eq_ok {r : Reader α} {f : α → Reader β} {p q : Progress} {b : β} :
    (r >>= f) p = .ok b q ↔ ∃ a p', r p = .ok a p' ∧ f a p' = .ok b q := by
  cases h : r p with
  | ok a p' => simp [bind_of_ok h]
  | error e p' => simp [bind_of_error h]

theorem bind_eq_error {r : Reader α} {f : α → Reader β} {p q : Progress} {e : SyntaxError} :
    (r >>= f) p = .error e q ↔ r p = .error e q ∨ ∃ a p', r p = .ok a p' ∧ f a p' = .error e q := by
  cases h : r p with
  | ok a p' => simp [bind_of_ok h]
  | error e p' => simp [bind_of_error h]

theorem advance_eq (p : Progress) :
    advance p = match p.stream.tail with
      | .openAddress _ n :: _ => .error (.lexical (.openAddress n)) { p with stream := p.stream.tail }
      | _ => .ok () { p with stream := p.stream.tail } := by
  obtain ⟨s, _⟩ := p
  rcases s with _ | ⟨i, _ | ⟨_ | _, s⟩⟩
  all_goals rfl

theorem after_advance (p : Progress) : after advance p = { p with stream := p.stream.tail } := by
  obtain ⟨s, _⟩ := p
  rcases s with _ | ⟨i, _ | ⟨_ | _, s⟩⟩
  all_goals rfl

theorem advance_eq_ok {p q : Progress} {a : Unit} :
    advance p = .ok a q ↔
      q = { p with stream := p.stream.tail } ∧ Stream.opensAddress p.stream.tail = false := by
  rw [advance_eq]
  split
  · rename_i h
    simp [h, Stream.opensAddress]
  · rename_i h
    have hopens : Stream.opensAddress p.stream.tail = false := by
      unfold Stream.opensAddress
      split
      · rename_i cs n s hs
        exact absurd hs (h cs n s)
      · rfl
    simp [hopens, eq_comm]

theorem advance_eq_error {p q : Progress} {e : SyntaxError} (h : advance p = .error e q) :
    q = { p with stream := p.stream.tail } ∧ Stream.opensAddress p.stream.tail = true := by
  rw [advance_eq] at h
  split at h
  · rename_i hs
    cases h
    exact ⟨rfl, by rw [hs]; rfl⟩
  · cases h

theorem unexpected_ne_ok {expected : String} {p q : Progress} {a : α} : unexpected expected p ≠ .ok a q := by
  obtain ⟨e, he⟩ := exists_unexpected (α := α) expected p
  rw [he]
  exact fun h => by cases h

theorem unexpected_eq_error {expected : String} {p q : Progress} {e : SyntaxError}
    (h : (unexpected expected : Reader α) p = .error e q) : q = p := by
  obtain ⟨e', he⟩ := exists_unexpected (α := α) expected p
  rw [he] at h
  cases h
  rfl

theorem expect_eq_ok {k : TokenKind} {expected : String} {p q : Progress} {a : Unit}
    (h : expect k expected p = .ok a q) (hk : k ≠ .endOfInput) : ∃ i, i.kind = k ∧ p.stream = i :: q.stream := by
  unfold expect at h
  obtain ⟨_, p₁, hkind, h⟩ := bind_eq_ok.mp h
  cases hkind
  split_ifs at h with heq
  · cases hs : p.stream with
    | nil =>
      rw [hs] at heq
      exact absurd heq.symm hk
    | cons i s =>
      rw [hs] at heq
      exact ⟨i, heq, by rw [(advance_eq_ok.mp h).1, hs]; rfl⟩
  · exact absurd h unexpected_ne_ok

theorem loop_eq (r : Reader Bool) (p : Progress) :
    loop r p = match r p with
      | .ok true q => if q.stream.length < p.stream.length then loop r q else .ok () q
      | .ok false q => .ok () q
      | .error e q => .error e q := by
  have hmap : ∀ p : Progress, loop r p = match collect (do return if ← r then some () else none) p with
      | .ok _ q => .ok () q
      | .error e q => .error e q := by
    intro p
    change EStateM.map _ (collect _) p = _
    unfold EStateM.map
    cases collect (do return if ← r then some () else none) p <;> rfl
  rw [hmap p, collect]
  cases h : r p with
  | error e q => rw [bind_of_error h]
  | ok a q =>
    rw [bind_of_ok h]
    cases a with
    | false => rfl
    | true =>
      by_cases hlt : q.stream.length < p.stream.length
      · simp only [if_true, pure, EStateM.pure, hlt]
        rw [hmap q]
        cases collect (do return if ← r then some () else none) q <;> rfl
      · simp only [if_true, pure, EStateM.pure, hlt]
        rfl

section Steps

variable {R : Progress → Progress → Prop} [IsPreorder Progress R] {r : Reader α} {f : α → Reader β} {p : Progress}

theorem keeps_bind (hr : R p (after r p)) (hf : ∀ a, Within R (f a)) : R p (after (r >>= f) p) := by
  unfold after at hr ⊢
  cases h : r p with
  | ok a q =>
    rw [h] at hr
    rw [bind_of_ok h]
    exact trans_of R hr (hf a q)
  | error e q =>
    rw [h] at hr
    rwa [bind_of_error h]

theorem within_pure (a : α) : Within R (pure a : Reader α) := fun p => refl_of R p

theorem within_get : Within R (get : Reader Progress) := fun p => refl_of R p

theorem within_bind (hr : Within R r) (hf : ∀ a, Within R (f a)) : Within R (r >>= f) :=
  fun p => keeps_bind (hr p) hf

theorem within_map (f : α → β) (hr : Within R r) : Within R (f <$> r) :=
  within_bind hr fun _ => within_pure _

theorem within_collect {r : Reader (Option α)} (hr : Within R r) : Within R (collect r) := by
  intro p
  induction hn : p.stream.length using Nat.strong_induction_on generalizing p with
  | _ n ih =>
    have hrp := hr p
    unfold after at hrp ⊢
    rw [collect]
    cases h : r p with
    | error e q =>
      rw [h] at hrp
      exact hrp
    | ok a q =>
      rw [h] at hrp
      cases a with
      | none => exact hrp
      | some a =>
        simp only
        split_ifs with hlt
        · have hq := ih _ (hn ▸ hlt) q rfl
          unfold after at hq
          cases hc : collect r q with
          | error e q' =>
            rw [hc] at hq
            exact trans_of R hrp hq
          | ok as q' =>
            rw [hc] at hq
            exact trans_of R hrp hq
        · exact hrp

theorem within_loop {r : Reader Bool} (hr : Within R r) : Within R (loop r) :=
  within_map _ <| within_collect <| within_bind hr fun _ => within_pure _

theorem within_kind : Within R kind := within_bind within_get fun _ => within_pure _

end Steps

/-! ## Plain readers -/

section Writing

variable {R : Progress → Progress → Prop} [WritingFrame R]

/-- A plain reader stays within a writing frame where what it has to know is so. -/
theorem Plain.keeps {P : Option Item → Prop} {r : Reader α} (hr : Plain P r) {p : Progress}
    (hp : P p.stream.head?) : R p (after r p) := by
  induction hr generalizing p with
  | pure a => exact refl_of R p
  | fail h =>
    obtain ⟨e, he⟩ := h p
    unfold after
    rw [he]
    exact refl_of R p
  | look hf hr ih => exact ih _ ⟨hp, rfl⟩
  | write text hr ih =>
    rename_i r _
    have hw : R p { p with selector := p.selector ++ text } :=
      WritingFrame.of_wrote ⟨rfl, [], undivided_nil, rfl⟩
    exact trans_of R hw (ih hp)
  | advance h =>
    rw [after_advance]
    refine WritingFrame.of_wrote ⟨rfl, ?_⟩
    cases hs : p.stream with
    | nil => exact ⟨[], undivided_nil, rfl⟩
    | cons i s =>
      rw [hs] at hp
      exact ⟨[i], List.forall_mem_singleton.mpr (h i hp), rfl⟩
  | bind hr hs ih ihs => exact keeps_bind (ih hp) fun a q => ihs a trivial
  | collect hr ih => exact within_collect (fun q => ih trivial) p

theorem Plain.within {r : Reader α} (hr : Plain (fun _ => True) r) : Within R r := fun _ => hr.keeps trivial

theorem Plain.of_ok {r : Reader α} (hr : Plain (fun _ => True) r) {p q : Progress} {a : α} (h : r p = .ok a q) :
    R p q := hr.within.of_ok h

theorem Plain.of_error {r : Reader α} (hr : Plain (fun _ => True) r) {p q : Progress} {e : SyntaxError}
    (h : r p = .error e q) : R p q := hr.within.of_error h

end Writing

/-! ## Readers of rules -/

section Rules

variable {R : Progress → Progress → Prop} [RuleFrame R] {registered : ℕ}

theorem within_modify {f : Progress → Progress} (hstream : ∀ p, (f p).stream <:+ p.stream)
    (hsheet : ∀ p, (f p).sheet = p.sheet) (htemplates : ∀ p, (f p).templates = p.templates) :
    Within R (modify f : Reader Unit) :=
  fun p => RuleFrame.of_kept (hstream p) (hsheet p) (htemplates p)

theorem within_advance : Within R advance := by
  intro p
  rw [after_advance]
  exact RuleFrame.of_kept (List.tail_suffix _) rfl rfl

theorem within_value : Within R value :=
  within_bind within_get fun _ => within_bind (plain_loop plain_valueItem).within fun _ => within_pure _

theorem within_templateDeclaration : Within R (templateDeclaration registered) := by
  intro p
  have hdef : R p (after templateDefinition p) := plain_templateDefinition.within p
  unfold after at hdef ⊢
  unfold templateDeclaration
  cases h : templateDefinition p with
  | error e q =>
    rw [h] at hdef
    refine trans_of R (trans_of R hdef (RuleFrame.of_report q e)) ?_
    exact RuleFrame.of_kept (List.dropWhile_suffix _) rfl rfl
  | ok rw q =>
    rw [h] at hdef
    obtain ⟨rows, widths⟩ := rw
    simp only
    cases ht : Template.ofRows q.selector (valueText p.stream.declarationItems) rows widths with
    | error e => exact trans_of R hdef (RuleFrame.of_report q _)
    | ok t =>
      refine trans_of R (trans_of R hdef (RuleFrame.of_template q ht)) ?_
      exact RuleFrame.of_kept List.suffix_rfl rfl rfl

theorem within_place (items : List Item) : Within R (modify (·.place items) : Reader Unit) := by
  apply within_modify
  all_goals
    intro p
    unfold Progress.place
    split
    · split <;> simp
    · simp

theorem within_declaration : Within R (declaration registered) := by
  refine within_bind plain_property.within fun name => within_bind within_kind fun k => ?_
  split
  · exact within_templateDeclaration
  · refine within_bind within_value fun items => ?_
    have hdeclare : Within R (modify (·.declare (.of name (valueText items))) : Reader Unit) :=
      within_modify (fun _ => List.suffix_rfl) (fun _ => rfl) fun _ => rfl
    simp only
    split_ifs
    · exact within_bind (within_place items) fun _ => hdeclare
    · exact hdeclare

theorem within_blockItem : Within R (blockItem registered) := by
  refine within_bind (plain_discard plain_skipSpace).within fun _ => within_bind within_kind fun k => ?_
  split
  · exact within_bind within_advance fun _ => within_pure _
  · exact within_bind within_advance fun _ => within_pure _
  · exact within_pure _
  · exact within_bind within_declaration fun _ => within_pure _

theorem within_rule : Within R (rule registered) := by
  refine within_bind plain_selectors.within fun _ => ?_
  refine within_bind (within_bind within_kind fun k => ?_) fun _ => ?_
  · split_ifs
    · exact within_advance
    · exact (plain_unexpected _).within
  · refine within_bind (within_modify (fun _ => List.suffix_rfl) (fun _ => rfl) fun _ => rfl) fun _ => ?_
    refine within_bind (within_loop within_blockItem) fun _ => ?_
    exact within_bind within_get fun p => within_bind within_get fun q => within_pure _

theorem within_rule? : Within R (rule? registered) := by
  refine within_bind plain_skipNoise.within fun _ => within_bind within_kind fun k => ?_
  split
  · exact within_pure _
  · refine within_bind (within_modify (fun p => ?_) (fun _ => rfl) fun _ => rfl) fun _ => within_pure _
    exact p.stream.skipAtRule_suffix 0
  · exact within_bind within_rule fun r => within_pure _

end Rules

end Reader

namespace Progress

/-- The progress at the start of a rule. -/
def fresh (p : Progress) : Progress := { p with selector := "", depth := 0, declarations := .empty }

section Step

variable {registered : ℕ} {p q : Progress}

theorem step_of_rule {r : Rule} (h : Reader.rule? registered p.fresh = .ok (some r) q) :
    p.step registered = { q with sheet.rules := q.sheet.rules ++ [r] } := by
  unfold fresh at h
  simp only [step, h]

theorem step_of_none (h : Reader.rule? registered p.fresh = .ok none q) : p.step registered = q := by
  unfold fresh at h
  simp only [step, h]

theorem step_of_error {e : SyntaxError} (h : Reader.rule? registered p.fresh = .error e q) :
    p.step registered = (q.report e).recover := by
  unfold fresh at h
  simp only [step, h]

end Step

variable {R : Progress → Progress → Prop} [SheetFrame R]

/-- Reading or dropping a rule stays within a sheet frame. -/
theorem keeps_step (registered : ℕ) (p : Progress) : R p (p.step registered) := by
  have hfresh : R p p.fresh := RuleFrame.of_kept List.suffix_rfl rfl rfl
  have hrule : R p.fresh (Reader.after (Reader.rule? registered) p.fresh) := Reader.within_rule? _
  refine trans_of R hfresh (trans_of R hrule ?_)
  unfold Reader.after
  cases h : Reader.rule? registered p.fresh with
  | error e q =>
    rw [step_of_error h]
    refine trans_of R (RuleFrame.of_report q e) ?_
    exact RuleFrame.of_kept (q.stream.skipRule_suffix q.depth) rfl rfl
  | ok r q =>
    cases r with
    | none =>
      rw [step_of_none h]
      exact refl_of R q
    | some r =>
      rw [step_of_rule h]
      exact SheetFrame.of_rule q r

theorem keeps_finish (registered : ℕ) (p : Progress) : R p (p.finish registered) := by
  induction hn : p.stream.length using Nat.strong_induction_on generalizing p with
  | _ n ih =>
    rw [finish]
    split_ifs with hlt
    · exact trans_of R (keeps_step registered p) (ih _ (hn ▸ hlt) _ rfl)
    · exact keeps_step registered p

end Progress

end SlotGrid.Style
