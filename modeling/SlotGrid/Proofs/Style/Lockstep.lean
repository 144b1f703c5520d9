import SlotGrid.Proofs.Style.Alike

/-! # Runs side by side

A reader asks only for the current item and for the items of the current declaration, never for a place in the
text. So two runs over streams that are alike do the same, up to the brace or the semicolon where the streams part.
What was registered before one of them stays in front of what the run registers.
-/

namespace SlotGrid.Style

/-- The selectors of what was dropped, as far as they had been read. -/
def Sheet.dropped (s : Sheet) : List String := s.diagnostics.map Diagnostic.selector

theorem Progress.dropped_report (p : Progress) (e : SyntaxError) :
    (p.report e).sheet.dropped = p.sheet.dropped ++ [p.selector] := List.map_append

/-- What was found, but for the messages about what was dropped: they name places in the text. -/
structure Found where
  rules : List Rule
  dropped : List String
  templates : List Template
  positions : List Position

instance : Append Found where
  append f g := ⟨f.rules ++ g.rules, f.dropped ++ g.dropped, f.templates ++ g.templates, f.positions ++ g.positions⟩

def Parsed.found (s : Parsed) : Found := ⟨s.sheet.rules, s.sheet.dropped, s.templates, s.positions⟩

def Progress.found (p : Progress) : Found := ⟨p.sheet.rules, p.sheet.dropped, p.templates, p.positions⟩

/-! ## Streams that part -/

/-- What is left of two streams from the item on where they part, if they do, and what has been registered before the
second run began. The item divides the sheet. -/
structure Junction where
  left : Stream
  right : Stream
  parts : (left = [] ∧ right = []) ∨
    ∃ i is j js, left = i :: is ∧ right = j :: js ∧ i.unplaced = j.unplaced ∧ i.kind.divides = true
  before : Parsed

namespace Junction

variable {J : Junction} {is js : List Item}

/-- The streams part at a closing brace. -/
def AtBrace (J : Junction) : Prop := ∀ i is, J.left = i :: is → i.kind = .punct .rightBrace

theorem head?_eq (h : Alike is js) :
    (is ++ J.left).head?.map Item.unplaced = (js ++ J.right).head?.map Item.unplaced := by
  cases h with
  | nil =>
    rcases J.parts with ⟨hl, hr⟩ | ⟨i, is, j, js, hl, hr, hij, -⟩
    · rw [hl, hr]
    · rw [hl, hr]
      exact congrArg some hij
  | cons h _ => exact congrArg some h

theorem divides (J : Junction) {i : Item} {is : List Item} (h : J.left = i :: is) : i.kind.divides = true := by
  rcases J.parts with ⟨hl, -⟩ | ⟨_, _, _, _, hl, -, -, hk⟩
  · cases h.symm.trans hl
  · cases h.symm.trans hl
    exact hk

theorem kind_right (J : Junction) : J.right.kind = J.left.kind := by
  rcases J.parts with ⟨hl, hr⟩ | ⟨i, is, j, js, hl, hr, hij, -⟩
  · rw [hl, hr]
  · rw [hl, hr]
    exact (Item.kind_eq_of_unplaced hij).symm

theorem atBrace_of_nil (h : J.left = []) : J.AtBrace := by
  intro i is hl
  cases h.symm.trans hl

theorem AtBrace.kind (h : J.AtBrace) : J.left.kind = .punct .rightBrace ∨ J.left.kind = .endOfInput := by
  cases hl : J.left with
  | nil => exact .inr rfl
  | cons i is => exact .inl (h i is hl)

theorem AtBrace.ends (h : J.AtBrace) : J.left.kind.endsDeclaration = true := by
  rcases h.kind with hk | hk
  all_goals
    rw [hk]
    rfl

end Junction

/-- The second run has got as far as the first. -/
structure Follows (J : Junction) (p q : Progress) : Prop where
  stream : ∃ is js, Alike is js ∧ p.stream = is ++ J.left ∧ q.stream = js ++ J.right
  selector : q.selector = p.selector
  depth : q.depth = p.depth
  declarations : q.declarations = p.declarations
  rules : q.sheet.rules = J.before.sheet.rules ++ p.sheet.rules
  dropped : q.sheet.dropped = J.before.sheet.dropped ++ p.sheet.dropped
  templates : q.templates = J.before.templates ++ p.templates
  positions : q.positions = J.before.positions ++ p.positions

/-- Both runs end in the same way, one as far as the other. -/
inductive Agree {α : Type} (J : Junction) :
    EStateM.Result SyntaxError Progress α → EStateM.Result SyntaxError Progress α → Prop
  | ok (a : α) {p q : Progress} (h : Follows J p q) : Agree J (.ok a p) (.ok a q)
  | error (e e' : SyntaxError) {p q : Progress} (h : Follows J p q) : Agree J (.error e p) (.error e' q)

namespace Follows

variable {J : Junction} {p q : Progress}

theorem head?_eq (h : Follows J p q) : p.stream.head?.map Item.unplaced = q.stream.head?.map Item.unplaced := by
  obtain ⟨is, js, hs, hp, hq⟩ := h.stream
  rw [hp, hq]
  exact Junction.head?_eq hs

theorem kind_eq (h : Follows J p q) : p.stream.kind = q.stream.kind := by
  have hhead := h.head?_eq
  cases hp : p.stream with
  | nil =>
    cases hq : q.stream with
    | nil => rfl
    | cons j js => simp [hp, hq] at hhead
  | cons i is =>
    cases hq : q.stream with
    | nil => simp [hp, hq] at hhead
    | cons j js =>
      rw [hp, hq] at hhead
      exact Item.kind_eq_of_unplaced (Option.some.inj hhead)

theorem length_lt_iff {p' q' : Progress} (h : Follows J p q) (h' : Follows J p' q') :
    p'.stream.length < p.stream.length ↔ q'.stream.length < q.stream.length := by
  obtain ⟨is, js, hs, hp, hq⟩ := h.stream
  obtain ⟨is', js', hs', hp', hq'⟩ := h'.stream
  have := hs.length_eq
  have := hs'.length_eq
  rw [hp, hq, hp', hq']
  simp only [List.length_append]
  omega

/-- Both runs move on to streams that are alike up to the junction. -/
theorem moved (h : Follows J p q) {is js : List Item} (hs : Alike is js) :
    Follows J { p with stream := is ++ J.left } { q with stream := js ++ J.right } :=
  { h with stream := ⟨is, js, hs, rfl, rfl⟩ }

theorem found (h : Follows J p q) : q.found = J.before.found ++ p.found :=
  Found.mk.injEq .. ▸ ⟨h.rules, h.dropped, h.templates, h.positions⟩

theorem fresh (h : Follows J p q) : Follows J p.fresh q.fresh :=
  { h with selector := rfl, depth := rfl, declarations := rfl }

theorem report (h : Follows J p q) (e e' : SyntaxError) : Follows J (p.report e) (q.report e') :=
  { h with
    dropped := by
      rw [Progress.dropped_report, Progress.dropped_report, h.dropped, h.selector, List.append_assoc] }

theorem declare (h : Follows J p q) (d : Declaration) : Follows J (p.declare d) (q.declare d) :=
  { h with declarations := congrArg (·.add d) h.declarations }

theorem place (h : Follows J p q) {is js : List Item} (hs : Alike is js) : Follows J (p.place is) (q.place js) := by
  have hf : Alike (is.filter (·.kind ≠ .space)) (js.filter (·.kind ≠ .space)) :=
    hs.filter fun i j hij => by rw [Item.kind_eq_of_unplaced hij]
  unfold Progress.place
  revert hf
  generalize is.filter (·.kind ≠ .space) = is
  generalize js.filter (·.kind ≠ .space) = js
  rintro (_ | ⟨hij, _ | _⟩)
  · exact h
  · simp only [Item.name?_eq_of_unplaced hij]
    split
    · exact { h with positions := by rw [← List.append_assoc, ← h.positions, h.selector] }
    · exact h
  · exact h

theorem declarationItems (h : Follows J p q) (hends : J.left.kind.endsDeclaration = true) :
    Alike p.stream.declarationItems q.stream.declarationItems := by
  obtain ⟨is, js, hs, hp, hq⟩ := h.stream
  have hends' : J.right.kind.endsDeclaration = true := J.kind_right ▸ hends
  rw [hp, hq, Stream.declarationItems_append is hends, Stream.declarationItems_append js hends']
  exact hs.declarationItems

theorem skipDeclaration (h : Follows J p q) (hends : J.left.kind.endsDeclaration = true) :
    Follows J { p with stream := p.stream.skipDeclaration } { q with stream := q.stream.skipDeclaration } := by
  obtain ⟨is, js, hs, hp, hq⟩ := h.stream
  have hends' : J.right.kind.endsDeclaration = true := J.kind_right ▸ hends
  rw [hp, hq, Stream.skipDeclaration_append is hends, Stream.skipDeclaration_append js hends']
  exact h.moved hs.skipDeclaration

end Follows

namespace Reader

variable {α β : Type} {J : Junction} {p q : Progress}

/-- A relation that allows both runs to fail holds after agreeing readers if it holds from there on. -/
theorem related_bind {S : EStateM.Result SyntaxError Progress β → EStateM.Result SyntaxError Progress β → Prop}
    {r r' : Reader α} {f f' : α → Reader β} (h : Agree J (r p) (r' q))
    (herror : ∀ {e e' p q}, Follows J p q → S (.error e p) (.error e' q))
    (hf : ∀ {a p q}, Follows J p q → S (f a p) (f' a q)) : S ((r >>= f) p) ((r' >>= f') q) := by
  cases hp : r p with
  | ok a p' =>
    rw [hp] at h
    generalize hq : r' q = y at h
    cases h with
    | ok _ h =>
      rw [bind_of_ok hp, bind_of_ok hq]
      exact hf h
  | error e p' =>
    rw [hp] at h
    generalize hq : r' q = y at h
    cases h with
    | error _ e' h =>
      rw [bind_of_error hp, bind_of_error hq]
      exact herror h

theorem agree_bind {r r' : Reader α} {f f' : α → Reader β} (h : Agree J (r p) (r' q))
    (hf : ∀ {a p q}, Follows J p q → Agree J (f a p) (f' a q)) : Agree J ((r >>= f) p) ((r' >>= f') q) :=
  related_bind h (.error _ _) hf

theorem related_kind {S : EStateM.Result SyntaxError Progress β → EStateM.Result SyntaxError Progress β → Prop}
    {f f' : TokenKind → Reader β} (h : Follows J p q) (hf : ∀ k, k = p.stream.kind → S (f k p) (f' k q)) :
    S ((kind >>= f) p) ((kind >>= f') q) := by
  change S (f p.stream.kind p) (f' q.stream.kind q)
  rw [← h.kind_eq]
  exact hf _ rfl

/-- Two runs move on together, unless they are where their streams part. -/
theorem agree_advance (h : Follows J p q) (hp : J.left ≠ [] → p.stream ≠ J.left) :
    Agree J (advance p) (advance q) := by
  obtain ⟨is, js, hs, hps, hqs⟩ := h.stream
  have htail : ∃ is js, Alike is js ∧ p.stream.tail = is ++ J.left ∧ q.stream.tail = js ++ J.right := by
    cases hs with
    | cons _ hs => exact ⟨_, _, hs, by rw [hps]; rfl, by rw [hqs]; rfl⟩
    | nil =>
      rcases J.parts with ⟨hl, hr⟩ | ⟨i, is, j, js, hl, -⟩
      · exact ⟨[], [], .nil, by rw [hps, hl]; rfl, by rw [hqs, hr]; rfl⟩
      · exact absurd hps (hp (by simp [hl]))
  obtain ⟨is', js', hs', hpt, hqt⟩ := htail
  have hmoved := h.moved hs'
  have hhead := Junction.head?_eq (J := J) hs'
  rw [advance_eq, advance_eq, hpt, hqt]
  generalize is' ++ J.left = s at hmoved hhead
  generalize js' ++ J.right = s' at hmoved hhead
  rcases s with _ | ⟨_ | _, s⟩ <;> rcases s' with _ | ⟨_ | _, s'⟩
  all_goals first
    | exact .ok () hmoved
    | exact .error _ _ hmoved
    | simp [Item.unplaced] at hhead

theorem agree_collect {r r' : Reader (Option α)} (hr : ∀ {p q}, Follows J p q → Agree J (r p) (r' q))
    (h : Follows J p q) : Agree J (collect r p) (collect r' q) := by
  induction hn : p.stream.length using Nat.strong_induction_on generalizing p q with
  | _ n ih =>
    have hpq := hr h
    rw [collect, collect]
    generalize r p = x at hpq
    generalize r' q = y at hpq
    rcases hpq with @⟨a, p', q', h'⟩ | ⟨e, e', h'⟩
    · cases a with
      | none => exact .ok [] h'
      | some a =>
        simp only
        have hlength := h.length_lt_iff h'
        by_cases hlt : p'.stream.length < p.stream.length
        · rw [if_pos hlt, if_pos (hlength.mp hlt)]
          have hrest := ih _ (hn ▸ hlt) h' rfl
          revert hrest
          generalize collect r _ = x
          generalize collect r' _ = y
          rintro (⟨as, h''⟩ | ⟨e, e', h''⟩)
          · exact .ok _ h''
          · exact .error e e' h''
        · rw [if_neg hlt, if_neg (mt hlength.mpr hlt)]
          exact .ok [a] h'
    · exact .error e e' h'

/-- Plain readers agree where what they have to know is so. -/
theorem Plain.agree {P : Option Item → Prop} {r : Reader α} (hr : Plain P r) (h : Follows J p q)
    (hp : P p.stream.head?) : Agree J (r p) (r q) := by
  induction hr generalizing p q with
  | pure a => exact .ok a h
  | fail hf =>
    obtain ⟨e, he⟩ := hf p
    obtain ⟨e', he'⟩ := hf q
    rw [he, he']
    exact .error e e' h
  | look hf hr ih =>
    rename_i f r
    have hfq : f q.stream.head? = f p.stream.head? := by rw [← hf q.stream.head?, ← h.head?_eq, hf]
    have hpq := ih (f p.stream.head?) h ⟨hp, rfl⟩
    change Agree J (r (f p.stream.head?) p) (r (f q.stream.head?) q)
    rwa [hfq]
  | write text hr ih =>
    rename_i r _
    refine ih (p := { p with selector := p.selector ++ text }) (q := { q with selector := q.selector ++ text }) ?_ hp
    exact { h with selector := congrArg (· ++ text) h.selector }
  | advance hdiv =>
    refine agree_advance h fun hl hleft => ?_
    obtain ⟨i, is, hi⟩ := List.exists_cons_of_ne_nil hl
    rw [hleft, hi] at hp
    exact hdiv i hp (J.divides hi)
  | bind hr hs ih ihs => exact agree_bind (ih h hp) fun h' => ihs _ h' trivial
  | collect hr ih => exact agree_collect (fun h' => ih h' trivial) h

theorem Plain.agrees {r : Reader α} (hr : Plain (fun _ => True) r) (h : Follows J p q) : Agree J (r p) (r q) :=
  hr.agree h trivial

/-! ## Declarations -/

variable {registered registered' : ℕ}

/-- Values agree up to the places of their items. -/
theorem agree_value {f f' : List Item → Reader β} (h : Follows J p q) (hends : J.left.kind.endsDeclaration = true)
    (hf : ∀ {is js p q}, Alike is js → Follows J p q → Agree J (f is p) (f' js q)) :
    Agree J ((value >>= f) p) ((value >>= f') q) := by
  have hvalue : ∀ (g : List Item → Reader β) (p : Progress),
      (value >>= g) p = (loop valueItem >>= fun _ => g p.stream.declarationItems) p := by
    intro g p
    simp only [value, bind_assoc, pure_bind]
    rfl
  rw [hvalue, hvalue]
  exact agree_bind ((plain_loop plain_valueItem).agrees h) fun h' => hf (h.declarationItems hends) h'

/-- The second run counts the templates that were registered before it. -/
theorem agree_templateDeclaration (h : Follows J p q) (hends : J.left.kind.endsDeclaration = true)
    (hregistered : registered = registered' + J.before.templates.length) :
    Agree J (templateDeclaration registered p) (templateDeclaration registered' q) := by
  have hcss := (h.declarationItems hends).valueText_eq
  have hcount : registered + p.templates.length = registered' + q.templates.length := by
    rw [h.templates, List.length_append]
    omega
  have hdef := plain_templateDefinition.agrees h
  unfold templateDeclaration
  rw [hcss, hcount]
  generalize templateDefinition p = x at hdef
  generalize templateDefinition q = y at hdef
  rcases hdef with @⟨⟨rows, widths⟩, p', q', h'⟩ | ⟨e, e', h'⟩
  · simp only [h'.selector]
    split
    · exact .ok () (h'.report _ _)
    · refine .ok () (Follows.declare ?_ _)
      exact { h' with selector := rfl, templates := by rw [← List.append_assoc, ← h'.templates] }
  · exact .ok () ((h'.report e e').skipDeclaration hends)

theorem agree_modify {f f' : Progress → Progress} (h : Follows J (f p) (f' q)) :
    Agree J ((modify f : Reader Unit) p) ((modify f' : Reader Unit) q) := .ok () h

theorem agree_declaration (h : Follows J p q) (hends : J.left.kind.endsDeclaration = true)
    (hregistered : registered = registered' + J.before.templates.length) :
    Agree J (declaration registered p) (declaration registered' q) := by
  refine agree_bind (plain_property.agrees h) fun {name _ _} h => related_kind h fun k _ => ?_
  simp only
  split
  · exact agree_templateDeclaration h hends hregistered
  · refine agree_value h hends fun {is js _ _} hs h => ?_
    rw [hs.valueText_eq]
    split_ifs
    · exact agree_bind (agree_modify (h.place hs)) fun h => agree_modify (h.declare _)
    · exact agree_modify (h.declare _)

/-! ## Rules -/

/-- Both runs are where their streams part. -/
structure AtJunction (J : Junction) (p q : Progress) : Prop where
  follows : Follows J p q
  parts : J.left ≠ []
  left : p.stream = J.left
  right : q.stream = J.right

/-- Both runs agree, or are where their streams part and go on from there. -/
def AgreeOrClose (J : Junction) (close : Reader α) (x y : EStateM.Result SyntaxError Progress α) : Prop :=
  Agree J x y ∨ ∃ p q, AtJunction J p q ∧ x = close p ∧ y = close q

theorem agreeOrClose_bind {close : Reader β} {r r' : Reader α} {f f' : α → Reader β} (h : Agree J (r p) (r' q))
    (hf : ∀ {a p q}, Follows J p q → AgreeOrClose J close (f a p) (f' a q)) :
    AgreeOrClose J close ((r >>= f) p) ((r' >>= f') q) :=
  related_bind h (fun h => .inl (.error _ _ h)) hf

theorem AgreeOrClose.bind {close : Reader α} {r r' : Reader α} {f : α → Reader β}
    (h : AgreeOrClose J close (r p) (r' q)) (hf : ∀ {a p q}, Follows J p q → Agree J (f a p) (f a q)) :
    AgreeOrClose J (close >>= f) ((r >>= f) p) ((r' >>= f) q) := by
  rcases h with h | ⟨p', q', hat, hp, hq⟩
  · exact .inl (agree_bind h hf)
  · refine .inr ⟨p', q', hat, ?_, ?_⟩
    · change EStateM.bind r f p = EStateM.bind close f p'
      unfold EStateM.bind
      rw [hp]
    · change EStateM.bind r' f q = EStateM.bind close f q'
      unfold EStateM.bind
      rw [hq]

/-- The runs move on together from an item of another kind than the one where their streams part. -/
theorem agree_advance_of_kind {k : TokenKind} (h : Follows J p q) (hk : k = p.stream.kind) (hne : k ≠ J.left.kind) :
    Agree J (advance p) (advance q) :=
  agree_advance h fun _ hleft => hne (hk.trans (congrArg Stream.kind hleft))

theorem agree_expect {k : TokenKind} (expected : String) (h : Follows J p q) (hne : k ≠ J.left.kind) :
    Agree J (expect k expected p) (expect k expected q) := by
  refine related_kind h fun k' hk => ?_
  split_ifs with heq
  · exact agree_advance_of_kind h hk (heq ▸ hne)
  · exact (plain_unexpected _).agrees h

/-- Either both runs move on together, or they do it where their streams part. -/
theorem agreeOrClose_advance (h : Follows J p q) (b : Bool) :
    Agree J ((do advance; return b : Reader Bool) p) ((do advance; return b : Reader Bool) q) ∨
      AtJunction J p q := by
  by_cases hat : J.left ≠ [] ∧ p.stream = J.left
  · obtain ⟨is, js, hs, hp, hq⟩ := h.stream
    refine .inr ⟨h, hat.1, hat.2, ?_⟩
    rw [hat.2, List.self_eq_append_left] at hp
    subst hp
    cases hs
    exact hq
  · exact .inl (agree_bind (agree_advance h fun hl => not_and.mp hat hl) fun h => .ok _ h)

/-- Where the streams part the block is closed or goes on. -/
theorem agreeOrClose_blockItem (h : Follows J p q) (hends : J.left.kind.endsDeclaration = true)
    (hregistered : registered = registered' + J.before.templates.length) :
    AgreeOrClose J (do advance; return decide (J.left.kind ≠ .punct .rightBrace)) (blockItem registered p)
      (blockItem registered' q) := by
  refine agreeOrClose_bind ((plain_discard plain_skipSpace).agrees h) fun {_ p q} h => related_kind h fun k hk => ?_
  split
  · rcases agreeOrClose_advance h false with hagree | hat
    · exact .inl hagree
    · refine .inr ⟨p, q, hat, ?_, ?_⟩ <;> simp [← hat.left, ← hk]
  · rcases agreeOrClose_advance h true with hagree | hat
    · exact .inl hagree
    · refine .inr ⟨p, q, hat, ?_, ?_⟩ <;> simp [← hat.left, ← hk]
  · exact .inl (.ok _ h)
  · exact .inl (agree_bind (agree_declaration h hends hregistered) fun h => .ok _ h)

theorem agreeOrClose_blockItem_of_brace (h : Follows J p q) (hbrace : J.AtBrace)
    (hregistered : registered = registered' + J.before.templates.length) :
    AgreeOrClose J (do advance; return false) (blockItem registered p) (blockItem registered' q) := by
  rcases agreeOrClose_blockItem h hbrace.ends hregistered with hagree | ⟨p', q', hat, hp, hq⟩
  · exact .inl hagree
  · have hk : J.left.kind = .punct .rightBrace := by
      obtain ⟨i, is, hl⟩ := List.exists_cons_of_ne_nil hat.parts
      rw [hl]
      exact hbrace i is hl
    simp only [hk, ne_eq, not_true, decide_false] at hp hq
    exact .inr ⟨p', q', hat, hp, hq⟩

theorem loop_of_close {r : Reader Bool} {p p' : Progress} (h : r p = (do advance; return false) p') :
    loop r p = advance p' := by
  rw [loop_eq, h]
  cases ha : advance p' with
  | ok _ q => rw [bind_of_ok ha]; rfl
  | error e q => rw [bind_of_error ha]

theorem agreeOrClose_loop {r r' : Reader Bool}
    (hr : ∀ {p q}, Follows J p q → AgreeOrClose J (do advance; return false) (r p) (r' q)) (h : Follows J p q) :
    AgreeOrClose J advance (loop r p) (loop r' q) := by
  induction hn : p.stream.length using Nat.strong_induction_on generalizing p q with
  | _ n ih =>
    rcases hr h with hpq | ⟨p', q', hat, hp, hq⟩
    · rw [loop_eq r p, loop_eq r' q]
      generalize r p = x at hpq
      generalize r' q = y at hpq
      rcases hpq with @⟨a, p', q', h'⟩ | ⟨e, e', h'⟩
      · cases a with
        | false => exact .inl (.ok () h')
        | true =>
          simp only
          have hlength := h.length_lt_iff h'
          by_cases hlt : p'.stream.length < p.stream.length
          · rw [if_pos hlt, if_pos (hlength.mp hlt)]
            exact ih _ (hn ▸ hlt) h' rfl
          · rw [if_neg hlt, if_neg (mt hlength.mpr hlt)]
            exact .inl (.ok () h')
      · exact .inl (.error e e' h')
    · exact .inr ⟨p', q', hat, loop_of_close hp, loop_of_close hq⟩

/-- The end of a rule at the brace that closes its block. -/
def closeRule : Reader Rule := do
  advance
  return ⟨(← get).selector, (← get).declarations⟩

theorem agree_result (h : Follows J p q) :
    Agree J ((do return ⟨(← get).selector, (← get).declarations⟩ : Reader Rule) p)
      ((do return ⟨(← get).selector, (← get).declarations⟩ : Reader Rule) q) := by
  change Agree J (.ok (Rule.mk p.selector p.declarations) p) (.ok (Rule.mk q.selector q.declarations) q)
  rw [h.selector, h.declarations]
  exact .ok _ h

theorem agreeOrClose_rule (h : Follows J p q) (hbrace : J.AtBrace)
    (hregistered : registered = registered' + J.before.templates.length) :
    AgreeOrClose J closeRule (rule registered p) (rule registered' q) := by
  have hopening : .punct .leftBrace ≠ J.left.kind := by
    rcases hbrace.kind with hleft | hleft <;> simp [hleft]
  refine agreeOrClose_bind (plain_selectors.agrees h) fun h => ?_
  refine agreeOrClose_bind (agree_expect _ h hopening) fun {_ p q} h => ?_
  have hdepth : Follows J { p with depth := 1 } { q with depth := 1 } := { h with depth := rfl }
  refine agreeOrClose_bind (agree_modify hdepth) fun h => ?_
  exact (agreeOrClose_loop (fun h => agreeOrClose_blockItem_of_brace h hbrace hregistered) h).bind agree_result

/-- A run skips an at-rule that goes on behind the item where the streams part. -/
def SkipsJunction (J : Junction) (x : EStateM.Result SyntaxError Progress (Option Rule)) : Prop :=
  J.left ≠ [] ∧ ∃ (depth : ℕ) (q : Progress), q.stream = J.left.skipAtRule depth ∧ x = .ok none q

/-- Both runs read the same rule or fail with it, unless they skip past the junction. -/
theorem agreeOrClose_rule? (h : Follows J p q) (hbrace : J.AtBrace)
    (hregistered : registered = registered' + J.before.templates.length) :
    AgreeOrClose J (do return some (← closeRule)) (rule? registered p) (rule? registered' q) ∨
      SkipsJunction J (rule? registered p) := by
  refine related_bind (S := fun x y => AgreeOrClose J (do return some (← closeRule)) x y ∨ SkipsJunction J x)
    (plain_skipNoise.agrees h) (fun h => .inl (.inl (.error _ _ h))) fun {_ p q} h => ?_
  refine related_kind (S := fun x y => AgreeOrClose J (do return some (← closeRule)) x y ∨ SkipsJunction J x)
    h fun k _ => ?_
  split
  · exact .inl (.inl (.ok none h))
  · obtain ⟨is, js, hs, hp, hq⟩ := h.stream
    rcases Stream.skipAtRule_append hs 0 with ⟨is', js', hs', hskip⟩ | ⟨depth, hskip⟩
    · obtain ⟨hleft, hright⟩ := hskip J.left J.right
      rw [← hp] at hleft
      rw [← hq] at hright
      exact .inl (.inl (.ok none { h with stream := ⟨is', js', hs', hleft, hright⟩ }))
    · obtain ⟨hleft, hright⟩ := hskip J.left J.right
      rw [← hp] at hleft
      rw [← hq] at hright
      rcases J.parts with ⟨hl, hr⟩ | ⟨_, _, _, _, hl, -⟩
      · rw [hl] at hleft
        rw [hr] at hright
        refine .inl (.inl (.ok none { h with stream := ⟨[], [], .nil, ?_, ?_⟩ }))
        · rw [hl]
          exact hleft
        · rw [hr]
          exact hright
      · exact .inr ⟨by simp [hl], depth, _, hleft, rfl⟩
  · exact .inl ((agreeOrClose_rule h hbrace hregistered).bind fun h => .ok _ h)

end Reader

namespace Progress

variable {J : Junction} {p q : Progress} {registered registered' : ℕ}

/-- What a step makes of a rule that was read. -/
def conclude : EStateM.Result SyntaxError Progress (Option Rule) → Progress
  | .ok (some r) q => { q with sheet.rules := q.sheet.rules ++ [r] }
  | .ok none q => q
  | .error e q => (q.report e).recover

theorem follows_conclude {x y : EStateM.Result SyntaxError Progress (Option Rule)} (h : Agree J x y)
    (hl : J.left = []) : Follows J (conclude x) (conclude y) := by
  have hr : J.right = [] := by
    rcases J.parts with ⟨-, hr⟩ | ⟨_, _, _, _, hcons, -⟩
    · exact hr
    · rw [hl] at hcons
      cases hcons
  rcases h with @⟨r, p', q', h'⟩ | @⟨e, e', p', q', h'⟩
  · cases r with
    | none => exact h'
    | some r =>
      refine { h' with rules := ?_ }
      change q'.sheet.rules ++ [r] = J.before.sheet.rules ++ (p'.sheet.rules ++ [r])
      rw [← List.append_assoc, ← h'.rules]
  · obtain ⟨is, js, hs, hp, hq⟩ := h'.stream
    rw [hl, List.append_nil] at hp
    rw [hr, List.append_nil] at hq
    have hskip := hs.skipRule p'.depth
    rw [← hp, ← hq] at hskip
    refine { h'.report e e' with stream := ⟨_, _, hskip, ?_, ?_⟩, depth := rfl }
    · rw [hl, List.append_nil]
      rfl
    · rw [hr, List.append_nil, ← h'.depth]
      rfl

/-- Runs over streams that never part stay together from rule to rule. -/
theorem follows_step (h : Follows J p q) (hl : J.left = [])
    (hregistered : registered = registered' + J.before.templates.length) :
    Follows J (p.step registered) (q.step registered') := by
  rcases Reader.agreeOrClose_rule? h.fresh (Junction.atBrace_of_nil hl) hregistered with (hpq | ⟨_, _, hat, -⟩) | ⟨hparts, -⟩
  · exact follows_conclude hpq hl
  · exact absurd hl hat.parts
  · exact absurd hl hparts

theorem follows_finish (h : Follows J p q) (hl : J.left = [])
    (hregistered : registered = registered' + J.before.templates.length) :
    Follows J (p.finish registered) (q.finish registered') := by
  induction hn : p.stream.length using Nat.strong_induction_on generalizing p q with
  | _ n ih =>
    have hstep := follows_step h hl hregistered
    have hlength := h.length_lt_iff hstep
    rw [finish.eq_def registered p, finish.eq_def registered' q]
    by_cases hlt : (p.step registered).stream.length < p.stream.length
    · rw [if_pos hlt, if_pos (hlength.mp hlt)]
      exact ih _ (hn ▸ hlt) hstep rfl
    · rw [if_neg hlt, if_neg (mt hlength.mpr hlt)]
      exact hstep

end Progress

end SlotGrid.Style
