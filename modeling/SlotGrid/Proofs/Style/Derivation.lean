import SlotGrid.Proofs.Style.Grammar
import SlotGrid.Proofs.Style.Registrations
import SlotGrid.Proofs.Style.Spelling

/-! # Derivations of selectors that are read

What the readers of selectors pass is derived by the tree whose text they write.
-/

namespace SlotGrid.Style

/-- The sign of punctuation is its character. -/
def Item.Spelled (i : Item) : Prop :=
  ∀ m, i.kind = .punct m → ∃ c, i.lexeme = [c] ∧ TokenKind.ofChar? c = some (.punct m)

theorem Stream.kind_dropWhile_space (s : Stream) : Stream.kind (s.dropWhile (·.kind = .space)) ≠ .space := by
  have hhead := List.head?_dropWhile_not (fun i : Item => decide (i.kind = .space)) s
  cases hs : s.dropWhile (·.kind = .space) with
  | nil => nofun
  | cons i t =>
    rw [hs] at hhead
    exact of_decide_eq_false (p := i.kind = .space) (by simpa using hhead)

namespace Reader

open Grammar

variable {α : Type} {p q r : Progress}

/-- Items have been passed, and a text has been added to the selector. -/
structure Reads (p q : Progress) (is : List Item) (text : String) : Prop where
  stream : p.stream = is ++ q.stream
  selector : q.selector = p.selector ++ text

namespace Reads

theorem refl (p : Progress) : Reads p p [] "" := ⟨rfl, String.append_empty.symm⟩

theorem trans {is js : List Item} {s t : String} (h : Reads p q is s) (h' : Reads q r js t) :
    Reads p r (is ++ js) (s ++ t) :=
  ⟨by rw [h.stream, h'.stream, List.append_assoc], by rw [h'.selector, h.selector, String.append_assoc]⟩

/-- The same in another form. -/
theorem cast {is js : List Item} {s t : String} (h : Reads p q is s) (his : is = js) (hs : s = t) : Reads p q js t :=
  his ▸ hs ▸ h

theorem spelled {is : List Item} {text : String} (h : Reads p q is text) (hp : ∀ i ∈ p.stream, i.Spelled) :
    ∀ i ∈ q.stream, i.Spelled := by
  intro i hi
  refine hp i ?_
  rw [h.stream]
  exact List.mem_append_right is hi

theorem of_moved {is : List Item} (h : p.Moved q) (hs : p.stream = is ++ q.stream) : Reads p q is "" :=
  ⟨hs, (congrArg Progress.selector h).trans String.append_empty.symm⟩

theorem write (p : Progress) (text : String) : Reads p { p with selector := p.selector ++ text } [] text := ⟨rfl, rfl⟩

end Reads

/-! ## Single items -/

section Looks

variable {β : Type}

theorem bind_write (text : String) (f : Unit → Reader β) (p : Progress) :
    (write text >>= f) p = f () { p with selector := p.selector ++ text } := rfl

theorem bind_kind (f : TokenKind → Reader β) (p : Progress) : (kind >>= f) p = f p.stream.kind p := rfl

theorem bind_name? (f : Option String → Reader β) (p : Progress) :
    (name? >>= f) p = f (p.stream.head?.bind Item.name?) p := rfl

theorem bind_lexeme (f : List Char → Reader β) (p : Progress) :
    (lexeme >>= f) p = f (p.stream.head?.elim [] Item.lexeme) p := rfl

end Looks

theorem reads_advance_item {a : Unit} {i : Item} (h : advance p = .ok a q) (hi : p.stream.head? = some i) :
    Reads p q [i] "" := by
  obtain ⟨rfl, -⟩ := advance_eq_ok.mp h
  exact ⟨(List.cons_head?_tail hi).symm, String.append_empty.symm⟩

theorem reads_advance {k : TokenKind} {a : Unit} (h : advance p = .ok a q) (hk : p.stream.kind = k)
    (hne : k ≠ .endOfInput) : ∃ i, i.kind = k ∧ Reads p q [i] "" := by
  cases hs : p.stream with
  | nil =>
    rw [hs] at hk
    exact absurd hk.symm hne
  | cons i s =>
    rw [hs] at hk
    exact ⟨i, hk, reads_advance_item h (by rw [hs]; rfl)⟩

theorem reads_advance_word {name : String} {a : Unit} (h : advance p = .ok a q)
    (hname : p.stream.head?.bind Item.name? = some name) :
    ∃ i w, i.word? = some w ∧ w.written = name ∧ Reads p q [i] "" := by
  obtain ⟨i, hi, hname⟩ := Option.bind_eq_some_iff.mp hname
  rw [Item.name?_eq_word?] at hname
  obtain ⟨w, hw, hwritten⟩ := Option.map_eq_some_iff.mp hname
  exact ⟨i, w, hw, hwritten, reads_advance_item h hi⟩

theorem reads_expect {k : TokenKind} {expected : String} {a : Unit} (h : expect k expected p = .ok a q)
    (hne : k ≠ .endOfInput) : ∃ i, i.kind = k ∧ Reads p q [i] "" := by
  obtain ⟨i, hi, hs⟩ := expect_eq_ok h hne
  exact ⟨i, hi, .of_moved ((moved_expect k expected).of_ok h) hs⟩

theorem reads_expectName {expected name : String} (h : expectName expected p = .ok name q) :
    ∃ i w, i.word? = some w ∧ w.written = name ∧ Reads p q [i] "" := by
  obtain ⟨i, hname, hs⟩ := expectName_eq_ok h
  rw [Item.name?_eq_word?] at hname
  obtain ⟨w, hw, hwritten⟩ := Option.map_eq_some_iff.mp hname
  exact ⟨i, w, hw, hwritten, .of_moved ((moved_expectName expected).of_ok h) hs⟩

/-! ## Repeated reading -/

theorem collect_of_none {r : Reader (Option α)} (h : r p = .ok none q) : collect r p = .ok [] q := by
  rw [collect, h]

theorem collect_of_some {r : Reader (Option α)} {a : α} {p' : Progress} {bs : List α} (hr : r p = .ok (some a) p')
    (h : collect r p = .ok bs q) :
    (¬ p'.stream.length < p.stream.length ∧ bs = [a] ∧ q = p') ∨
      p'.stream.length < p.stream.length ∧ ∃ as, bs = a :: as ∧ collect r p' = .ok as q := by
  rw [collect, hr] at h
  simp only at h
  split_ifs at h with hlt
  · cases hc : collect r p' with
    | error e q' =>
      rw [hc] at h
      cases h
    | ok as q' =>
      rw [hc] at h
      cases h
      exact .inr ⟨hlt, as, rfl, rfl⟩
  · cases h
    exact .inl ⟨hlt, rfl, rfl⟩

theorem collect_of_ok {r : Reader (Option α)} {motive : List α → Progress → Prop}
    (hsome : ∀ as p a q, motive as p → r p = .ok (some a) q → motive (as ++ [a]) q)
    (hnone : ∀ as p q, motive as p → r p = .ok none q → motive as q) {as bs : List α}
    (h : collect r p = .ok bs q) (hp : motive as p) : motive (as ++ bs) q := by
  induction hn : p.stream.length using Nat.strong_induction_on generalizing p as bs with
  | _ n ih =>
    cases hr : r p with
    | error e p' =>
      rw [collect, hr] at h
      cases h
    | ok a p' =>
      cases a with
      | none =>
        rw [collect_of_none hr] at h
        cases h
        rw [List.append_nil]
        exact hnone as p q hp hr
      | some a =>
        have hp' := hsome as p a p' hp hr
        rcases collect_of_some hr h with ⟨-, rfl, rfl⟩ | ⟨hlt, cs, rfl, hc⟩
        · exact hp'
        · rw [List.append_cons]
          exact ih _ (hn ▸ hlt) hc hp' rfl

theorem loop_of_ok {r : Reader Bool} {motive : Progress → Prop}
    (hstep : ∀ p b q, motive p → r p = .ok b q → motive q) {a : Unit} (h : loop r p = .ok a q) (hp : motive p) :
    motive q := by
  induction hn : p.stream.length using Nat.strong_induction_on generalizing p with
  | _ n ih =>
    rw [loop_eq] at h
    cases hr : r p with
    | error e p' =>
      rw [hr] at h
      cases h
    | ok b p' =>
      have hp' := hstep p b p' hp hr
      rw [hr] at h
      cases b with
      | false =>
        cases h
        exact hp'
      | true =>
        simp only at h
        split_ifs at h with hlt
        · exact ih _ (hn ▸ hlt) h hp' rfl
        · cases h
          exact hp'

/-! ## Spaces -/

theorem skipSpace_of_not_space (h : p.stream.kind ≠ .space) : skipSpace p = .ok false p := by
  unfold skipSpace
  rw [bind_of_ok (collect_of_none (q := p) (by rw [bind_kind, if_neg h]; rfl))]
  rfl

theorem skipSpace_of_space {b : Bool} (h : p.stream.kind = .space) (hskip : skipSpace p = .ok b q) :
    b = true ∧ ∃ p' b', advance p = .ok () p' ∧ skipSpace p' = .ok b' q := by
  unfold skipSpace at hskip
  obtain ⟨as, q', hcollect, hskip⟩ := bind_eq_ok.mp hskip
  cases hskip
  cases hadvance : advance p with
  | error e p' =>
    rw [collect, bind_kind, if_pos h, bind_of_error hadvance] at hcollect
    cases hcollect
  | ok _ p' =>
    have hread : (kind >>= fun k => if k = .space then advance >>= fun _ => pure (some ()) else pure none) p =
        .ok (some ()) p' := by
      rw [bind_kind, if_pos h, bind_of_ok hadvance]
      rfl
    rcases collect_of_some hread hcollect with ⟨hlt, -, -⟩ | ⟨-, bs, rfl, hrest⟩
    · refine absurd ?_ hlt
      rw [(advance_eq_ok.mp hadvance).1]
      cases hs : p.stream with
      | nil =>
        rw [hs] at h
        cases h
      | cons i s => exact Nat.lt_succ_self _
    · refine ⟨rfl, p', !bs.isEmpty, rfl, ?_⟩
      unfold skipSpace
      rw [bind_of_ok hrest]
      rfl

/-- Spaces are passed up to the first item of another kind. -/
theorem skipSpace_eq_ok {b : Bool} (h : skipSpace p = .ok b q) :
    q = { p with stream := p.stream.dropWhile (·.kind = .space) } ∧ (b = true → p.stream.kind = .space) := by
  induction hs : p.stream generalizing p b with
  | nil =>
    rw [skipSpace_of_not_space (by rw [hs]; nofun)] at h
    cases h
    exact ⟨by rw [List.dropWhile_nil, ← hs], nofun⟩
  | cons i s ih =>
    have hkind : p.stream.kind = i.kind := by rw [hs]; rfl
    by_cases hi : i.kind = .space
    · obtain ⟨rfl, p', b', hadvance, hskip⟩ := skipSpace_of_space (hkind.trans hi) h
      obtain ⟨rfl, -⟩ := advance_eq_ok.mp hadvance
      refine ⟨?_, fun _ => hi⟩
      rw [(ih hskip (by rw [hs]; rfl)).1, List.dropWhile_cons_of_pos (by simpa using hi)]
    · rw [skipSpace_of_not_space (by rwa [hkind])] at h
      cases h
      rw [List.dropWhile_cons_of_neg (by simpa using hi), ← hs]
      exact ⟨rfl, nofun⟩

theorem reads_skipSpace {b : Bool} (h : skipSpace p = .ok b q) :
    ∃ s, Spaces s ∧ (b = true → s ≠ []) ∧ Reads p q s "" := by
  obtain ⟨rfl, hb⟩ := skipSpace_eq_ok h
  refine ⟨p.stream.takeWhile (·.kind = .space), ?_, ?_, ?_, String.append_empty.symm⟩
  · intro i hi
    simpa using List.mem_takeWhile_imp hi
  · intro hb' hnil
    cases hs : p.stream with
    | nil =>
      rw [hs] at hb
      cases hb hb'
    | cons i s =>
      have hi : i.kind = .space := by
        rw [hs] at hb
        exact hb hb'
      rw [hs, List.takeWhile_cons_of_pos (by simpa using hi)] at hnil
      cases hnil
  · exact List.takeWhile_append_dropWhile.symm

theorem kind_ne_space_of_skipSpace {b : Bool} (h : skipSpace p = .ok b q) : q.stream.kind ≠ .space := by
  obtain ⟨rfl, -⟩ := skipSpace_eq_ok h
  exact p.stream.kind_dropWhile_space

theorem reads_discard_skipSpace {a : Unit} (h : discard skipSpace p = .ok a q) :
    ∃ s, Spaces s ∧ Reads p q s "" := by
  obtain ⟨b, p', hskip, h⟩ := bind_eq_ok.mp (show (skipSpace >>= fun _ => pure ()) p = .ok a q from h)
  cases h
  obtain ⟨s, hs, -, hreads⟩ := reads_skipSpace hskip
  exact ⟨s, hs, hreads⟩

/-- Each repetition passes what one more member of a list derives, and adds its text. -/
theorem reads_collect {β : Type} {D : List β → List Item → Prop} (text : List β → String) {r : Reader (Option α)}
    (hnil : D [] [] ∧ text [] = "")
    (hr : ∀ p o q, r p = .ok o q → (o.isSome = true ∧ ∃ x js t, Reads p q js t ∧
      ∀ xs is, D xs is → D (xs ++ [x]) (is ++ js) ∧ text (xs ++ [x]) = text xs ++ t) ∨ o = none ∧ q = p)
    {as : List α} (h : collect r p = .ok as q) :
    ∃ xs is, (xs = [] ↔ as = []) ∧ D xs is ∧ Reads p q is (text xs) := by
  change ∃ xs is, (xs = [] ↔ [] ++ as = []) ∧ D xs is ∧ Reads p q is (text xs)
  refine collect_of_ok (motive := fun as q => ∃ xs is, (xs = [] ↔ as = []) ∧ D xs is ∧ Reads p q is (text xs))
    ?_ ?_ h ?_
  · rintro as p' a q' ⟨xs, is, -, hxs, hreads⟩ h
    obtain ⟨-, x, js, t, hreads', hx⟩ := (hr p' _ q' h).resolve_right nofun
    obtain ⟨hxs', htext⟩ := hx xs is hxs
    exact ⟨xs ++ [x], is ++ js, by simp, hxs', (hreads.trans hreads').cast rfl htext.symm⟩
  · rintro as p' q' hmotive h
    obtain ⟨-, rfl⟩ := (hr p' none q' h).resolve_left nofun
    exact hmotive
  · exact ⟨[], [], iff_of_true rfl rfl, hnil.1, (Reads.refl p).cast rfl hnil.2.symm⟩

/-! ## Compounds -/

theorem reads_typeOrUniversal {b : Bool} (h : typeOrUniversal p = .ok b q) :
    (b = true ∧ ∃ t i, TypeName.Derives t i ∧ Reads p q [i] t.text) ∨ b = false ∧ q = p := by
  unfold typeOrUniversal at h
  rw [bind_name?] at h
  generalize hfound : p.stream.head?.bind Item.name? = found at h
  cases found with
  | some name =>
    dsimp only at h
    rw [bind_write] at h
    obtain ⟨_, p₁, hadvance, h⟩ := bind_eq_ok.mp h
    cases h
    obtain ⟨i, w, hw, hwritten, hreads⟩ := reads_advance_word hadvance hfound
    refine .inl ⟨rfl, .named w, i, .named hw, ((Reads.write p _).trans hreads).cast rfl ?_⟩
    rw [String.append_empty, ← hwritten]
    rfl
  | none =>
    dsimp only at h
    rw [bind_kind] at h
    split_ifs at h with hk
    · rw [bind_write] at h
      obtain ⟨_, p₁, hadvance, h⟩ := bind_eq_ok.mp h
      cases h
      obtain ⟨i, hi, hreads⟩ := reads_advance hadvance hk nofun
      exact .inl ⟨rfl, .universal, i, .universal hi, ((Reads.write p _).trans hreads).cast rfl String.append_empty⟩
    · cases h
      exact .inr ⟨rfl, rfl⟩

theorem lexeme_of_reads {i : Item} {is : List Item} {text : String} (h : Reads p q (i :: is) text) :
    p.stream.head?.elim [] Item.lexeme = i.lexeme := by
  rw [h.stream]
  rfl

theorem reads_attributeValue {a : Unit} {k : TokenKind} (hk : p.stream.kind = k) (hmatcher : k.isMatcher = true)
    (h : attributeValue p = .ok a q) :
    ∃ operator s v j t, operator.kind = k ∧ Spaces s ∧ Operand.Derives v j ∧ Spaces t ∧
      Reads p q (operator :: s ++ j :: t) (.ofList operator.lexeme ++ v.text) := by
  unfold attributeValue at h
  rw [bind_lexeme, writeChars, bind_write] at h
  obtain ⟨_, p₁, hadvance, h⟩ := bind_eq_ok.mp h
  obtain ⟨_, p₂, hskip, h⟩ := bind_eq_ok.mp h
  rw [bind_kind] at h
  obtain ⟨operator, hoperator, hreads₁⟩ := reads_advance hadvance hk (by rintro rfl; cases hmatcher)
  obtain ⟨s, hs, hreads₂⟩ := reads_discard_skipSpace hskip
  have hlexeme : p.stream.head?.elim [] Item.lexeme = operator.lexeme := (lexeme_of_reads hreads₁ :)
  rw [hlexeme] at hreads₁
  have hreads : Reads p p₂ (operator :: s) (.ofList operator.lexeme) :=
    ((Reads.write p _).trans (hreads₁.trans hreads₂)).cast rfl (by simp)
  suffices hoperand : ∃ v j t, Operand.Derives v j ∧ Spaces t ∧ Reads p₂ q (j :: t) v.text by
    obtain ⟨v, j, t, hj, ht, hreads'⟩ := hoperand
    exact ⟨operator, s, v, j, t, hoperator, hs, hj, ht, hreads.trans hreads'⟩
  generalize hk' : p₂.stream.kind = k' at h
  split at h
  · rename_i value
    rw [bind_write, bind_write, bind_write] at h
    obtain ⟨_, p₃, hadvance, h⟩ := bind_eq_ok.mp h
    obtain ⟨j, hj, hreads₃⟩ := reads_advance hadvance hk' nofun
    obtain ⟨t, ht, hreads₄⟩ := reads_discard_skipSpace h
    refine ⟨.quoted value, j, t, .quoted hj, ht, ?_⟩
    exact ((Reads.write p₂ "\"").trans <| (Reads.write _ value).trans <| (Reads.write _ "\"").trans <|
      hreads₃.trans hreads₄).cast rfl (by simp [Operand.text, String.append_assoc])
  · obtain ⟨name, p₃, hname, h⟩ := bind_eq_ok.mp h
    rw [bind_write] at h
    obtain ⟨j, w, hw, rfl, hreads₃⟩ := reads_expectName hname
    obtain ⟨t, ht, hreads₄⟩ := reads_discard_skipSpace h
    refine ⟨.word w, j, t, .word hw, ht, ?_⟩
    exact (hreads₃.trans <| (Reads.write _ w.written).trans hreads₄).cast rfl (by simp [Operand.text])

/-- A closing sign is expected and written. -/
theorem reads_close {k : TokenKind} {expected text : String} {a : Unit}
    (h : (expect k expected >>= fun _ => write text) p = .ok a q) (hne : k ≠ .endOfInput) :
    ∃ i, i.kind = k ∧ Reads p q [i] text := by
  obtain ⟨_, p₁, hexpect, h⟩ := bind_eq_ok.mp h
  cases h
  obtain ⟨i, hi, hreads⟩ := reads_expect hexpect hne
  exact ⟨i, hi, (hreads.trans (Reads.write p₁ text)).cast rfl String.empty_append⟩

theorem reads_attributeTest {a : Unit} (hk : p.stream.kind = .delim '[') (h : attributeTest p = .ok a q) :
    ∃ x is, Qualifier.Derives x is ∧ Reads p q is x.text := by
  unfold attributeTest at h
  obtain ⟨_, p₁, hadvance, h⟩ := bind_eq_ok.mp h
  rw [bind_write] at h
  obtain ⟨_, p₂, hskip, h⟩ := bind_eq_ok.mp h
  obtain ⟨name, p₃, hname, h⟩ := bind_eq_ok.mp h
  rw [bind_write] at h
  obtain ⟨_, p₄, hskip', h⟩ := bind_eq_ok.mp h
  rw [bind_kind] at h
  obtain ⟨opening, hopening, hreads₁⟩ := reads_advance hadvance hk nofun
  obtain ⟨s, hs, hreads₂⟩ := reads_discard_skipSpace hskip
  obtain ⟨i, w, hi, hwritten, hreads₃⟩ := reads_expectName hname
  obtain ⟨t, ht, hreads₄⟩ := reads_discard_skipSpace hskip'
  have hreads : Reads p p₄ (opening :: s ++ i :: t) ("[" ++ w.written) := by
    rw [hwritten]
    exact (hreads₁.trans <| (Reads.write _ "[").trans <| hreads₂.trans <| hreads₃.trans <|
      (Reads.write _ name).trans hreads₄).cast (by simp) (by simp)
  dsimp only at h
  split_ifs at h with hmatcher
  · obtain ⟨_, p₅, hvalue, h⟩ := bind_eq_ok.mp h
    obtain ⟨operator, s', v, j, t', hoperator, hs', hj, ht', hreads₅⟩ := reads_attributeValue rfl hmatcher hvalue
    obtain ⟨closing, hclosing, hreads₆⟩ := reads_close h nofun
    refine ⟨_, _, .test hopening hs hi ht (hoperator ▸ hmatcher) hs' hj ht' hclosing, ?_⟩
    exact (hreads.trans (hreads₅.trans hreads₆)).cast (by simp) (by simp [Qualifier.text, String.append_assoc])
  · obtain ⟨closing, hclosing, hreads₅⟩ := reads_close h nofun
    refine ⟨_, _, .attr hopening hs hi ht hclosing, ?_⟩
    exact (hreads.trans hreads₅).cast (by simp) (by simp [Qualifier.text, String.append_assoc])

theorem bind_isTerm {β : Type} (f : Bool → Reader β) (p : Progress) :
    (isTerm >>= f) p = f (termAt p.stream.head?) p := by
  rw [isTerm_eq_look]
  rfl

theorem reads_term {o : Option Unit} (h : (do
      if ← isTerm then
        writeChars (← lexeme)
        advance
        discard skipSpace
        return some ()
      else return none : Reader (Option Unit)) p = .ok o q) :
    (o.isSome = true ∧ ∃ i s, termAt (some i) = true ∧ Spaces s ∧ Reads p q (i :: s) (.ofList i.lexeme)) ∨
      o = none ∧ q = p := by
  rw [bind_isTerm] at h
  split_ifs at h with hterm
  · rw [bind_lexeme, writeChars, bind_write] at h
    obtain ⟨_, p₁, hadvance, h⟩ := bind_eq_ok.mp h
    obtain ⟨_, p₂, hskip, h⟩ := bind_eq_ok.mp h
    cases h
    cases hi : p.stream.head? with
    | none =>
      rw [hi] at hterm
      cases hterm
    | some i =>
      rw [hi] at hterm hadvance
      obtain ⟨s, hs, hreads⟩ := reads_discard_skipSpace hskip
      refine .inl ⟨rfl, i, s, hterm, hs, ?_⟩
      exact ((Reads.write p _).trans <| (reads_advance_item hadvance hi).trans hreads).cast rfl (by simp)
  · cases h
    exact .inr ⟨rfl, rfl⟩

theorem reads_expression {a : Unit} (h : expression p = .ok a q) :
    ∃ terms is, terms ≠ [] ∧ DerivesTerms terms is ∧ Reads p q is (.ofList terms.flatten) := by
  unfold expression at h
  obtain ⟨as, p₁, hcollect, h⟩ := bind_eq_ok.mp h
  have hterms := reads_collect (D := DerivesTerms) (fun terms => .ofList terms.flatten) ⟨.nil, rfl⟩
    (fun p o q h => ?_) hcollect
  · obtain ⟨terms, is, hempty, hterms, hreads⟩ := hterms
    split_ifs at h with has
    · exact absurd h unexpected_ne_ok
    · cases h
      exact ⟨terms, is, hempty.not.mpr (List.isEmpty_iff.not.mp has), hterms, hreads⟩
  · refine (reads_term h).imp_left fun ⟨ho, i, s, hi, hs, hreads⟩ => ⟨ho, i.lexeme, i :: s, _, hreads, ?_⟩
    exact fun terms is hterms => ⟨.concat hterms hi hs, by simp⟩

/-- A name or a function with terms follows the colons. -/
theorem reads_pseudoName {marks : List Item} {element : Bool} {p' : Progress} {a : Unit}
    (hmarks : Colons element marks) (hreads : Reads p p' marks (colons element))
    (h : (do
      match ← kind with
      | .function name =>
        write name
        write "("
        advance
        discard skipSpace
        expression
        expect (.punct .rightParen) "')'"
        write ")"
      | _ => write (← expectName "pseudo-class name") : Reader Unit) p' = .ok a q) :
    ∃ x is, Qualifier.Derives x is ∧ Reads p q is x.text := by
  rw [bind_kind] at h
  generalize hk : p'.stream.kind = k at h
  split at h
  · rename_i name
    rw [bind_write, bind_write] at h
    obtain ⟨_, p₁, hadvance, h⟩ := bind_eq_ok.mp h
    obtain ⟨_, p₂, hskip, h⟩ := bind_eq_ok.mp h
    obtain ⟨_, p₃, hexpression, h⟩ := bind_eq_ok.mp h
    obtain ⟨i, hi, hreads₁⟩ := reads_advance hadvance hk nofun
    obtain ⟨s, hs, hreads₂⟩ := reads_discard_skipSpace hskip
    obtain ⟨terms, is, hne, hterms, hreads₃⟩ := reads_expression hexpression
    obtain ⟨closing, hclosing, hreads₄⟩ := reads_close h nofun
    refine ⟨_, _, .call hmarks hi hs hterms hne hclosing, ?_⟩
    exact (hreads.trans <| (Reads.write p' name).trans <| (Reads.write _ "(").trans <| hreads₁.trans <|
      hreads₂.trans <| hreads₃.trans hreads₄).cast (by simp) (by simp [Qualifier.text, String.append_assoc])
  · obtain ⟨name, p₁, hname, h⟩ := bind_eq_ok.mp h
    cases h
    obtain ⟨i, w, hi, rfl, hreads₁⟩ := reads_expectName hname
    refine ⟨_, _, .pseudo hmarks hi, ?_⟩
    exact (hreads.trans <| hreads₁.trans <| Reads.write p₁ w.written).cast (by simp) (by simp [Qualifier.text])

theorem reads_pseudo {a : Unit} (hk : p.stream.kind = .punct .colon) (h : pseudo p = .ok a q) :
    ∃ x is, Qualifier.Derives x is ∧ Reads p q is x.text := by
  unfold pseudo at h
  obtain ⟨_, p₁, hadvance, h⟩ := bind_eq_ok.mp h
  rw [bind_write, bind_kind] at h
  obtain ⟨i, hi, hreads⟩ := reads_advance hadvance hk nofun
  have hreads' := hreads.trans (Reads.write p₁ ":")
  dsimp only at h
  split_ifs at h with hk'
  · obtain ⟨_, p₂, hadvance', h⟩ := bind_eq_ok.mp h
    rw [bind_write] at h
    obtain ⟨j, hj, hreads''⟩ := reads_advance hadvance' hk' nofun
    have hmarks : Colons true [i, j] := by simp [Colons, hi, hj]
    exact reads_pseudoName hmarks
      ((hreads'.trans <| hreads''.trans <| Reads.write p₂ ":").cast rfl (by decide)) h
  · have hmarks : Colons false [i] := by simp [Colons, hi]
    exact reads_pseudoName hmarks (hreads'.cast rfl (by decide)) h

theorem reads_qualifier {b : Bool} (h : qualifier p = .ok b q) :
    (b = true ∧ ∃ x is, Qualifier.Derives x is ∧ Reads p q is x.text) ∨ b = false ∧ q = p := by
  unfold qualifier at h
  rw [bind_kind] at h
  generalize hk : p.stream.kind = k at h
  split at h
  · rename_i name
    rw [bind_write, bind_write] at h
    obtain ⟨_, p₁, hadvance, h⟩ := bind_eq_ok.mp h
    cases h
    obtain ⟨i, hi, hreads⟩ := reads_advance hadvance hk nofun
    refine .inl ⟨rfl, .id name, [i], .id hi, ?_⟩
    exact ((Reads.write p "#").trans <| (Reads.write _ name).trans hreads).cast rfl (by simp [Qualifier.text])
  · obtain ⟨_, p₁, hadvance, h⟩ := bind_eq_ok.mp h
    obtain ⟨name, p₂, hname, h⟩ := bind_eq_ok.mp h
    rw [bind_write, bind_write] at h
    cases h
    obtain ⟨mark, hmark, hreads⟩ := reads_advance hadvance hk nofun
    obtain ⟨i, w, hi, rfl, hreads'⟩ := reads_expectName hname
    refine .inl ⟨rfl, .classed w, [mark, i], .classed hmark hi, ?_⟩
    exact (hreads.trans <| hreads'.trans <| (Reads.write p₂ ".").trans <| Reads.write _ w.written).cast rfl
      (by simp [Qualifier.text])
  · obtain ⟨_, p₁, htest, h⟩ := bind_eq_ok.mp h
    cases h
    exact .inl ⟨rfl, reads_attributeTest hk htest⟩
  · obtain ⟨_, p₁, hpseudo, h⟩ := bind_eq_ok.mp h
    cases h
    exact .inl ⟨rfl, reads_pseudo hk hpseudo⟩
  · cases h
    exact .inr ⟨rfl, rfl⟩

theorem reads_skipSpace_close {k : TokenKind} {expected text : String} {a : Unit}
    (h : (do discard skipSpace; expect k expected; write text : Reader Unit) p = .ok a q) (hne : k ≠ .endOfInput) :
    ∃ t closing, Spaces t ∧ closing.kind = k ∧ Reads p q (t ++ [closing]) text := by
  obtain ⟨_, p₁, hskip, h⟩ := bind_eq_ok.mp h
  obtain ⟨t, ht, hreads⟩ := reads_discard_skipSpace hskip
  obtain ⟨closing, hclosing, hreads'⟩ := reads_close h hne
  exact ⟨t, closing, ht, hclosing, (hreads.trans hreads').cast rfl String.empty_append⟩

theorem reads_negation {a : Unit} (hk : p.stream.kind = .negation) (h : negation p = .ok a q) :
    ∃ x is, Part.Derives x is ∧ Reads p q is x.text := by
  unfold negation at h
  obtain ⟨_, p₁, hadvance, h⟩ := bind_eq_ok.mp h
  rw [bind_write] at h
  obtain ⟨_, p₂, hskip, h⟩ := bind_eq_ok.mp h
  obtain ⟨typed, p₃, htype, h⟩ := bind_eq_ok.mp h
  obtain ⟨opening, hopening, hreads₁⟩ := reads_advance hadvance hk nofun
  obtain ⟨s, hs, hreads₂⟩ := reads_discard_skipSpace hskip
  have hreads : Reads p p₂ (opening :: s) ":not(" :=
    (hreads₁.trans <| (Reads.write p₁ ":not(").trans hreads₂).cast rfl (by simp)
  dsimp only at h
  rcases reads_typeOrUniversal htype with ⟨htyped, n, i, hi, hreads₃⟩ | ⟨htyped, hp⟩
  all_goals rw [htyped] at h
  · obtain ⟨t, closing, ht, hclosing, hreads₄⟩ := reads_skipSpace_close h nofun
    refine ⟨_, _, .notType hopening hs hi ht hclosing, ?_⟩
    exact (hreads.trans <| hreads₃.trans hreads₄).cast (by simp) (by simp [Part.text, String.append_assoc])
  · rw [hp] at h
    obtain ⟨found, p₄, hqualifier, h⟩ := bind_eq_ok.mp h
    rcases reads_qualifier hqualifier with ⟨hfound, x, is, hx, hreads₃⟩ | ⟨hfound, -⟩
    all_goals rw [hfound] at h
    · obtain ⟨t, closing, ht, hclosing, hreads₄⟩ := reads_skipSpace_close h nofun
      refine ⟨_, _, .notQualifier hopening hs hx ht hclosing, ?_⟩
      exact (hreads.trans <| hreads₃.trans hreads₄).cast (by simp) (by simp [Part.text, String.append_assoc])
    · obtain ⟨_, p₅, hunexpected, -⟩ := bind_eq_ok.mp h
      exact absurd hunexpected unexpected_ne_ok

theorem reads_part {o : Option Unit} (h : (do
      if (← kind) = .negation then negation; return some ()
      else if ← qualifier then return some ()
      else return none : Reader (Option Unit)) p = .ok o q) :
    (o.isSome = true ∧ ∃ x is, Part.Derives x is ∧ Reads p q is x.text) ∨ o = none ∧ q = p := by
  rw [bind_kind] at h
  split_ifs at h with hk
  · obtain ⟨_, p₁, hnegation, h⟩ := bind_eq_ok.mp h
    cases h
    exact .inl ⟨rfl, reads_negation hk hnegation⟩
  · obtain ⟨found, p₁, hqualifier, h⟩ := bind_eq_ok.mp h
    rcases reads_qualifier hqualifier with ⟨rfl, x, is, hx, hreads⟩ | ⟨rfl, hp⟩
    · cases h
      exact .inl ⟨rfl, _, is, .qualifier hx, hreads⟩
    · cases h
      exact .inr ⟨rfl, hp⟩

theorem reads_compound {a : Unit} (h : compound p = .ok a q) :
    ∃ c is, Compound.Derives c is ∧ Reads p q is c.text := by
  unfold compound at h
  obtain ⟨typed, p₁, htype, h⟩ := bind_eq_ok.mp h
  obtain ⟨as, p₂, hcollect, h⟩ := bind_eq_ok.mp h
  have hparts := reads_collect (D := DerivesParts) partsText ⟨.nil, rfl⟩ (fun p o q h => ?_) hcollect
  · obtain ⟨xs, is, hempty, hxs, hreads⟩ := hparts
    split_ifs at h with hnothing
    · exact absurd h unexpected_ne_ok
    · cases h
      rcases reads_typeOrUniversal htype with ⟨rfl, t, i, ht, hreads'⟩ | ⟨rfl, rfl⟩
      · exact ⟨_, _, .typed ht hxs, hreads'.trans hreads⟩
      · have hne : xs ≠ [] := fun hnil => hnothing (by rw [hempty.mp hnil]; rfl)
        exact ⟨_, _, .untyped hne hxs, hreads.cast rfl String.empty_append.symm⟩
  · refine (reads_part h).imp_left fun ⟨ho, x, js, hx, hreads⟩ => ⟨ho, x, js, x.text, hreads, ?_⟩
    exact fun xs is hxs => ⟨.concat hxs hx, partsText_concat xs x⟩

/-! ## Selectors -/

theorem bind_startsCompound {β : Type} (f : Bool → Reader β) (p : Progress) :
    ∃ b, (startsCompound >>= f) p = f b p := by
  have hlook : ∃ b, startsCompound p = .ok b p := by
    unfold startsCompound
    rw [bind_kind]
    generalize p.stream.kind = k
    split
    all_goals exact ⟨_, rfl⟩
  obtain ⟨b, hb⟩ := hlook
  exact ⟨b, bind_of_ok hb⟩

/-- A combinator is written as the character that it is. -/
theorem exists_combinator {i : Item} (hi : i.kind.isCombinator = true) (hne : i.kind ≠ .space) (hspelled : i.Spelled) :
    ∃ (k : Combinator) (m : Punctuation), i.kind = .punct m ∧ k.sign? = some m ∧
      k.text = " " ++ .ofList i.lexeme ++ " " := by
  have hpunct : ∀ {k : TokenKind}, k.isCombinator = true → k ≠ .space → ∃ m, k = .punct m := by
    intro k hk hne
    unfold TokenKind.isCombinator at hk
    split at hk
    all_goals first | exact ⟨_, rfl⟩ | exact absurd rfl hne | cases hk
  obtain ⟨m, hkind⟩ := hpunct hi hne
  obtain ⟨c, hlexeme, hc⟩ := hspelled m hkind
  rw [hkind] at hi ⊢
  rw [hlexeme]
  unfold TokenKind.ofChar? at hc
  split at hc
  all_goals cases hc
  all_goals try cases hi
  · exact ⟨.next, _, rfl, rfl, rfl⟩
  · exact ⟨.child, _, rfl, rfl, rfl⟩
  · exact ⟨.sibling, _, rfl, rfl, rfl⟩

/-- A combinator that is no space is read before something else. -/
theorem reads_sign {r : Reader α} {a : α} (hcombinator : p.stream.kind.isCombinator = true)
    (hne : p.stream.kind ≠ .space) (hspelled : ∀ i ∈ p.stream, i.Spelled)
    (h : (do write " "; writeChars (← lexeme); write " "; advance; discard skipSpace; r) p = .ok a q) :
    ∃ p' k m i t, i.kind = .punct m ∧ Combinator.sign? k = some m ∧ Spaces t ∧ Reads p p' (i :: t) k.text ∧
      r p' = .ok a q := by
  rw [bind_write, bind_lexeme, writeChars, bind_write, bind_write] at h
  obtain ⟨_, p₁, hadvance, h⟩ := bind_eq_ok.mp h
  obtain ⟨_, p₂, hskip, h⟩ := bind_eq_ok.mp h
  obtain ⟨t, ht, hreads⟩ := reads_discard_skipSpace hskip
  cases hhead : p.stream.head? with
  | none =>
    rw [List.head?_eq_none_iff.mp hhead] at hcombinator
    cases hcombinator
  | some i =>
    have hkind : p.stream.kind = i.kind := by rw [List.eq_cons_of_mem_head? hhead]; rfl
    rw [hkind] at hcombinator hne
    rw [hhead] at hadvance
    obtain ⟨k, m, hi, hk, htext⟩ := exists_combinator hcombinator hne (hspelled i (List.mem_of_mem_head? hhead))
    refine ⟨p₂, k, m, i, t, hi, hk, ht, ?_, h⟩
    rw [htext]
    exact ((Reads.write p " ").trans <| (Reads.write _ (.ofList i.lexeme)).trans <| (Reads.write _ " ").trans <|
      (reads_advance_item hadvance hhead).trans hreads).cast rfl (by simp [String.append_assoc])

theorem reads_selector {a : Unit} (hspelled : ∀ i ∈ p.stream, i.Spelled) (h : selector p = .ok a q) :
    ∃ s is t, Selector.Derives s is ∧ Spaces t ∧ Reads p q (is ++ t) s.text := by
  unfold selector at h
  obtain ⟨_, p₁, hcompound, h⟩ := bind_eq_ok.mp h
  -- the spaces behind a compound are those of the next combinator, or mean nothing
  refine loop_of_ok (motive := fun q => ∃ s is t, Selector.Derives s is ∧ Spaces t ∧ Reads p q (is ++ t) s.text)
    ?_ h ?_
  · rintro p₂ b q₂ ⟨s, is, t, hs, ht, hreads⟩ h
    obtain ⟨spaced, p₃, hskip, h⟩ := bind_eq_ok.mp h
    obtain ⟨t', ht', hspaced, hreads'⟩ := reads_skipSpace hskip
    have hspaces : Spaces (t ++ t') := List.forall_mem_append.mpr ⟨ht, ht'⟩
    have hreads₃ : Reads p p₃ (is ++ (t ++ t')) s.text :=
      (hreads.trans hreads').cast (List.append_assoc ..) String.append_empty
    rw [bind_kind] at h
    split_ifs at h with hcombinator
    · obtain ⟨p₄, k, m, i, t'', hi, hk, ht'', hreads₄, h⟩ :=
        reads_sign hcombinator (kind_ne_space_of_skipSpace hskip) (hreads₃.spelled hspelled) h
      obtain ⟨_, p₅, hcompound', h⟩ := bind_eq_ok.mp h
      cases h
      obtain ⟨c, ks, hc, hreads₅⟩ := reads_compound hcompound'
      refine ⟨.join s k c, _, [], .join hs (.sign hspaces hi hk ht'') hc, nofun, ?_⟩
      exact (hreads₃.trans <| hreads₄.trans hreads₅).cast (by simp) (by simp [Selector.text, String.append_assoc])
    · obtain ⟨starts, hstarts⟩ := bind_startsCompound
        (fun starts => if (spaced && starts) = true then
          (write " " >>= fun _ => compound >>= fun _ => pure true) else pure false) p₃
      rw [hstarts] at h
      split_ifs at h with hboth
      · rw [bind_write] at h
        obtain ⟨_, p₄, hcompound', h⟩ := bind_eq_ok.mp h
        cases h
        obtain ⟨c, ks, hc, hreads₄⟩ := reads_compound hcompound'
        have hne : t ++ t' ≠ [] := List.append_ne_nil_of_right_ne_nil t (hspaced (Bool.and_eq_true .. ▸ hboth).1)
        refine ⟨.join s .descendant c, _, [], .join hs (.spaces hspaces hne) hc, nofun, ?_⟩
        exact (hreads₃.trans <| (Reads.write p₃ " ").trans hreads₄).cast (by simp)
          (by simp [Selector.text, Combinator.text, String.append_assoc])
      · cases h
        exact ⟨s, is, t ++ t', hs, hspaces, hreads₃⟩
  · obtain ⟨c, is, hc, hreads⟩ := reads_compound hcompound
    exact ⟨.compound c, is, [], .compound hc, nofun, hreads.cast (List.append_nil is).symm rfl⟩

/-- What is read as selectors is derived by a group, whose text is written. -/
theorem reads_selectors {a : Unit} (hspelled : ∀ i ∈ p.stream, i.Spelled) (h : selectors p = .ok a q) :
    ∃ g is, Group.Derives g is ∧ Reads p q is g.text := by
  unfold selectors at h
  obtain ⟨_, p₁, hselector, h⟩ := bind_eq_ok.mp h
  refine loop_of_ok (motive := fun q => ∃ g is, Group.Derives g is ∧ Reads p q is g.text) ?_ h ?_
  · rintro p₂ b q₂ ⟨g, is, hg, hreads⟩ h
    rw [bind_kind] at h
    split_ifs at h with hk
    · obtain ⟨_, p₃, hadvance, h⟩ := bind_eq_ok.mp h
      obtain ⟨_, p₄, hskip, h⟩ := bind_eq_ok.mp h
      rw [bind_write] at h
      obtain ⟨_, p₅, hselector', h⟩ := bind_eq_ok.mp h
      cases h
      obtain ⟨comma, hcomma, hreads₃⟩ := reads_advance hadvance hk nofun
      obtain ⟨t, ht, hreads₄⟩ := reads_discard_skipSpace hskip
      have hreads' := hreads.trans <| hreads₃.trans <| hreads₄.trans <| Reads.write p₄ ", "
      obtain ⟨s, js, t', hs, ht', hreads₅⟩ := reads_selector (hreads'.spelled hspelled) hselector'
      refine ⟨.also g s, _, .also hg hcomma ht hs ht', ?_⟩
      exact (hreads'.trans hreads₅).cast (by simp) (by simp [Group.text, String.append_assoc])
    · cases h
      exact ⟨g, is, hg, hreads⟩
  · obtain ⟨s, is, t, hs, ht, hreads⟩ := reads_selector hspelled hselector
    exact ⟨.one s, _, .one hs ht, hreads⟩

end Reader

end SlotGrid.Style
