import SlotGrid.Proofs.Style.SelectorText

/-! # Derivations are read

Where no address is left open, the readers of selectors take every stretch of items that the grammar derives, and write
the text of its tree. What follows the stretch decides only whether a space joins two compounds, and whether more parts
belong to the last one.
-/

namespace SlotGrid.Style

namespace Stream

/-- All items are tokens. -/
def Whole (s : Stream) : Prop := ∀ i ∈ s, ∃ t, i = .token t

@[simp] theorem kind_cons (i : Item) (s : Stream) : Stream.kind (i :: s) = i.kind := rfl

theorem Whole.of_append {is : List Item} {s : Stream} (h : Whole (is ++ s)) : Whole s :=
  (List.forall_mem_append.mp h).2

theorem Whole.opensAddress {s : Stream} (h : Whole s) : s.opensAddress = false := by
  cases s with
  | nil => rfl
  | cons i s =>
    obtain ⟨t, rfl⟩ := h i List.mem_cons_self
    rfl

end Stream

namespace TokenKind

/-- The kinds that a part of a compound starts with. -/
def startsPart : TokenKind → Bool
  | hash _ | punct .period | delim '[' | punct .colon | negation => true
  | _ => false

/-- The kinds that a compound starts with. -/
def startsCompound : TokenKind → Bool
  | ident _ | keyword _ | punct .asterisk => true
  | k => k.startsPart

theorem startsCompound_of_startsPart {k : TokenKind} (h : k.startsPart = true) : k.startsCompound = true := by
  unfold startsCompound
  split <;> first | rfl | exact h

/-- The kinds that may follow a selector, spaces apart. -/
def endsSelector : TokenKind → Bool
  | punct .comma | punct .leftBrace => true
  | _ => false

/-- A compound starts with no combinator and no space. -/
theorem isCombinator_of_startsCompound {k : TokenKind} (h : k.startsCompound = true) : k.isCombinator = false := by
  unfold isCombinator
  split <;> first | rfl | cases h

theorem startsPart_of_isCombinator {k : TokenKind} (h : k.isCombinator = true) : k.startsPart = false := by
  unfold startsPart
  split <;> first | rfl | cases h

theorem not_startsCompound_of_endsSelector {k : TokenKind} (h : k.endsSelector = true) :
    k.startsCompound = false ∧ k.startsPart = false ∧ k.isCombinator = false := by
  unfold endsSelector at h
  split at h
  · exact ⟨rfl, rfl, rfl⟩
  · exact ⟨rfl, rfl, rfl⟩
  · cases h

end TokenKind

namespace Item

variable {i : Item} {w : Word}

theorem name?_eq_none (hident : ∀ name, i.kind ≠ .ident name) (hkeyword : ∀ k, i.kind ≠ .keyword k) :
    i.name? = none := by
  rcases i with ⟨k, lexeme, n⟩ | ⟨lexeme, n⟩
  · cases k <;> first | rfl | exact absurd rfl (hident _) | exact absurd rfl (hkeyword _)
  · rfl

theorem name?_of_startsPart (h : i.kind.startsPart = true) : i.name? = none := by
  refine name?_eq_none (fun name hk => ?_) fun k hk => ?_
  all_goals
    rw [hk] at h
    cases h

theorem name?_of_word? (h : i.word? = some w) : i.name? = some w.written := by
  rw [name?_eq_word?, h]
  rfl

theorem kind_of_word? (h : i.word? = some w) : (∃ name, i.kind = .ident name) ∨ ∃ k, i.kind = .keyword k := by
  unfold word? at h
  split at h
  · exact .inl ⟨_, rfl⟩
  · exact .inr ⟨_, rfl⟩
  · cases h

theorem kind_ne_space_of_word? (h : i.word? = some w) : i.kind ≠ .space := by
  rcases kind_of_word? h with ⟨name, hk⟩ | ⟨k, hk⟩ <;> simp [hk]

theorem startsCompound_of_word? (h : i.word? = some w) : i.kind.startsCompound = true := by
  rcases kind_of_word? h with ⟨name, hk⟩ | ⟨k, hk⟩ <;> rw [hk] <;> rfl

/-- Apart from the signs that compounds start with, they start with words. -/
theorem isSome_name?_eq_startsCompound (hpart : i.kind.startsPart = false) (hstar : i.kind ≠ .punct .asterisk) :
    i.name?.isSome = i.kind.startsCompound := by
  unfold TokenKind.startsCompound
  split
  · rename_i name hk
    rcases i with ⟨k, lexeme, n⟩ | ⟨lexeme, n⟩ <;> cases hk
    rfl
  · rename_i k hk
    rcases i with ⟨k', lexeme, n⟩ | ⟨lexeme, n⟩ <;> cases hk
    rfl
  · contradiction
  · rename_i hident hkeyword _
    rw [hpart, name?_eq_none hident hkeyword]
    rfl

end Item

namespace Progress

/-- The progress behind a stretch of items that a text was written for. -/
def past (p : Progress) (s : Stream) (text : String) : Progress :=
  { p with stream := s, selector := p.selector ++ text }

@[simp] theorem stream_past (p : Progress) (s : Stream) (text : String) : (p.past s text).stream = s := rfl

@[simp] theorem past_past (p : Progress) (s s' : Stream) (t t' : String) :
    (p.past s t).past s' t' = p.past s' (t ++ t') := by
  simp [past, String.append_assoc]

theorem past_of_stream {p : Progress} {s : Stream} (h : p.stream = s) : p.past s "" = p := by
  subst h
  simp [past]

end Progress

namespace Reader

open Grammar

/-- In front of a stream the reader takes a stretch of items and writes a text. -/
def Takes {α : Type} (r : Reader α) (x : List Item) (text : String) (a : α) (s : Stream) : Prop :=
  Stream.Whole (x ++ s) → ∀ p : Progress, p.stream = x ++ s → r p = .ok a (p.past s text)

variable {α β : Type} {r : Reader α} {f : α → Reader β} {x y z : List Item} {t u : String} {a : α} {b : β}
  {i j : Item} {w : Word} {s : Stream}

namespace Takes

theorem cast (h : Takes r x t a s) (hx : x = y) (ht : t = u) : Takes r y u a s := hx ▸ ht ▸ h

theorem pure (a : α) (s : Stream) : Takes (pure a : Reader α) [] "" a s :=
  fun _ _ hp => congrArg (EStateM.Result.ok a) (Progress.past_of_stream hp).symm

theorem bind (hr : Takes r x t a (y ++ s)) (hf : Takes (f a) y u b s) : Takes (r >>= f) (x ++ y) (t ++ u) b s := by
  intro hwhole p hp
  rw [List.append_assoc] at hwhole hp
  rw [bind_of_ok (hr hwhole p hp), hf hwhole.of_append _ (Progress.stream_past ..), Progress.past_past]

/-- Nothing is taken first. -/
theorem nil_bind (hr : Takes r [] "" a (x ++ s)) (hf : Takes (f a) x t b s) : Takes (r >>= f) x t b s :=
  (hr.bind hf).cast rfl String.empty_append

/-- Nothing is taken in the end. -/
theorem bind_nil (hr : Takes r x t a s) (hf : Takes (f a) [] "" b s) : Takes (r >>= f) x t b s :=
  (bind (y := []) hr hf).cast (List.append_nil x) String.append_empty

theorem map (g : α → β) (h : Takes r x t a s) : Takes (r >>= fun a => Pure.pure (g a)) x t (g a) s :=
  h.bind_nil (.pure (g a) s)

/-! ### Looking and writing -/

theorem write (text : String) (s : Stream) : Takes (write text) [] text () s := by
  intro _ p hp
  obtain ⟨_, _⟩ := p
  cases hp
  rfl

theorem write_bind {f : Unit → Reader β} (text : String) (h : Takes (f ()) x u b s) :
    Takes (Reader.write text >>= f) x (text ++ u) b s := (Takes.write text _).bind h

theorem kind_bind {k : TokenKind} {f : TokenKind → Reader β} (hk : Stream.kind (x ++ s) = k)
    (h : Takes (f k) x t b s) : Takes (kind >>= f) x t b s := by
  intro hwhole p hp
  rw [bind_kind, hp, hk]
  exact h hwhole p hp

theorem name?_bind {n : Option String} {f : Option String → Reader β} (hn : (x ++ s).head?.bind Item.name? = n)
    (h : Takes (f n) x t b s) : Takes (name? >>= f) x t b s := by
  intro hwhole p hp
  rw [bind_name?, hp, hn]
  exact h hwhole p hp

theorem lexeme_bind {f : List Char → Reader β} (h : Takes (f i.lexeme) (i :: x) t b s) :
    Takes (lexeme >>= f) (i :: x) t b s := by
  intro hwhole p hp
  rw [bind_lexeme, hp]
  exact h hwhole p hp

/-! ### Moving on -/

theorem advance (i : Item) (s : Stream) : Takes advance [i] "" () s := by
  intro hwhole p hp
  have hs : p.stream.tail = s := by rw [hp]; rfl
  refine advance_eq_ok.mpr ⟨?_, ?_⟩
  · simp [Progress.past, hs]
  · rw [hs]
    exact hwhole.of_append.opensAddress

theorem advance_bind {f : Unit → Reader β} (h : Takes (f ()) x u b s) :
    Takes (Reader.advance >>= f) (i :: x) u b s :=
  ((Takes.advance i _).bind h).cast rfl String.empty_append

theorem expect {k : TokenKind} {expected : String} (hi : i.kind = k) (s : Stream) :
    Takes (expect k expected) [i] "" () s := by
  refine kind_bind hi ?_
  rw [if_pos rfl]
  exact Takes.advance i s

theorem expect_bind {k : TokenKind} {expected : String} {f : Unit → Reader β} (hi : i.kind = k)
    (h : Takes (f ()) x u b s) : Takes (Reader.expect k expected >>= f) (i :: x) u b s :=
  ((Takes.expect hi _).bind h).cast rfl String.empty_append

/-- A closing sign is expected and written. -/
theorem close {k : TokenKind} {expected : String} (hi : i.kind = k) (text : String) (s : Stream) :
    Takes (Reader.expect k expected >>= fun _ => Reader.write text) [i] text () s :=
  expect_bind hi (write text s)

theorem expectName_bind {expected : String} {f : String → Reader β} (hi : i.word? = some w)
    (h : Takes (f w.written) x u b s) : Takes (Reader.expectName expected >>= f) (i :: x) u b s := by
  have hname : Takes (Reader.expectName expected) [i] "" w.written (x ++ s) :=
    name?_bind (Item.name?_of_word? hi) <| advance_bind <| .pure _ _
  exact (hname.bind h).cast rfl String.empty_append

end Takes

/-! ## Repeated reading -/

theorem takes_collect_nil {r : Reader (Option α)} (h : Takes r [] "" none s) : Takes (collect r) [] "" [] s :=
  fun hwhole p hp => collect_of_none (h hwhole p hp)

theorem length_lt_of_ne_nil (hne : x ≠ []) (y : List Item) : y.length < (x ++ y).length := by
  have := List.length_pos_iff.mpr hne
  rw [List.length_append]
  omega

theorem takes_collect_cons {r : Reader (Option α)} {as : List α} (hr : Takes r x t (some a) (y ++ s)) (hne : x ≠ [])
    (h : Takes (collect r) y u as s) : Takes (collect r) (x ++ y) (t ++ u) (a :: as) s := by
  intro hwhole p hp
  rw [List.append_assoc] at hwhole hp
  have hlt : (y ++ s).length < p.stream.length := hp ▸ length_lt_of_ne_nil hne (y ++ s)
  rw [collect, hr hwhole p hp]
  simp only [Progress.stream_past, hlt, if_true, h hwhole.of_append _ (Progress.stream_past p (y ++ s) t),
    Progress.past_past]

theorem takes_loop_of_false {r : Reader Bool} (h : Takes r x t false s) : Takes (loop r) x t () s := by
  intro hwhole p hp
  rw [loop_eq, h hwhole p hp]

theorem takes_loop_of_true {r : Reader Bool} (hr : Takes r x t true (y ++ s)) (hne : x ≠ [])
    (h : Takes (loop r) y u () s) : Takes (loop r) (x ++ y) (t ++ u) () s := by
  intro hwhole p hp
  rw [List.append_assoc] at hwhole hp
  have hlt : (y ++ s).length < p.stream.length := hp ▸ length_lt_of_ne_nil hne (y ++ s)
  rw [loop_eq, hr hwhole p hp]
  simp only [Progress.stream_past, hlt, if_true, h hwhole.of_append _ (Progress.stream_past p (y ++ s) t),
    Progress.past_past]

/-! ## Spaces -/

theorem takes_skipSpace (hx : Spaces x) (hs : s.kind ≠ .space) : Takes skipSpace x "" (!x.isEmpty) s := by
  have hcollect : ∃ as : List Unit, as.isEmpty = x.isEmpty ∧ Takes (collect do
      if (← kind) = .space then advance; return some () else return none) x "" as s := by
    induction x with
    | nil =>
      refine ⟨[], rfl, takes_collect_nil (.kind_bind rfl ?_)⟩
      rw [List.nil_append, if_neg hs]
      exact .pure none s
    | cons i x ih =>
      obtain ⟨hi, hx⟩ := List.forall_mem_cons.mp hx
      obtain ⟨as, -, h⟩ := ih hx
      refine ⟨() :: as, rfl, takes_collect_cons (x := [i]) (t := "") (.kind_bind hi ?_) nofun h⟩
      rw [if_pos rfl]
      exact .advance_bind (.pure _ _)
  obtain ⟨as, has, h⟩ := hcollect
  rw [← has]
  exact h.map _

theorem takes_discard_skipSpace (hx : Spaces x) (hs : s.kind ≠ .space) : Takes (discard skipSpace) x "" () s :=
  (takes_skipSpace hx hs).map fun _ => ()

/-- Spaces are skipped in front of an item of another kind. -/
theorem Takes.skipSpace_bind {f : Unit → Reader β} (hx : Spaces x) (hy : Stream.kind (y ++ s) ≠ .space)
    (h : Takes (f ()) y u b s) : Takes (discard skipSpace >>= f) (x ++ y) u b s :=
  ((takes_discard_skipSpace hx hy).bind h).cast rfl String.empty_append

/-! ## Parts of compounds -/

theorem takes_typeOrUniversal {n : TypeName} (h : n.Derives i) (s : Stream) :
    Takes typeOrUniversal [i] n.text true s := by
  cases h with
  | named h =>
    exact (Takes.name?_bind (x := [i]) (Item.name?_of_word? h) <| .write_bind _ <| .advance_bind <|
      .pure true s).cast rfl String.append_empty
  | universal h =>
    have hname : i.name? = none := Item.name?_eq_none (fun name => by simp [h]) fun k => by simp [h]
    refine .name?_bind hname <| .kind_bind h ?_
    rw [if_pos rfl]
    exact (Takes.write_bind _ <| .advance_bind <| .pure true s).cast rfl String.append_empty

/-- No type stands in front of a part. -/
theorem takes_typeOrUniversal_nil (h : s.kind.startsPart = true) : Takes typeOrUniversal [] "" false s := by
  cases s with
  | nil => cases h
  | cons i s =>
    have hstar : i.kind ≠ .punct .asterisk := fun hk => by rw [Stream.kind_cons, hk] at h; cases h
    refine .name?_bind (Item.name?_of_startsPart h) <| .kind_bind rfl ?_
    rw [List.nil_append, Stream.kind_cons, if_neg hstar]
    exact .pure false (i :: s)

theorem takes_attributeValue {operator : Item} {v : Operand} (hx : Spaces x) (hj : v.Derives j) (hy : Spaces y)
    (hs : s.kind ≠ .space) :
    Takes attributeValue (operator :: x ++ j :: y) (.ofList operator.lexeme ++ v.text) () s := by
  have hj' : j.kind ≠ .space := by
    cases hj with
    | word h => exact Item.kind_ne_space_of_word? h
    | quoted h => simp [h]
  refine Takes.lexeme_bind <| .write_bind _ <| .advance_bind <| .skipSpace_bind hx hj' ?_
  cases hj with
  | word h =>
    refine .kind_bind rfl ?_
    split
    · rename_i value hk
      rcases Item.kind_of_word? h with ⟨name, hk'⟩ | ⟨k, hk'⟩ <;> cases hk'.symm.trans hk
    · exact (Takes.expectName_bind h <| .write_bind _ <| takes_discard_skipSpace hy hs).cast rfl
        (by simp [Operand.text])
  | quoted h =>
    exact (Takes.kind_bind (x := j :: y) h <| .write_bind _ <| .write_bind _ <| .write_bind _ <| .advance_bind <|
      takes_discard_skipSpace hy hs).cast rfl (by simp [Operand.text, String.append_assoc])

/-- A test is read up to what follows the name. -/
theorem takes_attributeName {rest : Reader β} (opening : Item) (hx : Spaces x) (hi : i.word? = some w)
    (hy : Spaces y) (hz : Stream.kind (z ++ s) ≠ .space) (h : Takes rest z t b s) :
    Takes (do
      advance; write "["; discard skipSpace; write (← expectName "attribute name"); discard skipSpace; rest)
      (opening :: (x ++ i :: (y ++ z))) ("[" ++ (w.written ++ t)) b s :=
  .advance_bind <| .write_bind _ <| .skipSpace_bind hx (Item.kind_ne_space_of_word? hi :) <|
    .expectName_bind hi <| .write_bind _ <| .skipSpace_bind hy hz h

theorem takes_attributeTest_bare {opening closing : Item} (hx : Spaces x) (hi : i.word? = some w) (hy : Spaces y)
    (hclosing : closing.kind = .delim ']') (s : Stream) :
    Takes attributeTest (opening :: x ++ i :: y ++ [closing]) ("[" ++ w.written ++ "]") () s := by
  refine Takes.cast (takes_attributeName opening (z := [closing]) (t := "]") hx hi hy (by simp [hclosing])
    (.kind_bind hclosing ?_)) (by simp) (String.append_assoc ..).symm
  rw [if_neg nofun]
  exact .close hclosing "]" s

theorem takes_attributeTest {opening operator closing : Item} {x' y' : List Item} {v : Operand} (hx : Spaces x)
    (hi : i.word? = some w) (hy : Spaces y) (hoperator : operator.kind.isMatcher = true) (hx' : Spaces x')
    (hj : v.Derives j) (hy' : Spaces y') (hclosing : closing.kind = .delim ']') (s : Stream) :
    Takes attributeTest (opening :: x ++ i :: y ++ operator :: x' ++ j :: y' ++ [closing])
      ("[" ++ w.written ++ .ofList operator.lexeme ++ v.text ++ "]") () s := by
  have hne : operator.kind ≠ .space := fun h => by rw [h] at hoperator; cases hoperator
  have hvalue : Takes attributeValue (operator :: x' ++ j :: y') (.ofList operator.lexeme ++ v.text) ()
      ([closing] ++ s) := takes_attributeValue hx' hj hy' (by simp [hclosing])
  refine Takes.cast (takes_attributeName opening (z := operator :: x' ++ j :: y' ++ [closing]) hx hi hy
    (by simp [hne]) (.kind_bind (t := .ofList operator.lexeme ++ v.text ++ "]") rfl ?_)) (by simp)
    (by simp [String.append_assoc])
  rw [if_pos (by simp [hoperator])]
  exact hvalue.bind (.close hclosing "]" s)

/-! ### Pseudo-classes -/

theorem kind_ne_space_of_termAt (h : termAt (some i) = true) : i.kind ≠ .space := by
  intro hk
  have hname : i.name? = none := Item.name?_eq_none (fun name => by simp [hk]) fun k => by simp [hk]
  simp [termAt, kindOf, hk, hname] at h

theorem Takes.isTerm_bind {f : Bool → Reader β} {c : Bool} (hc : termAt (x ++ s).head? = c)
    (h : Takes (f c) x t b s) : Takes (isTerm >>= f) x t b s := by
  intro hwhole p hp
  rw [bind_isTerm, hp, hc]
  exact h hwhole p hp

/-- A reader that takes terms is repeated up to what follows the last one. -/
theorem takes_collect_terms {r : Reader (Option α)} (hr : ∀ (i : Item) (y : List Item) (s : Stream),
      termAt (some i) = true → Spaces y → s.kind ≠ .space → ∃ a, Takes r (i :: y) (.ofList i.lexeme) (some a) s)
    {terms : List (List Char)} (h : DerivesTerms terms x) (hspace : s.kind ≠ .space) (hnil : Takes r [] "" none s) :
    ∃ as, as.length = terms.length ∧ Takes (collect r) x (.ofList terms.flatten) as s := by
  suffices hmore : ∀ y u as, Takes (collect r) y u as s → Stream.kind (y ++ s) ≠ .space →
      ∃ bs, bs.length = terms.length + as.length ∧ Takes (collect r) (x ++ y) (.ofList terms.flatten ++ u) bs s by
    simpa using hmore [] "" [] (takes_collect_nil hnil) hspace
  induction h with
  | nil => exact fun y u as hy _ => ⟨as, (Nat.zero_add _).symm, hy.cast rfl String.empty_append.symm⟩
  | @concat terms is z i h hi hz ih =>
    intro y u as hy hspace
    obtain ⟨a, ha⟩ := hr i z _ hi hz hspace
    obtain ⟨bs, hlength, hbs⟩ := ih _ _ _ (takes_collect_cons ha nofun hy) (kind_ne_space_of_termAt hi)
    refine ⟨bs, ?_, hbs.cast (by simp) (by simp [String.append_assoc])⟩
    simp only [hlength, List.length_append, List.length_cons, List.length_nil]
    omega

theorem takes_expression {terms : List (List Char)} (h : DerivesTerms terms x) (hne : terms ≠ [])
    (hs : termAt s.head? = false) (hspace : s.kind ≠ .space) : Takes expression x (.ofList terms.flatten) () s := by
  have hterm : ∀ (i : Item) (y : List Item) (s : Stream), termAt (some i) = true → Spaces y → s.kind ≠ .space →
      ∃ a, Takes (do
        if ← isTerm then writeChars (← lexeme); advance; discard skipSpace; return some () else return none)
        (i :: y) (.ofList i.lexeme) (some a) s := by
    intro i y s hi hy hs
    refine ⟨(), .isTerm_bind hi ?_⟩
    exact (Takes.lexeme_bind <| .write_bind _ <| .advance_bind <|
      (takes_discard_skipSpace hy hs).map fun _ => some ()).cast rfl String.append_empty
  obtain ⟨as, hlength, has⟩ := takes_collect_terms hterm h hspace (.isTerm_bind hs (.pure none s))
  have hsome : ¬ as.isEmpty = true := by
    rw [List.isEmpty_iff_length_eq_zero, hlength, List.length_eq_zero_iff]
    exact hne
  refine has.bind_nil ?_
  rw [if_neg hsome]
  exact .pure () s

/-- Behind the colons a name is taken, or a function with its terms. -/
theorem takes_pseudo {marks : List Item} {element : Bool} {k : TokenKind} (hmarks : Colons element marks)
    (hk : Stream.kind (x ++ s) = k) (hcolon : k ≠ .punct .colon) (h : Takes (do
      match k with
      | .function name =>
        write name
        write "("
        advance
        discard skipSpace
        expression
        expect (.punct .rightParen) "')'"
        write ")"
      | _ => write (← expectName "pseudo-class name") : Reader Unit) x t () s) :
    Takes pseudo (marks ++ x) (colons element ++ t) () s := by
  cases element with
  | false =>
    obtain ⟨i, rfl, -⟩ : ∃ i, marks = [i] ∧ i.kind = .punct .colon := by
      simpa [Colons, List.map_eq_cons_iff] using hmarks
    refine .advance_bind <| .write_bind _ <| .kind_bind hk ?_
    rw [if_neg hcolon]
    exact .kind_bind hk h
  | true =>
    obtain ⟨i, j, rfl, -, hj⟩ : ∃ i j, marks = [i, j] ∧ i.kind = .punct .colon ∧ j.kind = .punct .colon := by
      simpa [Colons, List.map_eq_cons_iff] using hmarks
    refine Takes.cast (.advance_bind <| .write_bind ":" <| .kind_bind (x := j :: x) (t := ":" ++ t) hj ?_) rfl
      (by simp [colons, ← String.append_assoc])
    rw [if_pos rfl]
    exact .advance_bind <| .write_bind _ <| .kind_bind hk h

theorem kind_ne_space_of_derivesTerms {terms : List (List Char)} (h : DerivesTerms terms x) (hs : s.kind ≠ .space) :
    Stream.kind (x ++ s) ≠ .space := by
  induction h generalizing s with
  | nil => exact hs
  | concat h hi hz ih =>
    rw [List.append_assoc]
    exact ih (kind_ne_space_of_termAt hi)

/-! ### Qualifiers -/

theorem kind_of_colons {element : Bool} {marks : List Item} (h : Colons element marks) (s : Stream) :
    Stream.kind (marks ++ s) = .punct .colon := by
  cases marks with
  | nil => cases element <;> cases h
  | cons i marks => cases element <;> simp_all [Colons]

theorem startsPart_of_qualifier {q : Qualifier} (h : q.Derives x) (s : Stream) :
    (Stream.kind (x ++ s)).startsPart = true ∧ Stream.kind (x ++ s) ≠ .negation := by
  cases h with
  | id h => simp [h, TokenKind.startsPart]
  | classed hmark hi => simp [hmark, TokenKind.startsPart]
  | attr hopening => simp [hopening, TokenKind.startsPart]
  | test hopening => simp [hopening, TokenKind.startsPart]
  | pseudo hmarks =>
    rw [List.append_assoc, kind_of_colons hmarks]
    exact ⟨rfl, nofun⟩
  | call hmarks =>
    simp only [List.append_assoc]
    rw [kind_of_colons hmarks]
    exact ⟨rfl, nofun⟩

theorem takes_qualifier {q : Qualifier} (h : q.Derives x) (s : Stream) : Takes qualifier x q.text true s := by
  have hcolons : ∀ {element : Bool} {marks y : List Item} {t : String}, Colons element marks →
      Takes pseudo (marks ++ y) t () s → Takes qualifier (marks ++ y) t true s := by
    intro element marks y t hmarks h
    have hk : Stream.kind (marks ++ y ++ s) = .punct .colon := by rw [List.append_assoc, kind_of_colons hmarks]
    exact .kind_bind hk (h.map fun _ => true)
  cases h with
  | id h =>
    exact (Takes.kind_bind (x := [_]) h <| .write_bind _ <| .write_bind _ <| .advance_bind <| .pure true s).cast rfl
      (by simp [Qualifier.text])
  | classed hmark hi =>
    exact (Takes.kind_bind (x := [_, _]) hmark <| .advance_bind <| .expectName_bind hi <| .write_bind _ <|
      .write_bind _ <| .pure true s).cast rfl (by simp [Qualifier.text])
  | attr hopening hx hi hy hclosing =>
    exact .kind_bind hopening <| (takes_attributeTest_bare hx hi hy hclosing s).map fun _ => true
  | test hopening hx hi hy hoperator hx' hj hy' hclosing =>
    exact .kind_bind hopening <| (takes_attributeTest hx hi hy hoperator hx' hj hy' hclosing s).map fun _ => true
  | @pseudo marks element i w hmarks hi =>
    have hname {s : Stream} : Takes (do write (← expectName "pseudo-class name")) [i] w.written () s :=
      .expectName_bind hi (.write _ s)
    refine hcolons hmarks ?_
    rcases Item.kind_of_word? hi with ⟨name, hk⟩ | ⟨k, hk⟩
    · exact takes_pseudo hmarks (x := [i]) hk (by simp) hname
    · exact takes_pseudo hmarks (x := [i]) hk (by simp) hname
  | @call marks y z element i closing f terms hmarks hi hy hterms hne hclosing =>
    have hexpression : Takes expression z (.ofList terms.flatten) () ([closing] ++ s) := by
      refine takes_expression hterms hne ?_ (by simp [hclosing])
      have hname : closing.name? = none :=
        Item.name?_eq_none (fun name => by simp [hclosing]) fun k => by simp [hclosing]
      simp [termAt, kindOf, hclosing, hname]
    have hspace : Stream.kind (z ++ [closing] ++ s) ≠ .space := by
      rw [List.append_assoc]
      exact kind_ne_space_of_derivesTerms hterms (by simp [hclosing])
    have hcall := takes_pseudo hmarks (x := i :: (y ++ (z ++ [closing]))) hi (by simp) <| .write_bind _ <|
      .write_bind _ <| .advance_bind <| .skipSpace_bind hy hspace <| hexpression.bind (.close hclosing ")" s)
    exact (hcolons hmarks hcall).cast (by simp) (by simp [Qualifier.text, String.append_assoc])

/-! ### Negations -/

theorem kind_ne_space_of_typeName {n : TypeName} (h : n.Derives i) : i.kind ≠ .space := by
  cases h with
  | named h => exact Item.kind_ne_space_of_word? h
  | universal h => simp [h]

/-- Spaces and a parenthesis close a negation. -/
theorem takes_negationEnd {closing : Item} (hy : Spaces y) (hclosing : closing.kind = .punct .rightParen) (s : Stream) :
    Takes (do discard skipSpace; expect (.punct .rightParen) "')'"; write ")") (y ++ [closing]) ")" () s :=
  .skipSpace_bind hy (by simp [hclosing]) (.close hclosing ")" s)

theorem takes_negation_type {opening closing : Item} {n : TypeName} (hx : Spaces x) (hi : n.Derives i)
    (hy : Spaces y) (hclosing : closing.kind = .punct .rightParen) (s : Stream) :
    Takes negation (opening :: x ++ i :: y ++ [closing]) (":not(" ++ n.text ++ ")") () s := by
  refine Takes.cast (.advance_bind (i := opening) <| .write_bind _ <|
    .skipSpace_bind hx (y := i :: (y ++ [closing])) ?_ <| (takes_typeOrUniversal hi _).bind (u := ")") ?_)
    (by simp) (by simp [String.append_assoc])
  · exact kind_ne_space_of_typeName hi
  · exact takes_negationEnd hy hclosing s

theorem takes_negation_qualifier {opening closing : Item} {q : Qualifier} (hx : Spaces x) (h : q.Derives z)
    (hy : Spaces y) (hclosing : closing.kind = .punct .rightParen) (s : Stream) :
    Takes negation (opening :: x ++ z ++ y ++ [closing]) (":not(" ++ q.text ++ ")") () s := by
  have hstarts := (startsPart_of_qualifier h (y ++ [closing] ++ s)).1
  rw [← List.append_assoc] at hstarts
  refine Takes.cast (.advance_bind (i := opening) <| .write_bind _ <|
    .skipSpace_bind hx (y := z ++ (y ++ [closing])) ?_ <| (takes_typeOrUniversal_nil hstarts).bind <|
    (takes_qualifier h _).bind (u := ")") ?_) (by simp) (by simp [String.append_assoc])
  · intro hk
    rw [hk] at hstarts
    cases hstarts
  · exact takes_negationEnd hy hclosing s

theorem takes_part {n : Part} (h : n.Derives x) (s : Stream) : Takes (do
      if (← kind) = .negation then negation; return some ()
      else if ← qualifier then return some ()
      else return none) x n.text (some ()) s := by
  have hnegation {opening : Item} {y : List Item} {t : String} (hopening : opening.kind = .negation)
      (h : Takes negation (opening :: y) t () s) : Takes (do
      if (← kind) = .negation then negation; return some ()
      else if ← qualifier then return some ()
      else return none) (opening :: y) t (some ()) s := by
    refine .kind_bind hopening ?_
    rw [if_pos rfl]
    exact h.map fun _ => some ()
  cases h with
  | @qualifier q is h =>
    refine .kind_bind rfl ?_
    rw [if_neg (startsPart_of_qualifier h s).2]
    exact (takes_qualifier h s).bind_nil (.pure (some ()) s)
  | notType hopening hx hi hy hclosing => exact hnegation hopening (takes_negation_type hx hi hy hclosing s)
  | notQualifier hopening hx h hy hclosing => exact hnegation hopening (takes_negation_qualifier hx h hy hclosing s)

/-! ### Compounds -/

theorem takes_qualifier_nil (hs : s.kind.startsPart = false) : Takes qualifier [] "" false s := by
  refine .kind_bind (x := []) rfl ?_
  split
  all_goals first
    | exact .pure false s
    | rename_i hk; rw [show s.kind = _ from hk] at hs; cases hs

theorem takes_part_nil (hs : s.kind.startsPart = false) : Takes (do
      if (← kind) = .negation then negation; return some ()
      else if ← qualifier then return some ()
      else return none) [] "" none s := by
  refine .kind_bind (x := []) rfl ?_
  rw [List.nil_append, if_neg fun hk => by rw [hk] at hs; cases hs]
  exact .nil_bind (takes_qualifier_nil hs) (.pure none s)

theorem startsPart_of_part {n : Part} (h : n.Derives x) (s : Stream) : (Stream.kind (x ++ s)).startsPart = true := by
  cases h with
  | qualifier h => exact (startsPart_of_qualifier h s).1
  | notType hopening => simp [hopening, TokenKind.startsPart]
  | notQualifier hopening => simp [hopening, TokenKind.startsPart]

theorem ne_nil_of_part {n : Part} (h : n.Derives x) : x ≠ [] := by
  rintro rfl
  cases startsPart_of_part h []

theorem startsPart_append {xs : List Part} (h : DerivesParts xs x) (hs : s.kind.startsPart = true) :
    (Stream.kind (x ++ s)).startsPart = true := by
  induction h generalizing s with
  | nil => exact hs
  | concat h hn ih =>
    rw [List.append_assoc]
    exact ih (startsPart_of_part hn s)

theorem startsPart_of_parts {xs : List Part} (h : DerivesParts xs x) (hne : xs ≠ []) (s : Stream) :
    (Stream.kind (x ++ s)).startsPart = true := by
  cases h with
  | nil => exact absurd rfl hne
  | concat h hn =>
    rw [List.append_assoc]
    exact startsPart_append h (startsPart_of_part hn s)

/-- A reader that takes parts is repeated up to what follows the last one. -/
theorem takes_collect_parts {r : Reader (Option α)}
    (hr : ∀ (n : Part) (x : List Item) (s : Stream), n.Derives x → ∃ a, Takes r x n.text (some a) s)
    {xs : List Part} (h : DerivesParts xs x) (hnil : Takes r [] "" none s) :
    ∃ as, as.length = xs.length ∧ Takes (collect r) x (partsText xs) as s := by
  suffices hmore : ∀ y u as, Takes (collect r) y u as s →
      ∃ bs, bs.length = xs.length + as.length ∧ Takes (collect r) (x ++ y) (partsText xs ++ u) bs s by
    simpa using hmore [] "" [] (takes_collect_nil hnil)
  induction h with
  | nil => exact fun y u as hy => ⟨as, (Nat.zero_add _).symm, hy.cast rfl String.empty_append.symm⟩
  | @concat xs n is js h hn ih =>
    intro y u as hy
    obtain ⟨a, ha⟩ := hr n js (y ++ s) hn
    obtain ⟨bs, hlength, hbs⟩ := ih _ _ _ (takes_collect_cons ha (ne_nil_of_part hn) hy)
    refine ⟨bs, ?_, hbs.cast (by simp) (by simp [partsText_concat, String.append_assoc])⟩
    simp only [hlength, List.length_append, List.length_cons, List.length_nil]
    omega

theorem takes_compound {c : Compound} (h : c.Derives x) (hs : s.kind.startsPart = false) :
    Takes compound x c.text () s := by
  have hparts {xs : List Part} {y : List Item} (h : DerivesParts xs y) :=
    takes_collect_parts (fun n x s hn => ⟨(), takes_part hn s⟩) h (takes_part_nil hs)
  cases h with
  | @typed n i xs is hn h =>
    obtain ⟨as, -, has⟩ := hparts h
    exact (takes_typeOrUniversal hn _).bind <| has.bind_nil (.pure () s)
  | @untyped xs is hne h =>
    obtain ⟨as, hlength, has⟩ := hparts h
    have hsome : as.isEmpty = false := by
      rw [List.isEmpty_eq_false_iff, ne_eq, ← List.length_eq_zero_iff, hlength, List.length_eq_zero_iff]
      exact hne
    refine Takes.cast (.nil_bind (takes_typeOrUniversal_nil (startsPart_of_parts h hne s)) <| has.bind_nil ?_) rfl
      (by simp [Compound.text])
    rw [hsome]
    exact .pure () s

theorem startsCompound_of_compound {c : Compound} (h : c.Derives x) (s : Stream) :
    (Stream.kind (x ++ s)).startsCompound = true := by
  cases h with
  | typed hn h =>
    cases hn with
    | named hi => exact Item.startsCompound_of_word? hi
    | universal hi => simp [hi, TokenKind.startsCompound]
  | untyped hne h => exact TokenKind.startsCompound_of_startsPart (startsPart_of_parts h hne s)

theorem ne_nil_of_compound {c : Compound} (h : c.Derives x) : x ≠ [] := by
  rintro rfl
  cases startsCompound_of_compound h []

theorem startsCompound_eq (p : Progress) : startsCompound p = .ok p.stream.kind.startsCompound p := by
  unfold startsCompound
  rw [bind_kind]
  generalize hk : p.stream.kind = k
  split
  case h_7 hstar hhash hperiod hbracket hcolon hnegation =>
    have hpart : k.startsPart = false := by
      unfold TokenKind.startsPart
      split <;> simp_all
    rw [bind_name?]
    cases hs : p.stream with
    | nil =>
      rw [hs] at hk
      rw [← hk]
      rfl
    | cons i s =>
      rw [hs] at hk
      subst hk
      exact congrArg (EStateM.Result.ok · p) (Item.isSome_name?_eq_startsCompound hpart hstar)
  all_goals rfl

theorem Takes.startsCompound_bind {f : Bool → Reader β} {c : Bool} (hc : (Stream.kind (x ++ s)).startsCompound = c)
    (h : Takes (f c) x t b s) : Takes (Reader.startsCompound >>= f) x t b s := by
  intro hwhole p hp
  rw [bind_of_ok (startsCompound_eq p), hp, hc]
  exact h hwhole p hp

/-! ## Selectors -/

theorem sign_eq_of_kind {k : Combinator} {m : Punctuation} (hi : i.kind = .punct m) (hk : k.sign? = some m)
    (hspelled : i.Spelled) : i.kind.isCombinator = true ∧ k.text = " " ++ .ofList i.lexeme ++ " " := by
  have hcombinator : i.kind.isCombinator = true := by
    rw [hi]
    cases k <;> cases hk <;> rfl
  obtain ⟨k', m', hi', hk', htext⟩ := exists_combinator hcombinator (by simp [hi]) hspelled
  obtain rfl : m' = m := TokenKind.punct.inj (hi'.symm.trans hi)
  obtain rfl : k' = k := by cases k <;> cases hk <;> cases k' <;> cases hk' <;> rfl
  exact ⟨hcombinator, htext⟩

theorem takes_nextCompound {k : Combinator} {c : Compound} (hk : k.Derives x) (hspelled : ∀ i ∈ x, i.Spelled)
    (hc : c.Derives y) (hs : s.kind.startsPart = false) : Takes (do
      let spaced ← skipSpace
      if (← kind).isCombinator then
        write " "
        writeChars (← lexeme)
        write " "
        advance
        discard skipSpace
        compound
        return true
      else if spaced && (← startsCompound) then
        write " "
        compound
        return true
      else return false) (x ++ y) (k.text ++ c.text) true s := by
  have hcombinator : (Stream.kind (y ++ s)).isCombinator = false :=
    TokenKind.isCombinator_of_startsCompound (startsCompound_of_compound hc s)
  have hspace : Stream.kind (y ++ s) ≠ .space := fun h => by rw [h] at hcombinator; cases hcombinator
  cases hk with
  | spaces hx hne =>
    refine Takes.cast (.bind (x := x) (y := y) (u := " " ++ c.text) (takes_skipSpace hx hspace) ?_) rfl
      String.empty_append
    refine .kind_bind rfl ?_
    rw [hcombinator, if_neg Bool.false_ne_true]
    refine .startsCompound_bind (startsCompound_of_compound hc s) ?_
    rw [if_pos (by simpa using hne)]
    exact .write_bind _ <| (takes_compound hc hs).map fun _ => true
  | @sign k m x x' i hx hi hk hx' =>
    obtain ⟨hi', htext⟩ := sign_eq_of_kind hi hk (hspelled i (by simp))
    have hsign : i.kind ≠ .space := by simp [hi]
    refine Takes.cast (.bind (x := x) (y := i :: (x' ++ y)) (u := k.text ++ c.text) (takes_skipSpace hx hsign) ?_)
      (by simp) String.empty_append
    refine .kind_bind rfl ?_
    rw [if_pos (by simpa using hi'), htext]
    exact (Takes.write_bind _ <| .lexeme_bind <| .write_bind _ <| .write_bind _ <| .advance_bind <|
      .skipSpace_bind hx' hspace <| (takes_compound hc hs).map fun _ => true).cast rfl (by simp [String.append_assoc])

theorem startsPart_of_combinator {k : Combinator} (h : k.Derives x) (s : Stream) :
    (Stream.kind (x ++ s)).startsPart = false := by
  refine TokenKind.startsPart_of_isCombinator ?_
  have hspaces {z : List Item} {j : Item} (hz : Spaces z) (hj : j.kind.isCombinator = true) (s : Stream) :
      (Stream.kind (z ++ j :: s)).isCombinator = true := by
    cases z with
    | nil => exact hj
    | cons i z => simp [hz i List.mem_cons_self, TokenKind.isCombinator]
  cases h with
  | spaces hx hne =>
    obtain ⟨i, x, rfl⟩ := List.exists_cons_of_ne_nil hne
    simp [hx i List.mem_cons_self, TokenKind.isCombinator]
  | sign hx hi hk hx' =>
    rw [List.append_assoc, List.cons_append]
    refine hspaces hx ?_ _
    rw [hi]
    cases k <;> cases hk <;> rfl

theorem takes_selectorEnd (hx : Spaces x) (hs : s.kind.endsSelector = true) : Takes (do
      let spaced ← skipSpace
      if (← kind).isCombinator then
        write " "
        writeChars (← lexeme)
        write " "
        advance
        discard skipSpace
        compound
        return true
      else if spaced && (← startsCompound) then
        write " "
        compound
        return true
      else return false) x "" false s := by
  obtain ⟨hcompound, -, hcombinator⟩ := TokenKind.not_startsCompound_of_endsSelector hs
  have hspace : s.kind ≠ .space := fun h => by rw [h] at hs; cases hs
  refine (takes_skipSpace hx hspace).bind_nil <| .kind_bind (x := []) rfl ?_
  rw [List.nil_append, hcombinator, if_neg Bool.false_ne_true]
  refine .startsCompound_bind hcompound ?_
  rw [Bool.and_false, if_neg Bool.false_ne_true]
  exact .pure false s

theorem takes_selector {n : Selector} (h : n.Derives x) (hspelled : ∀ i ∈ x, i.Spelled) (hy : Spaces y)
    (hs : s.kind.endsSelector = true) : Takes selector (x ++ y) n.text () s := by
  -- what follows a compound is read by the loop: the induction is on the derivation, for any rest of it
  suffices hmore : ∀ z t, Takes (loop _) z t () s → (Stream.kind (z ++ s)).startsPart = false →
      Takes selector (x ++ z) (n.text ++ t) () s by
    refine (hmore y "" (takes_loop_of_false (takes_selectorEnd hy hs)) ?_).cast rfl String.append_empty
    cases y with
    | nil => exact (TokenKind.not_startsCompound_of_endsSelector hs).2.1
    | cons i y => simp [hy i List.mem_cons_self, TokenKind.startsPart]
  induction h with
  | compound h => exact fun z t hz hs => (takes_compound h hs).bind hz
  | @join outer k c is js ks houter hk hc ih =>
    intro z t hz hs
    have hspelled' : ∀ i ∈ js, i.Spelled := fun i hi => hspelled i (by simp [hi])
    have hne : js ++ ks ≠ [] := List.append_ne_nil_of_right_ne_nil js (ne_nil_of_compound hc)
    have hstep := takes_loop_of_true (takes_nextCompound hk hspelled' hc hs) hne hz
    have hfollow := startsPart_of_combinator hk (ks ++ z ++ s)
    refine (ih (fun i hi => hspelled i (by simp [hi])) _ _ hstep ?_).cast (by simp)
      (by simp [Selector.text, String.append_assoc])
    simpa using hfollow

theorem kind_ne_space_of_selector {n : Selector} (h : n.Derives x) (s : Stream) : Stream.kind (x ++ s) ≠ .space := by
  induction h generalizing s with
  | compound h =>
    intro hk
    have hcompound := startsCompound_of_compound h s
    rw [hk] at hcompound
    cases hcompound
  | join houter hk hc ih =>
    simp only [List.append_assoc]
    exact ih _

theorem takes_nextSelector {n : Selector} {comma : Item} (hcomma : comma.kind = .punct .comma) (hx : Spaces x)
    (h : n.Derives y) (hspelled : ∀ i ∈ y, i.Spelled) (hz : Spaces z) (hs : s.kind.endsSelector = true) : Takes (do
      if (← kind) = .punct .comma then
        advance
        discard skipSpace
        write ", "
        selector
        return true
      else return false) (comma :: x ++ y ++ z) (", " ++ n.text) true s := by
  have hspace : Stream.kind (y ++ z ++ s) ≠ .space := by
    rw [List.append_assoc]
    exact kind_ne_space_of_selector h _
  refine Takes.cast (.kind_bind (x := comma :: (x ++ (y ++ z))) (t := ", " ++ n.text) hcomma ?_) (by simp) rfl
  rw [if_pos rfl]
  exact .advance_bind <| .skipSpace_bind hx hspace <| .write_bind _ <|
    (takes_selector h hspelled hz hs).map fun _ => true

theorem takes_selectorsEnd (hs : s.kind = .punct .leftBrace) : Takes (do
      if (← kind) = .punct .comma then
        advance
        discard skipSpace
        write ", "
        selector
        return true
      else return false) [] "" false s := by
  refine .kind_bind (x := []) hs ?_
  rw [if_neg nofun]
  exact .pure false s

/-- Selectors are taken up to the brace that opens the block. -/
theorem takes_selectors {g : Group} (h : g.Derives x) (hspelled : ∀ i ∈ x, i.Spelled)
    (hs : s.kind = .punct .leftBrace) : Takes selectors x g.text () s := by
  suffices hmore : ∀ z t, Takes (loop do
      if (← kind) = .punct .comma then
        advance
        discard skipSpace
        write ", "
        selector
        return true
      else return false) z t () s → (Stream.kind (z ++ s)).endsSelector = true →
      Takes selectors (x ++ z) (g.text ++ t) () s by
    have hends : (Stream.kind ([] ++ s)).endsSelector = true := by simp [hs, TokenKind.endsSelector]
    simpa using hmore [] "" (takes_loop_of_false (takes_selectorsEnd hs)) hends
  induction h with
  | one h hy =>
    intro z t hz hs
    exact (takes_selector h (fun i hi => hspelled i (by simp [hi])) hy hs).bind hz
  | @also g n comma is y js y' hg hcomma hy h hy' ih =>
    intro z t hz hs
    have hspelled' : ∀ i ∈ js, i.Spelled := fun i hi => hspelled i (by simp [hi])
    have hnext := takes_loop_of_true (takes_nextSelector hcomma hy h hspelled' hy' hs) (by simp) hz
    exact (ih (fun i hi => hspelled i (by simp [hi])) _ _ hnext (by simp [hcomma, TokenKind.endsSelector])).cast
      (by simp) (by simp [Group.text, String.append_assoc])

/-! ## The selector of a rule -/

theorem takes_header {g : Group} {brace : Item} (h : g.Derives x) (hspelled : ∀ i ∈ x, i.Spelled)
    (hbrace : brace.kind = .punct .leftBrace) (s : Stream) : Takes header (x ++ [brace]) g.text () s :=
  (Takes.bind (takes_selectors h hspelled (s := [brace] ++ s) hbrace) (.expect hbrace s)).cast rfl
    String.append_empty

end Reader

/-- The rest of the items of a text, with no address left open. -/
structure Stream.Faultless (s : Stream) : Prop where
  whole : s.Whole
  suffix : ∃ text, s <:+ Stream.ofText text

namespace Stream.Faultless

open Grammar Reader

variable {p q : Progress} {g : Group}

theorem spelled {s : Stream} (h : s.Faultless) : ∀ i ∈ s, i.Spelled := by
  intro i hi
  obtain ⟨text, hs⟩ := h.suffix
  exact Item.spelled_of_mem_ofText (hs.subset hi)

theorem header_of_derives (h : p.stream.Faultless) {brace : Item} {s : Stream}
    (hbrace : brace.kind = .punct .leftBrace) (hs : p.stream = p.stream.beforeBlock ++ brace :: s)
    (hg : g.Derives p.stream.beforeBlock) : header p = .ok () (p.past s g.text) := by
  have hs' : p.stream = p.stream.beforeBlock ++ [brace] ++ s := by rwa [List.append_assoc]
  have hspelled : ∀ i ∈ p.stream.beforeBlock, i.Spelled := fun i hi =>
    h.spelled i ((List.takeWhile_prefix _).subset hi)
  exact takes_header hg hspelled hbrace s (hs' ▸ h.whole) p hs'

/-- Whatever group the reader has followed, every other one that derives the items has its text. -/
theorem selector_of_header (h : p.stream.Faultless) (hq : header p = .ok () q)
    (hg : g.Derives p.stream.beforeBlock) : q.selector = p.selector ++ g.text := by
  obtain ⟨-, brace, -, hbrace, hs, -⟩ := exists_group_of_header h.spelled hq
  injection hq.symm.trans (h.header_of_derives hbrace hs hg) with _ hq
  rw [hq]
  rfl

end Stream.Faultless

open Grammar Reader

/-- Where no address is left open, the selector of a rule is read up to its brace exactly if there is a brace and the
items in front of it are derived. The text that is written is then that of every group that derives them. So it is the
same for all items that one group derives: spaces that mean nothing and comments make no difference. -/
theorem header_reads_iff_derives {p : Progress} (hp : p.stream.Faultless) :
    ((∃ q, header p = .ok () q) ↔
      (∃ i ∈ p.stream, i.kind = .punct .leftBrace) ∧ ∃ g, Group.Derives g p.stream.beforeBlock) ∧
    ∀ q, header p = .ok () q →
      (∃ brace, brace.kind = .punct .leftBrace ∧ p.stream = p.stream.beforeBlock ++ brace :: q.stream) ∧
      ∀ g, Group.Derives g p.stream.beforeBlock → q.selector = p.selector ++ g.text ∧
        ∀ p' q', p'.stream.Faultless → Group.Derives g p'.stream.beforeBlock → header p' = .ok () q' →
          p'.selector = p.selector → q'.selector = q.selector := by
  refine ⟨⟨?_, ?_⟩, ?_⟩
  · rintro ⟨q, h⟩
    obtain ⟨g, brace, hg, hbrace, hs, -⟩ := exists_group_of_header hp.spelled h
    exact ⟨⟨brace, hs ▸ List.mem_append_right _ List.mem_cons_self, hbrace⟩, g, hg⟩
  · rintro ⟨hbrace, g, hg⟩
    obtain ⟨brace, s, hk, hs⟩ := Stream.exists_eq_beforeBlock_append hbrace
    exact ⟨_, hp.header_of_derives hk hs hg⟩
  · intro q h
    constructor
    · obtain ⟨-, brace, -, hbrace, hs, -⟩ := exists_group_of_header hp.spelled h
      exact ⟨brace, hbrace, hs⟩
    · intro g hg
      constructor
      · exact hp.selector_of_header h hg
      · intro p' q' hp' hg' h' hselector
        rw [hp'.selector_of_header h' hg', hp.selector_of_header h hg, hselector]

/-- The spaces in front of the comma and the brace stand in the items, not in the text of the group. -/
theorem header_reads_spaced :
    let p := Progress.start (Stream.ofText "a ,b \x7b").tail
    p.stream.Faultless ∧ p.stream.beforeBlock.map Item.kind = [.ident "a", .space, .punct .comma, .ident "b", .space] ∧
      ∃ g, Group.Derives g p.stream.beforeBlock ∧ g.text = "a, b" := by
  intro p
  have hs : p.stream = [.token ⟨.ident "a", ['a'], 0⟩, .token ⟨.space, [' '], 1⟩,
      .token ⟨.punct .comma, [','], 2⟩, .token ⟨.ident "b", ['b'], 3⟩, .token ⟨.space, [' '], 4⟩,
      .token ⟨.punct .leftBrace, ['\x7b'], 5⟩] := by cbv
  have hp : p.stream.Faultless := by
    constructor
    · intro i hi
      rw [hs] at hi
      simp only [List.mem_cons, List.not_mem_nil, or_false] at hi
      rcases hi with rfl | rfl | rfl | rfl | rfl | rfl <;> exact ⟨_, rfl⟩
    · exact ⟨"a ,b \x7b", List.tail_suffix (Stream.ofText "a ,b \x7b")⟩
  obtain ⟨q, hq, htext⟩ : ∃ q, header p = .ok () q ∧ q.selector = "a, b" := ⟨_, by cbv, rfl⟩
  obtain ⟨-, g, hg⟩ := (header_reads_iff_derives hp).1.mp ⟨q, hq⟩
  obtain ⟨hselector, -⟩ := ((header_reads_iff_derives hp).2 q hq).2 g hg
  refine ⟨hp, ?_, g, hg, ?_⟩
  · rw [hs]
    decide
  · rw [← htext, hselector]
    exact String.empty_append.symm

end SlotGrid.Style
