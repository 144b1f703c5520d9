import SlotGrid.Proofs.Document.Preorder
import SlotGrid.Proofs.Document.Reading

/-! # Chains of elements

A chain stands for elements of the document, one for each of its compounds, that lie above each other as its
combinators say. The reading finds them wherever they are, since it tries every element above. The query selects the
elements of the tree at which such elements end, in the order of the tree.
-/

namespace SlotGrid.Document

variable {d : Document} {e x : ElementId}

/-- How an element lies below that of the compound before. -/
inductive Combinator
  | child
  | descendant
  deriving DecidableEq, Repr

/-- Whether the second element is the parent of the first, or anywhere above it. -/
def Combinator.Joins (d : Document) : Combinator → ElementId → ElementId → Prop
  | child => d.IsChild
  | descendant => d.Below

namespace Chain

/-- The last compound comes first. -/
def compounds : Chain → List Compound
  | compound c => [c]
  | child outer c | descendant outer c => c :: outer.compounds

/-- The last combinator comes first. -/
def combinators : Chain → List Combinator
  | compound _ => []
  | child outer _ => .child :: outer.combinators
  | descendant outer _ => .descendant :: outer.combinators

/-- The elements that a chain stands for, from the innermost on: one for each compound, joined by the combinators. -/
structure IsPath (d : Document) (chain : Chain) (es : List ElementId) : Prop where
  length : es.length = chain.compounds.length
  holds : ∀ (i : ℕ) (c : Compound) (e : ElementId), chain.compounds[i]? = some c → es[i]? = some e →
    (d.get? e).any c.holds = true
  joined : ∀ (i : ℕ) (k : Combinator) (e outer : ElementId), chain.combinators[i]? = some k → es[i]? = some e →
    es[i + 1]? = some outer → k.Joins d e outer

theorem isPath_compound {c : Compound} {above : List ElementId} :
    (compound c).IsPath d (e :: above) ↔ (d.get? e).any c.holds = true ∧ above = [] := by
  constructor
  · rintro ⟨hlength, hholds, -⟩
    exact ⟨hholds 0 c e rfl rfl, List.eq_nil_of_length_eq_zero (Nat.succ.inj hlength)⟩
  · rintro ⟨he, rfl⟩
    refine ⟨rfl, fun i c' e' hc he' => ?_, fun _ _ _ _ hk => by cases hk⟩
    cases i with
    | zero =>
      cases hc
      cases he'
      exact he
    | succ i => cases hc

/-- The last compound of a chain asks for one element more, joined to those of the chain before. -/
theorem isPath_cons {outer chain : Chain} {k : Combinator} {c : Compound} {above : List ElementId}
    (hcompounds : chain.compounds = c :: outer.compounds) (hcombinators : chain.combinators = k :: outer.combinators) :
    chain.IsPath d (e :: above) ↔ (d.get? e).any c.holds = true ∧
      ∃ x above', above = x :: above' ∧ k.Joins d e x ∧ outer.IsPath d (x :: above') := by
  constructor
  · rintro ⟨hlength, hholds, hjoined⟩
    rw [hcompounds] at hlength hholds
    rw [hcombinators] at hjoined
    refine ⟨hholds 0 c e rfl rfl, ?_⟩
    cases above with
    | nil => cases outer <;> cases hlength
    | cons x above' =>
      refine ⟨x, above', rfl, hjoined 0 k e x rfl rfl rfl, Nat.succ.inj hlength, fun i => ?_, fun i => ?_⟩
      · exact hholds (i + 1)
      · exact hjoined (i + 1)
  · rintro ⟨he, x, above', rfl, hx, hlength, hholds, hjoined⟩
    refine ⟨by rw [hcompounds, List.length_cons, hlength, List.length_cons], fun i c' e' hc he' => ?_,
      fun i k' e' x' hk he' hx' => ?_⟩
    · rw [hcompounds] at hc
      cases i with
      | zero =>
        cases hc
        cases he'
        exact he
      | succ i => exact hholds i c' e' hc he'
    · rw [hcombinators] at hk
      cases i with
      | zero =>
        cases hk
        cases he'
        cases hx'
        exact hx
      | succ i => exact hjoined i k' e' x' hk he' hx'

theorem exists_isPath_iff {outer chain : Chain} {k : Combinator} {c : Compound}
    (hcompounds : chain.compounds = c :: outer.compounds) (hcombinators : chain.combinators = k :: outer.combinators) :
    (∃ above, chain.IsPath d (e :: above)) ↔ (d.get? e).any c.holds = true ∧
      ∃ x, k.Joins d e x ∧ ∃ above, outer.IsPath d (x :: above) := by
  simp only [isPath_cons hcompounds hcombinators]
  constructor
  · rintro ⟨_, he, x, above, rfl, hx, habove⟩
    exact ⟨he, x, hx, above, habove⟩
  · rintro ⟨he, x, hx, above, habove⟩
    exact ⟨x :: above, he, x, above, rfl, hx, habove⟩

end Chain

/-- A chain selects the elements that are the innermost of those that it stands for. -/
theorem IsForest.holds_iff (h : d.IsForest) (chain : Chain) :
    chain.holds d e = true ↔ ∃ above, chain.IsPath d (e :: above) := by
  induction chain generalizing e with
  | compound c => simp only [Chain.isPath_compound, Chain.holds, exists_eq_right]
  | child outer c ih =>
    rw [Chain.holds, Bool.and_eq_true, Option.any_eq_true (Chain.holds d outer),
      Chain.exists_isPath_iff (k := .child) rfl rfl]
    exact and_congr_right fun _ => exists_congr fun p => and_congr_right fun _ => ih
  | descendant outer c ih =>
    rw [Chain.holds, Bool.and_eq_true, List.any_eq_true, Chain.exists_isPath_iff (k := .descendant) rfl rfl]
    exact and_congr_right fun _ => exists_congr fun a => and_congr h.mem_ancestors ih

/-! ## Reading chains -/

namespace Chain

/-- The words of a chain. Child signs in a row are one combinator. -/
inductive Spells : List (List Char) → Chain → Prop
  | compound {word : List Char} {c : Compound} : Compound.read? word = some c → Spells [word] (.compound c)
  | child {words : List (List Char)} {outer : Chain} {n : ℕ} {word : List Char} {c : Compound} : Spells words outer →
      Compound.read? word = some c → Spells (words ++ (List.replicate (n + 1) ['>'] ++ [word])) (.child outer c)
  | descendant {words : List (List Char)} {outer : Chain} {word : List Char} {c : Compound} : Spells words outer →
      Compound.read? word = some c → Spells (words ++ [word]) (.descendant outer c)

/-- What is read after some child signs spells a chain with them. -/
theorem Spells.of_extend? {outer chain : Chain} {words words' : List (List Char)} {n : ℕ} (h : Spells words outer)
    (hread : extend? outer (decide (0 < n)) words' = some chain) :
    Spells (words ++ (List.replicate n ['>'] ++ words')) chain := by
  induction words' generalizing outer words n with
  | nil =>
    cases n with
    | zero =>
      cases hread
      simpa using h
    | succ n => cases hread
  | cons word words' ih =>
    rw [extend?] at hread
    by_cases hsign : word = ['>']
    · rw [if_pos hsign] at hread
      have hmore := ih (n := n + 1) h (by simpa using hread)
      rwa [List.replicate_succ', List.append_assoc, List.singleton_append, ← congrArg (· :: words') hsign] at hmore
    · rw [if_neg hsign] at hread
      obtain ⟨c, hc, hread⟩ := Option.bind_eq_some_iff.mp hread
      have hlast : Spells (words ++ (List.replicate n ['>'] ++ [word]))
          (if decide (0 < n) then Chain.child outer c else Chain.descendant outer c) := by
        cases n with
        | zero => exact h.descendant hc
        | succ n => exact h.child hc
      have hmore := ih (n := 0) hlast hread
      simpa using hmore

theorem extend?_signs (outer : Chain) (isChild : Bool) (n : ℕ) (words : List (List Char)) :
    extend? outer isChild (List.replicate (n + 1) ['>'] ++ words) = extend? outer true words := by
  induction n generalizing isChild with
  | zero => rw [List.replicate_one, List.singleton_append, extend?, if_pos rfl]
  | succ n ih => rw [List.replicate_succ, List.cons_append, extend?, if_pos rfl, ih]

theorem Spells.exists_extend? {chain : Chain} {words : List (List Char)} (h : Spells words chain) :
    ∃ word rest c, words = word :: rest ∧ Compound.read? word = some c ∧
      extend? (.compound c) false rest = some chain := by
  induction h with
  | @compound word c hc => exact ⟨word, [], c, rfl, hc, rfl⟩
  | @child words outer n word c _ hc ih =>
    obtain ⟨first, rest, c', rfl, hc', hread⟩ := ih
    refine ⟨first, _, c', List.cons_append, hc', ?_⟩
    rw [extend?_append hread, extend?_signs, extend?_word hc]
    rfl
  | @descendant words outer word c _ hc ih =>
    obtain ⟨first, rest, c', rfl, hc', hread⟩ := ih
    refine ⟨first, _, c', List.cons_append, hc', ?_⟩
    rw [extend?_append hread, extend?_word hc]
    rfl

/-- A text is read as the chain that its words spell. -/
theorem read?_eq_some_iff {cs : List Char} {chain : Chain} : read? cs = some chain ↔ Spells (words cs) chain := by
  unfold read?
  constructor
  · intro h
    split at h
    · cases h
    · rename_i word rest hwords
      obtain ⟨c, hc, hread⟩ := Option.bind_eq_some_iff.mp h
      have hspells := Spells.of_extend? (n := 0) (.compound hc) hread
      rwa [hwords]
  · intro h
    obtain ⟨word, rest, c, hwords, hc, hread⟩ := h.exists_extend?
    rw [hwords]
    dsimp only
    rw [hc]
    exact hread

theorem intercalate_alternatives (cs : List Char) : [','].intercalate (alternatives cs) = cs := by
  induction cs with
  | nil => rfl
  | cons c cs ih =>
    obtain ⟨part, parts, hcs⟩ := List.exists_cons_of_ne_nil (alternatives_ne_nil cs)
    rw [hcs] at ih
    rw [alternatives, hcs]
    dsimp only
    split_ifs with hc
    · rw [List.intercalate_cons_cons, ih, hc]
      rfl
    · cases parts with
      | nil => simpa using ih
      | cons part' parts =>
        rw [List.intercalate_cons_cons] at ih ⊢
        simpa using ih

theorem not_comma_of_mem_alternatives {cs : List Char} : ∀ part ∈ alternatives cs, ',' ∉ part := by
  induction cs with
  | nil => exact List.forall_mem_singleton.mpr List.not_mem_nil
  | cons c cs ih =>
    obtain ⟨part, parts, hcs⟩ := List.exists_cons_of_ne_nil (alternatives_ne_nil cs)
    rw [hcs] at ih
    rw [alternatives, hcs]
    dsimp only
    split_ifs with hc
    · exact List.forall_mem_cons.mpr ⟨List.not_mem_nil, ih⟩
    · obtain ⟨hpart, hparts⟩ := List.forall_mem_cons.mp ih
      refine List.forall_mem_cons.mpr ⟨fun hmem => ?_, hparts⟩
      rcases List.mem_cons.mp hmem with rfl | hmem
      · exact hc rfl
      · exact hpart hmem

end Chain

/-! ## Queries -/

namespace Chain

theorem mapM_read?_eq_none_iff {members : List (List Char)} :
    members.mapM read? = none ↔ ∃ m ∈ members, ∀ chain, ¬ Spells (words m) chain := by
  simp only [← read?_eq_some_iff]
  constructor
  · intro h
    induction members with
    | nil => cases h
    | cons m ms ih =>
      cases hm : read? m with
      | none => exact ⟨m, List.mem_cons_self, fun chain hread => by rw [hm] at hread; cases hread⟩
      | some x =>
        cases hms : ms.mapM read? with
        | none =>
          obtain ⟨m', hm', hnone⟩ := ih hms
          exact ⟨m', List.mem_cons_of_mem m hm', hnone⟩
        | some xs =>
          rw [List.mapM_cons, hm, hms] at h
          cases h
  · rintro ⟨m, hm, hnone⟩
    refine Option.eq_none_iff_forall_ne_some.mpr fun chains h => ?_
    obtain ⟨chain, hchain⟩ := exists_of_mapM h m hm
    exact hnone chain hchain

theorem mem_of_mapM_read? {members : List (List Char)} {chains : List Chain} (h : members.mapM read? = some chains)
    {chain : Chain} : chain ∈ chains ↔ ∃ m ∈ members, Spells (words m) chain := by
  simp only [← read?_eq_some_iff]
  induction members generalizing chains with
  | nil =>
    cases h
    simp
  | cons m ms ih =>
    rw [List.mapM_cons] at h
    obtain ⟨x, hx, h⟩ := Option.bind_eq_some_iff.mp h
    obtain ⟨xs, hxs, h⟩ := Option.bind_eq_some_iff.mp h
    cases h
    rw [List.mem_cons, ih hxs]
    simp [hx, eq_comm]

end Chain

theorem query_sublist_tree (d : Document) (selector : String) : (d.query selector).Sublist d.tree := by
  unfold query
  cases Chain.readAll? selector with
  | none => exact List.nil_sublist _
  | some chains => exact List.filter_sublist

/-- In a forest a chain selects an element exactly if there are elements for all its compounds that end with this one,
each a child of the next or anywhere below it, as the combinator between them is. A query cuts its selector at the
commas. If all of the parts can be read, it gives the elements of the tree that one of them selects, each once and in
the order of the tree. If one of them cannot be read, it gives nothing. -/
theorem query_selects (h : d.IsForest) (selector : String) :
    let members := Chain.alternatives selector.toList
    ([','].intercalate members = selector.toList ∧ members ≠ [] ∧ ∀ m ∈ members, ',' ∉ m) ∧
    (∀ (chain : Chain) e, chain.holds d e = true ↔ ∃ above, chain.IsPath d (e :: above)) ∧
    (∀ r, d.root? = some r → ∀ visited, d.Visits [r] visited → (d.query selector).Sublist visited) ∧
    (d.query selector).Nodup ∧ (d.query selector).Pairwise d.Precedes ∧
    ((∃ m ∈ members, ∀ chain, ¬ Chain.Spells (Chain.words m) chain) → d.query selector = []) ∧
    ((∀ m ∈ members, ∃ chain, Chain.Spells (Chain.words m) chain) →
      ∀ e, e ∈ d.query selector ↔ (∃ r, d.root? = some r ∧ d.Under e r) ∧
        ∃ m ∈ members, ∃ chain, Chain.Spells (Chain.words m) chain ∧ ∃ above, chain.IsPath d (e :: above)) := by
  intro members
  have hmembers : [','].intercalate members = selector.toList ∧ members ≠ [] ∧ ∀ m ∈ members, ',' ∉ m :=
    ⟨Chain.intercalate_alternatives _, Chain.alternatives_ne_nil _, Chain.not_comma_of_mem_alternatives⟩
  have hsublist := d.query_sublist_tree selector
  have hpairwise := h.pairwise_precedes_tree.sublist hsublist
  refine ⟨hmembers, fun chain e => h.holds_iff chain, fun r hr visited hvisited => ?_, ?_, hpairwise, fun hunread => ?_,
    fun hall e => ?_⟩
  · rwa [(h.visits_root_iff hr).mp hvisited]
  · refine hpairwise.imp fun {x y} hxy heq => ?_
    exact h.not_precedes_self y (heq ▸ hxy)
  · have hnone : Chain.readAll? selector = none := Chain.mapM_read?_eq_none_iff.mpr hunread
    unfold query
    rw [hnone]
    rfl
  · unfold query
    cases hchains : Chain.readAll? selector with
    | none =>
      obtain ⟨m, hm, hnone⟩ := Chain.mapM_read?_eq_none_iff.mp hchains
      obtain ⟨chain, hspells⟩ := hall m hm
      exact absurd hspells (hnone chain)
    | some chains =>
      rw [Option.elim_some, List.mem_filter, h.mem_tree, List.any_eq_true]
      refine and_congr_right fun _ => ?_
      simp only [Chain.mem_of_mapM_read? hchains, h.holds_iff]
      constructor
      · rintro ⟨chain, ⟨m, hm, hspells⟩, habove⟩
        exact ⟨m, hm, chain, hspells, habove⟩
      · rintro ⟨m, hm, chain, hspells, habove⟩
        exact ⟨chain, ⟨m, hm, hspells⟩, habove⟩

/-- The nearest division above the span is no child of the body, but another one is. -/
theorem query_selects_span :
    let d := ((((((Document.empty .standard).insert (.ofTag "body")).insertUnder (.ofTag "div") ⟨0⟩).insertUnder
      (.ofTag "p") ⟨1⟩).insertUnder (.ofTag "div") ⟨2⟩).insertUnder (.ofTag "span") ⟨3⟩)
    let chain : Chain := .descendant (.child (.compound ⟨some "body", none, []⟩) ⟨some "div", none, []⟩)
      ⟨some "span", none, []⟩
    d.IsForest ∧ (∃ above, chain.IsPath d (⟨4⟩ :: above)) ∧ ⟨4⟩ ∈ d.query "body>div span,h1" ∧
      (d.query "body>div span,h1").Pairwise d.Precedes := by
  intro d chain
  have hempty : (Document.empty .standard).IsForest := ⟨nofun, List.nodup_nil, fun _ => not_below_of_parent? rfl⟩
  have hd : d.IsForest := hempty.insert (.ofTag "body")
    |>.insertUnder (.ofTag "div") (p := ⟨0⟩) (Nat.lt_add_one 0)
    |>.insertUnder (.ofTag "p") (p := ⟨1⟩) (Nat.lt_add_one 1)
    |>.insertUnder (.ofTag "div") (p := ⟨2⟩) (Nat.lt_add_one 2)
    |>.insertUnder (.ofTag "span") (p := ⟨3⟩) (Nat.lt_add_one 3)
  obtain ⟨-, hholds, -, -, hpairwise, -, hmem⟩ := query_selects hd "body>div span,h1"
  have hmembers : Chain.alternatives "body>div span,h1".toList = ["body>div span".toList, "h1".toList] := by decide
  have hchain : Chain.Spells (Chain.words "body>div span".toList) chain :=
    Chain.read?_eq_some_iff.mp (by decide +kernel)
  have hother : Chain.Spells (Chain.words "h1".toList) (.compound ⟨some "h1", none, []⟩) :=
    Chain.read?_eq_some_iff.mp (by decide +kernel)
  have hpath := (hholds chain ⟨4⟩).mp (by decide +kernel)
  rw [hmembers] at hmem
  simp only [List.forall_mem_cons, List.exists_mem_cons_iff] at hmem
  refine ⟨hd, hpath, (hmem ⟨⟨chain, hchain⟩, ⟨_, hother⟩, nofun⟩ ⟨4⟩).mpr ⟨?_, .inl ⟨chain, hchain, hpath⟩⟩, hpairwise⟩
  exact hd.mem_tree.mp (by decide +kernel)

end SlotGrid.Document
