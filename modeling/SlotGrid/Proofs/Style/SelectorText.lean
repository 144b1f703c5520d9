import SlotGrid.Proofs.Style.Derivation
import SlotGrid.Proofs.Style.Registrations
import SlotGrid.Proofs.Style.TopLevel

/-! # The text of the selector of a rule

The selector of a rule that is kept is the text of a group that derives the items in front of the block.
-/

namespace SlotGrid.Style

open Grammar

/-! ## The items of a text -/

theorem Item.spelled_ofScan (n : ℕ) (c : Char) (cs : List Char) : (Item.ofScan n (scan c cs)).Spelled := by
  intro m hm
  obtain ⟨hc, hscan⟩ := scan_of_punct (Item.ofScan_of_kind hm nofun)
  exact ⟨c, by rw [Item.lexeme_ofScan, hscan], hc⟩

theorem Item.spelled_of_mem_items {c : Cursor} {i : Item} (hi : i ∈ c.items) : i.Spelled := by
  obtain ⟨n, c, cs, rfl⟩ := exists_scan_of_mem_items hi
  exact spelled_ofScan n c cs

theorem Item.spelled_of_mem_ofText {text : String} {i : Item} (hi : i ∈ Stream.ofText text) : i.Spelled := by
  rcases List.mem_cons.mp hi with rfl | hi
  · nofun
  · exact spelled_of_mem_items (List.mem_of_mem_filter hi)

/-! ## Rules -/

namespace Stream

/-- The items in front of the first brace that opens. -/
def beforeBlock (s : Stream) : List Item := s.takeWhile (·.kind ≠ .punct .leftBrace)

theorem beforeBlock_append {is : List Item} (his : ∀ i ∈ is, i.kind ≠ .punct .leftBrace) {brace : Item}
    (hbrace : brace.kind = .punct .leftBrace) (s : Stream) : beforeBlock (is ++ brace :: s) = is := by
  unfold beforeBlock
  rw [List.takeWhile_append_of_pos fun i hi => decide_eq_true (his i hi),
    List.takeWhile_cons_of_neg (by simpa using hbrace), List.append_nil]

/-- A stream with a brace that opens goes on with the first one after the items in front of it. -/
theorem exists_eq_beforeBlock_append {s : Stream} (h : ∃ i ∈ s, i.kind = .punct .leftBrace) :
    ∃ brace t, brace.kind = .punct .leftBrace ∧ s = s.beforeBlock ++ brace :: t := by
  obtain ⟨i, hi, hk⟩ := h
  have hne : s.dropWhile (·.kind ≠ .punct .leftBrace) ≠ [] := by
    intro hnil
    have hall := List.dropWhile_eq_nil_iff.mp hnil i hi
    simp [hk] at hall
  obtain ⟨brace, t, hs⟩ := List.exists_cons_of_ne_nil hne
  refine ⟨brace, t, ?_, ?_⟩
  · have hhead := List.head?_dropWhile_not (fun i : Item => decide (i.kind ≠ .punct .leftBrace)) s
    rw [hs] at hhead
    simpa using hhead
  · rw [← hs]
    exact List.takeWhile_append_dropWhile.symm

end Stream

namespace Progress

/-- The items of the next rule in front of its block. -/
def prelude (p : Progress) : List Item :=
  (p.stream.dropWhile Item.isNoise).takeWhile (·.kind ≠ .punct .leftBrace)

/-- The stream has been read further. -/
def Further (p q : Progress) : Prop := q.stream <:+ p.stream

instance : IsPreorder Progress Further where
  refl _ := List.suffix_rfl
  trans _ _ _ h h' := h'.trans h

instance : SheetFrame Further where
  of_kept hs _ _ := hs
  of_report _ _ := List.suffix_rfl
  of_template _ _ _ _ _ _ _ := List.suffix_rfl
  of_rule _ _ := List.suffix_rfl

end Progress

namespace Reader

variable {registered : ℕ} {p q : Progress} {r : Rule}

/-- The selector of a rule, and the brace behind it. -/
def header : Reader Unit := do
  selectors
  expect (.punct .leftBrace) "'\x7b'"

theorem rule_eq_header (registered : ℕ) : rule registered = do
    header
    modify ({ · with depth := 1 })
    loop (blockItem registered)
    return ⟨(← get).selector, (← get).declarations⟩ := by
  unfold rule header
  rw [bind_assoc]

/-- What is read up to the brace is all that stands in front of it, and derived by a group. -/
theorem exists_group_of_header (hspelled : ∀ i ∈ p.stream, i.Spelled) {a : Unit} (h : header p = .ok a q) :
    ∃ g brace, Group.Derives g p.stream.beforeBlock ∧ brace.kind = .punct .leftBrace ∧
      p.stream = p.stream.beforeBlock ++ brace :: q.stream ∧ q.selector = p.selector ++ g.text := by
  obtain ⟨_, p₁, hselectors, hexpect⟩ := bind_eq_ok.mp h
  obtain ⟨g, source, hg, hreads⟩ := reads_selectors hspelled hselectors
  obtain ⟨brace, hbrace, hreads'⟩ := reads_expect hexpect nofun
  obtain ⟨passed, hpassed, hs⟩ := (plain_selectors.of_ok (R := Progress.Wrote) hselectors).passed
  obtain rfl : passed = source := List.append_cancel_right (hs.trans hreads.stream)
  have hstream : p.stream = passed ++ brace :: q.stream := by rw [hreads.stream, hreads'.stream, List.singleton_append]
  have hbefore : p.stream.beforeBlock = passed := by
    rw [hstream]
    refine Stream.beforeBlock_append (fun i hi hk => hpassed i hi ?_) hbrace q.stream
    rw [hk]
    rfl
  refine ⟨g, brace, hbefore ▸ hg, hbrace, hbefore.symm ▸ hstream, ?_⟩
  rw [hreads'.selector, hreads.selector, String.append_empty]

theorem exists_group_of_rule (hspelled : ∀ i ∈ p.stream, i.Spelled) (h : rule registered p = .ok r q) :
    ∃ g, Group.Derives g p.stream.beforeBlock ∧ r.selector = p.selector ++ g.text := by
  rw [rule_eq_header] at h
  obtain ⟨_, p₂, hheader, h⟩ := bind_eq_ok.mp h
  obtain ⟨_, p₃, hmodify, h⟩ := bind_eq_ok.mp h
  cases hmodify
  obtain ⟨_, p₄, hblock, h⟩ := bind_eq_ok.mp h
  cases h
  obtain ⟨g, _, hg, -, -, hselector⟩ := exists_group_of_header hspelled hheader
  have hselector' : q.selector = p₂.selector := ((within_loop collected_blockItem).of_ok hblock).selector
  exact ⟨g, hg, hselector'.trans hselector⟩

theorem exists_group_of_rule? (hspelled : ∀ i ∈ p.stream, i.Spelled) (h : rule? registered p = .ok (some r) q) :
    ∃ g, Group.Derives g p.prelude ∧ r.selector = p.selector ++ g.text := by
  unfold rule? at h
  obtain ⟨_, p₁, hnoise, h⟩ := bind_eq_ok.mp h
  obtain rfl := skipNoise_eq_ok hnoise
  obtain ⟨k, p₂, hkind, h⟩ := bind_eq_ok.mp h
  split at h
  · cases h
  · obtain ⟨_, p₃, -, h⟩ := bind_eq_ok.mp h
    cases h
  · obtain ⟨r', p₃, hrule, h⟩ := bind_eq_ok.mp h
    cases h
    cases hkind
    refine exists_group_of_rule (fun i hi => hspelled i ?_) hrule
    exact (List.dropWhile_suffix Item.isNoise).subset hi

end Reader

/-- The selector of a rule that is kept is derived. -/
theorem exists_group_of_kept {registered : ℕ} {text : String} {p : Progress} {r : Rule}
    (hp : p ∈ (Progress.start (.ofText text)).starts registered) (hr : p.kept? registered = some r) :
    ∃ g, Group.Derives g p.prelude ∧ r.selector = g.text := by
  obtain ⟨q, h⟩ := Progress.kept?_eq_some.mp hr
  have hspelled : ∀ i ∈ p.fresh.stream, i.Spelled := by
    intro i hi
    have hfurther : Progress.Further _ p := Progress.keeps_starts hp
    exact Item.spelled_of_mem_ofText (hfurther.subset hi)
  obtain ⟨g, hg, hselector⟩ := Reader.exists_group_of_rule? hspelled h
  exact ⟨g, hg, hselector.trans String.empty_append⟩

end SlotGrid.Style
