import Mathlib
import SlotGrid.Document.Selector
import SlotGrid.Style.CharClass

/-! # Reading the texts of selectors

A text is cut at its commas, an alternative at its blanks and child signs, and a word at its marks. What the pieces
are when texts are put together, and which characters a text can hold that is read.
-/

namespace SlotGrid

/-! ## Characters -/

namespace Text

theorem CodeRanges.holds_iff {t : CodeRanges} {c : Char} :
    t.holds c = true ↔ ∃ r ∈ t.toList, r.1 ≤ c.toNat ∧ c.toNat ≤ r.2 := by
  unfold CodeRanges.holds
  rw [← Array.any_toList, List.any_eq_true]
  simp only [decide_eq_true_iff]

theorem CodeRanges.holds_eq_false_iff {t : CodeRanges} {c : Char} :
    t.holds c = false ↔ ∀ r ∈ t.toList, ¬ (r.1 ≤ c.toNat ∧ c.toNat ≤ r.2) := by
  rw [← Bool.not_eq_true, CodeRanges.holds_iff]
  simp only [not_exists, not_and]

/-- Every range of one table ends before every range of the other, or starts behind it. -/
def CodeRanges.Apart (s t : CodeRanges) : Prop := ∀ a ∈ s.toList, ∀ b ∈ t.toList, a.2 < b.1 ∨ b.2 < a.1

theorem CodeRanges.Apart.not_holds {s t : CodeRanges} (h : s.Apart t) {c : Char} (hc : s.holds c = true) :
    t.holds c = false := by
  refine Bool.eq_false_iff.mpr fun hc' => ?_
  obtain ⟨a, ha, hac⟩ := CodeRanges.holds_iff.mp hc
  obtain ⟨b, hb, hbc⟩ := CodeRanges.holds_iff.mp hc'
  rcases h a ha b hb with hlt | hlt
  all_goals omega

/-- Gaps between the alphanumeric characters. The controls from U+0080 on are in the first, and behind ASCII all blanks
are in one of them. -/
def gaps : CodeRanges := #[(0x80, 0xa0), (0x1680, 0x1680), (0x2000, 0x205f), (0x3000, 0x3000)]

theorem apart_gaps_alphanumeric : CodeRanges.Apart gaps alphanumericRanges := by
  -- thousands of pairs are compared, which takes a test in `Bool`
  have hall : (gaps.toList.all fun a => alphanumericRanges.toList.all fun b =>
      a.2.blt b.1 || b.2.blt a.1) = true := by decide +kernel
  intro a ha b hb
  simpa only [Bool.or_eq_true, Nat.blt_eq] using List.all_eq_true.mp (List.all_eq_true.mp hall a ha) b hb

theorem range_of_alphanumeric {r : ℕ × ℕ} (hr : r ∈ alphanumericRanges.toList) : r.2 < 128 ∨ 0xa0 < r.1 :=
  (apart_gaps_alphanumeric (0x80, 0xa0) List.mem_cons_self r hr).symm

theorem exists_gap_of_blank : ∀ r ∈ blankRanges.toList, r.2 < 128 ∨ ∃ g ∈ gaps.toList, g.1 ≤ r.1 ∧ r.2 ≤ g.2 := by
  decide

theorem isBlank_iff {c : Char} : isBlank c = true ↔ ∃ r ∈ blankRanges.toList, r.1 ≤ c.toNat ∧ c.toNat ≤ r.2 := by
  unfold isBlank
  exact CodeRanges.holds_iff

theorem not_blank_of_printable {c : Char} (h : 0x21 ≤ c.toNat ∧ c.toNat ≤ 0x7e) : isBlank c = false := by
  have hranges : ∀ r ∈ blankRanges.toList, r.2 < 0x21 ∨ 0x7e < r.1 := by decide
  unfold isBlank
  refine CodeRanges.holds_eq_false_iff.mpr fun r hr => ?_
  rcases hranges r hr with hlt | hlt
  all_goals omega

theorem isBlank_space : isBlank ' ' = true := isBlank_iff.mpr ⟨(0x20, 0x20), by decide, by decide⟩

theorem printable_of_isAlphanum {c : Char} (h : c.isAlphanum = true) : 0x21 ≤ c.toNat ∧ c.toNat ≤ 0x7e := by
  simp only [Char.isAlphanum, Char.isAlpha, Char.isUpper, Char.isLower, Char.isDigit, Bool.or_eq_true,
    Bool.and_eq_true, decide_eq_true_eq, UInt32.le_iff_toNat_le, Char.reduceVal, UInt32.reduceToNat] at h
  change 0x21 ≤ c.val.toNat ∧ c.val.toNat ≤ 0x7e
  omega

theorem not_alphanumeric_of_blank {c : Char} (h : isBlank c = true) : isAlphanumeric c = false := by
  unfold isAlphanumeric
  split_ifs
  · refine Bool.eq_false_iff.mpr fun hc => ?_
    rw [not_blank_of_printable (printable_of_isAlphanum hc)] at h
    cases h
  · obtain ⟨r, hr, hfirst, hlast⟩ := isBlank_iff.mp h
    rcases exists_gap_of_blank r hr with hascii | ⟨g, hg, hgfirst, hglast⟩
    · omega
    · have hgap : gaps.holds c = true :=
        CodeRanges.holds_iff.mpr ⟨g, hg, hgfirst.trans hfirst, hlast.trans hglast⟩
      exact apart_gaps_alphanumeric.not_holds hgap

theorem isAlphanum_or_foreign {c : Char} (h : isAlphanumeric c = true) : c.isAlphanum = true ∨ 0xa0 ≤ c.toNat := by
  unfold isAlphanumeric at h
  split_ifs at h with hlt
  · exact .inl h
  · obtain ⟨r, hr, hfirst, hlast⟩ := CodeRanges.holds_iff.mp h
    rcases range_of_alphanumeric hr with hascii | hforeign
    · exact absurd (hlast.trans_lt hascii) hlt
    · exact .inr (hforeign.le.trans hfirst)

end Text

namespace Document.Compound

variable {c : Char}

/-- The characters of names are characters of names in style text too. -/
theorem isNameChar_style (h : isNameChar c = true) : Style.isNameChar c = true := by
  unfold isNameChar at h
  unfold Style.isNameChar Style.isForeign
  simp only [Bool.or_eq_true, decide_eq_true_iff] at h ⊢
  rcases h with (h | h) | h
  · rcases Text.isAlphanum_or_foreign h with h | h
    · exact .inl (.inl (.inl h))
    · exact .inr h
  · exact .inl (.inl (.inr h))
  · exact .inl (.inr h)

theorem not_blank_of_isNameChar (h : isNameChar c = true) : Text.isBlank c = false := by
  refine Bool.eq_false_iff.mpr fun hblank => ?_
  simp only [isNameChar, Text.not_alphanumeric_of_blank hblank, Bool.false_or, Bool.or_eq_true, beq_iff_eq] at h
  rcases h with rfl | rfl
  all_goals
    rw [Text.not_blank_of_printable (by decide)] at hblank
    cases hblank

theorem ne_sign_of_isNameChar (h : isNameChar c = true) : c ∉ ['#', '.', '*', '>', ','] := by
  intro hc
  have hsigns : ∀ c ∈ ['#', '.', '*', '>', ','], Style.isNameChar c = false := by
    simp only [List.forall_mem_cons]
    exact ⟨rfl, rfl, rfl, rfl, rfl, nofun⟩
  have hname := isNameChar_style h
  rw [hsigns c hc] at hname
  cases hname

/-- A character that a text can hold that is read. -/
def isLegible (c : Char) : Bool :=
  isNameChar c || isMark c || c == '*' || c == '>' || c == ',' || Text.isBlank c

end Document.Compound

/-! ## Words -/

namespace Text

variable {a b : List Char} {c : Char}

theorem wordsAfter_append_blank (hc : isBlank c = true) (word a b : List Char) :
    wordsAfter word (a ++ c :: b) = wordsAfter word a ++ words b := by
  induction a generalizing word with
  | nil =>
    rw [List.nil_append, wordsAfter, wordsAfter, if_pos hc]
    split_ifs <;> rfl
  | cons d a ih =>
    rw [List.cons_append, wordsAfter, wordsAfter]
    split_ifs
    · exact ih []
    · rw [ih [], List.cons_append]
    · exact ih (d :: word)

theorem words_append_blank (hc : isBlank c = true) (a b : List Char) : words (a ++ c :: b) = words a ++ words b :=
  wordsAfter_append_blank hc [] a b

theorem wordsAfter_of_not_blank (ha : ∀ c ∈ a, isBlank c = false) (word : List Char) :
    wordsAfter word a = wordsAfter (a.reverse ++ word) [] := by
  induction a generalizing word with
  | nil => rfl
  | cons c a ih =>
    obtain ⟨hc, ha⟩ := List.forall_mem_cons.mp ha
    have hstep : wordsAfter word (c :: a) = wordsAfter (c :: word) a := by
      rw [wordsAfter, hc, if_neg Bool.false_ne_true]
    rw [hstep, ih ha, List.reverse_cons, List.append_assoc]
    rfl

theorem words_of_not_blank (ha : ∀ c ∈ a, isBlank c = false) (hne : a ≠ []) : words a = [a] := by
  have hempty : ¬ (a.reverse ++ []).isEmpty = true := by simpa using hne
  rw [words, wordsAfter_of_not_blank ha, wordsAfter, if_neg hempty, List.append_nil, List.reverse_reverse]

/-- No character is lost but blanks. -/
theorem mem_wordsAfter {word : List Char} (hc : c ∈ word ∨ c ∈ a) :
    isBlank c = true ∨ ∃ w ∈ wordsAfter word a, c ∈ w := by
  induction a generalizing word with
  | nil =>
    have hc := hc.resolve_right List.not_mem_nil
    rw [wordsAfter, if_neg (by simpa using List.ne_nil_of_mem hc)]
    exact .inr ⟨_, List.mem_singleton_self _, List.mem_reverse.mpr hc⟩
  | cons d a ih =>
    rw [wordsAfter]
    split_ifs with hd hempty
    · rcases hc with hc | hc
      · rw [List.isEmpty_iff.mp hempty] at hc
        cases hc
      · rcases List.mem_cons.mp hc with rfl | hc
        · exact .inl hd
        · exact ih (.inr hc)
    · have hrest : c ∈ a → isBlank c = true ∨ ∃ w ∈ word.reverse :: wordsAfter [] a, c ∈ w := fun hc =>
        (ih (.inr hc)).imp_right fun ⟨w, hw, hcw⟩ => ⟨w, List.mem_cons_of_mem _ hw, hcw⟩
      rcases hc with hc | hc
      · exact .inr ⟨_, List.mem_cons_self, List.mem_reverse.mpr hc⟩
      · rcases List.mem_cons.mp hc with rfl | hc
        · exact .inl hd
        · exact hrest hc
    · refine ih ?_
      rcases hc with hc | hc
      · exact .inl (List.mem_cons_of_mem d hc)
      · rcases List.mem_cons.mp hc with rfl | hc
        · exact .inl List.mem_cons_self
        · exact .inr hc

theorem mem_words (hc : c ∈ a) : isBlank c = true ∨ ∃ w ∈ words a, c ∈ w := mem_wordsAfter (.inr hc)

end Text

namespace Document

namespace Chain

variable {a b : List Char} {c : Char}

/-- The text with its child signs set off. -/
theorem words_eq (a : List Char) :
    words a = Text.words (a.flatMap fun c => if c = '>' then [' ', '>', ' '] else [c]) := rfl

theorem words_append_blank (hc : Text.isBlank c = true) (hne : c ≠ '>') (a b : List Char) :
    words (a ++ c :: b) = words a ++ words b := by
  rw [words_eq, List.flatMap_append, List.flatMap_cons, if_neg hne, List.singleton_append,
    Text.words_append_blank hc]
  rfl

theorem words_append_space (a b : List Char) : words (a ++ ' ' :: b) = words a ++ words b :=
  words_append_blank Text.isBlank_space (by decide) a b

theorem words_of_solid (ha : ∀ c ∈ a, Text.isBlank c = false ∧ c ≠ '>') (hne : a ≠ []) : words a = [a] := by
  have hspaced : (a.flatMap fun c => if c = '>' then [' ', '>', ' '] else [c]) = a := by
    clear hne
    induction a with
    | nil => rfl
    | cons c a ih =>
      obtain ⟨hc, ha⟩ := List.forall_mem_cons.mp ha
      rw [List.flatMap_cons, ih ha, if_neg hc.2, List.singleton_append]
  rw [words_eq, hspaced, Text.words_of_not_blank (fun c hc => (ha c hc).1) hne]

theorem words_sign : words ['>'] = [['>']] := by
  have hsign : Text.words ['>'] = [['>']] :=
    Text.words_of_not_blank (List.forall_mem_singleton.mpr (Text.not_blank_of_printable (by decide))) (by decide)
  change Text.words ([] ++ ' ' :: (['>'] ++ ' ' :: [])) = _
  rw [Text.words_append_blank Text.isBlank_space, Text.words_append_blank Text.isBlank_space, hsign]
  rfl

theorem mem_words (hc : c ∈ a) : Text.isBlank c = true ∨ ∃ w ∈ words a, c ∈ w := by
  refine Text.mem_words (List.mem_flatMap.mpr ⟨c, hc, ?_⟩)
  split_ifs with heq
  · rw [heq]
    decide
  · exact List.mem_singleton_self c

/-! ## Alternatives -/

theorem alternatives_ne_nil (a : List Char) : alternatives a ≠ [] := by
  cases a with
  | nil => nofun
  | cons c a =>
    rw [alternatives]
    split
    · split_ifs <;> nofun
    · nofun

theorem alternatives_append_comma (a b : List Char) :
    alternatives (a ++ ',' :: b) = alternatives a ++ alternatives b := by
  induction a with
  | nil =>
    obtain ⟨part, parts, hb⟩ := List.exists_cons_of_ne_nil (alternatives_ne_nil b)
    have hnil : alternatives [] = [[]] := rfl
    rw [hnil, List.nil_append, List.singleton_append, alternatives, hb]
    exact if_pos rfl
  | cons c a ih =>
    obtain ⟨part, parts, ha⟩ := List.exists_cons_of_ne_nil (alternatives_ne_nil a)
    rw [List.cons_append, alternatives, alternatives, ih, ha, List.cons_append]
    dsimp only
    split_ifs <;> rfl

theorem alternatives_of_not_comma (ha : ',' ∉ a) : alternatives a = [a] := by
  induction a with
  | nil => rfl
  | cons c a ih =>
    obtain ⟨hc, ha⟩ := not_or.mp (List.mem_cons.not.mp ha)
    rw [alternatives, ih ha]
    exact if_neg (Ne.symm hc)

theorem mem_alternatives (hc : c ∈ a) : c = ',' ∨ ∃ part ∈ alternatives a, c ∈ part := by
  induction a with
  | nil => cases hc
  | cons d a ih =>
    obtain ⟨part, parts, ha⟩ := List.exists_cons_of_ne_nil (alternatives_ne_nil a)
    rw [ha] at ih
    rw [alternatives, ha]
    dsimp only
    split_ifs with hd
    · rcases List.mem_cons.mp hc with rfl | hc
      · exact .inl hd
      · exact (ih hc).imp_right fun ⟨part', hpart, hc⟩ => ⟨part', List.mem_cons_of_mem _ hpart, hc⟩
    · rcases List.mem_cons.mp hc with rfl | hc
      · exact .inr ⟨_, List.mem_cons_self, List.mem_cons_self⟩
      · refine (ih hc).imp_right fun ⟨part', hpart, hc⟩ => ?_
        rcases List.mem_cons.mp hpart with rfl | hpart
        · exact ⟨_, List.mem_cons_self, List.mem_cons_of_mem d hc⟩
        · exact ⟨part', List.mem_cons_of_mem _ hpart, hc⟩

end Chain

/-! ## Parts of a word -/

namespace Compound

variable {c : Char} {name word : List Char}

theorem segments_append (hname : ∀ c ∈ name, isMark c = false) (rest : List Char) :
    segments (name ++ rest) = (name ++ (segments rest).1, (segments rest).2) := by
  induction name with
  | nil => rfl
  | cons c name ih =>
    obtain ⟨hc, hname⟩ := List.forall_mem_cons.mp hname
    rw [List.cons_append, segments, ih hname, hc]
    rfl

theorem segments_mark (hc : isMark c = true) (rest : List Char) :
    segments (c :: rest) = ([], (c, (segments rest).1) :: (segments rest).2) := by
  rw [segments, hc]
  rfl

theorem mem_segments (hc : c ∈ word) :
    isMark c = true ∨ c ∈ (segments word).1 ∨ ∃ m ∈ (segments word).2, c ∈ m.2 := by
  induction word with
  | nil => cases hc
  | cons d word ih =>
    rw [segments]
    split_ifs with hd
    · rcases List.mem_cons.mp hc with rfl | hc
      · exact .inl hd
      · refine (ih hc).imp_right fun h => .inr ?_
        rcases h with h | ⟨m, hm, h⟩
        · exact ⟨_, List.mem_cons_self, h⟩
        · exact ⟨m, List.mem_cons_of_mem _ hm, h⟩
    · rcases List.mem_cons.mp hc with rfl | hc
      · exact .inr (.inl List.mem_cons_self)
      · exact (ih hc).imp_right (.imp_left (List.mem_cons_of_mem d))

/-! ## Characters of a text that is read -/

theorem read?_eq (word : List Char) :
    read? word = (readTag? (segments word).1).bind fun tag =>
      (segments word).2.foldlM readMarked? { universal with tag := tag } := rfl

theorem isNameChar_of_readTag? {tag : Option String} (h : readTag? name = some tag) (hc : c ∈ name) :
    isNameChar c = true ∨ c = '*' := by
  unfold readTag? at h
  split_ifs at h with hempty hall
  · rcases hempty with rfl | rfl
    · cases hc
    · exact .inr (List.mem_singleton.mp hc)
  · exact .inl (List.all_eq_true.mp hall c hc)

theorem isNameChar_of_foldlM {marked : List (Char × List Char)} {x y : Compound}
    (h : marked.foldlM readMarked? x = some y) : ∀ m ∈ marked, ∀ c ∈ m.2, isNameChar c = true := by
  induction marked generalizing x with
  | nil => nofun
  | cons m marked ih =>
    obtain ⟨mark, name⟩ := m
    rw [List.foldlM_cons] at h
    obtain ⟨z, hz, h⟩ := Option.bind_eq_some_iff.mp h
    refine List.forall_mem_cons.mpr ⟨fun c hc => ?_, ih h⟩
    unfold readMarked? at hz
    dsimp only at hz
    by_cases hname : name = [] ∨ (!name.all isNameChar) = true
    · rw [if_pos hname] at hz
      cases hz
    · simp only [not_or, Bool.not_eq_true', Bool.not_eq_false] at hname
      exact List.all_eq_true.mp hname.2 c hc

theorem of_mem_read? {x : Compound} (h : read? word = some x) (hc : c ∈ word) :
    isNameChar c = true ∨ isMark c = true ∨ c = '*' := by
  rw [read?_eq] at h
  obtain ⟨tag, htag, h⟩ := Option.bind_eq_some_iff.mp h
  rcases mem_segments hc with hmark | hname | ⟨m, hm, hcm⟩
  · exact .inr (.inl hmark)
  · exact (isNameChar_of_readTag? htag hname).imp_right .inr
  · exact .inl (isNameChar_of_foldlM h m hm c hcm)

theorem isLegible_of_read? {x : Compound} (h : read? word = some x) (hc : c ∈ word) : isLegible c = true := by
  unfold isLegible
  rcases of_mem_read? h hc with h | h | rfl
  · rw [h]
    rfl
  · rw [h, Bool.or_true]
    rfl
  · rfl

/-- A word that is read has nothing in it at which texts are cut. -/
theorem solid_of_read? {x : Compound} (h : read? word = some x) (hc : c ∈ word) :
    (Text.isBlank c = false ∧ c ≠ '>') ∧ c ≠ ',' := by
  rcases of_mem_read? h hc with h | h | rfl
  · have hsign := ne_sign_of_isNameChar h
    simp only [List.mem_cons, not_or] at hsign
    exact ⟨⟨not_blank_of_isNameChar h, hsign.2.2.2.1⟩, hsign.2.2.2.2.1⟩
  · unfold isMark at h
    simp only [Bool.or_eq_true, beq_iff_eq] at h
    rcases h with rfl | rfl
    all_goals exact ⟨⟨Text.not_blank_of_printable (by decide), by decide⟩, by decide⟩
  · exact ⟨⟨Text.not_blank_of_printable (by decide), by decide⟩, by decide⟩

end Compound

namespace Chain

variable {c : Char}

theorem isLegible_of_extend? {words : List (List Char)} {x y : Chain} {isChild : Bool}
    (h : extend? x isChild words = some y) : ∀ word ∈ words, ∀ c ∈ word, Compound.isLegible c = true := by
  fun_induction extend? x isChild words with
  | case1 => nofun
  | case2 => nofun
  | case3 x isChild words ih =>
    refine List.forall_mem_cons.mpr ⟨?_, ih h⟩
    exact List.forall_mem_singleton.mpr rfl
  | case4 x isChild word words hword ih =>
    obtain ⟨compound, hcompound, h⟩ := Option.bind_eq_some_iff.mp h
    exact List.forall_mem_cons.mpr ⟨fun c hc => Compound.isLegible_of_read? hcompound hc, ih compound h⟩

theorem isLegible_of_read? {part : List Char} {x : Chain} (h : read? part = some x) (hc : c ∈ part) :
    Compound.isLegible c = true := by
  unfold read? at h
  split at h
  · cases h
  · rename_i word rest hwords
    obtain ⟨compound, hcompound, h⟩ := Option.bind_eq_some_iff.mp h
    rcases mem_words hc with hblank | ⟨w, hw, hcw⟩
    · unfold Compound.isLegible
      rw [hblank, Bool.or_true]
    · rw [hwords] at hw
      rcases List.mem_cons.mp hw with rfl | hw
      · exact Compound.isLegible_of_read? hcompound hcw
      · exact isLegible_of_extend? h w hw c hcw

theorem extend?_append {x y : Chain} {isChild : Bool} {ws : List (List Char)} (h : extend? x isChild ws = some y)
    (ws' : List (List Char)) : extend? x isChild (ws ++ ws') = extend? y false ws' := by
  fun_induction extend? x isChild ws with
  | case1 => cases h
  | case2 x isChild hchild =>
    cases h
    rw [Bool.eq_false_iff.mpr hchild]
    rfl
  | case3 x isChild ws ih =>
    rw [List.cons_append, extend?, if_pos rfl]
    exact ih h
  | case4 x isChild word ws hword ih =>
    obtain ⟨compound, hcompound, h⟩ := Option.bind_eq_some_iff.mp h
    rw [List.cons_append, extend?, if_neg hword, hcompound]
    exact ih compound h

theorem extend?_word {word : List Char} {compound : Compound} (h : Compound.read? word = some compound) (x : Chain)
    (isChild : Bool) :
    extend? x isChild [word] = some (if isChild then child x compound else descendant x compound) := by
  have hword : word ≠ ['>'] := by
    rintro rfl
    exact (Compound.solid_of_read? h List.mem_cons_self).1.2 rfl
  rw [extend?, if_neg hword, h]
  rfl

theorem exists_of_mapM {parts : List (List Char)} {chains : List Chain} (h : parts.mapM read? = some chains) :
    ∀ part ∈ parts, ∃ x, read? part = some x := by
  induction parts generalizing chains with
  | nil => nofun
  | cons part parts ih =>
    rw [List.mapM_cons] at h
    obtain ⟨x, hx, h⟩ := Option.bind_eq_some_iff.mp h
    obtain ⟨xs, hxs, -⟩ := Option.bind_eq_some_iff.mp h
    exact List.forall_mem_cons.mpr ⟨⟨x, hx⟩, ih hxs⟩

theorem isLegible_of_readAll? {selector : String} {chains : List Chain} (h : readAll? selector = some chains)
    (hc : c ∈ selector.toList) : Compound.isLegible c = true := by
  rcases mem_alternatives hc with rfl | ⟨part, hpart, hcpart⟩
  · rfl
  · obtain ⟨x, hx⟩ := exists_of_mapM h part hpart
    exact isLegible_of_read? hx hcpart

end Chain

/-- A character that is none of names, marks, signs and blanks makes a text select nothing. -/
theorem query_eq_nil {selector : String} {c : Char} (hc : c ∈ selector.toList) (h : Compound.isLegible c = false)
    (d : Document) : d.query selector = [] := by
  unfold query
  cases hread : Chain.readAll? selector with
  | none => rfl
  | some chains =>
    rw [Chain.isLegible_of_readAll? hread hc] at h
    cases h

end Document

end SlotGrid
