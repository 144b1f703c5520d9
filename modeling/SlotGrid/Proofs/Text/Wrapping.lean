import Mathlib
import SlotGrid.Text.Wrapping

/-! # The fewest lines

Wrapping is greedy: a word goes on the current line if it fits there. No other way of cutting the words of a
text into lines that fit needs fewer of them.
-/

namespace SlotGrid.Text

/-! ## Words -/

theorem wordsAfter_eq_nil_iff {word cs : List Char} :
    wordsAfter word cs = [] ↔ word = [] ∧ ∀ c ∈ cs, isBlank c = true := by
  induction cs generalizing word with
  | nil => cases word <;> simp [wordsAfter]
  | cons c cs ih =>
    rw [wordsAfter, List.forall_mem_cons]
    by_cases hc : isBlank c = true
    · cases word <;> simp [hc, ih]
    · simp [hc, ih]

/-- A text that is blank throughout has no words. -/
theorem words_eq_nil_iff {cs : List Char} : words cs = [] ↔ ∀ c ∈ cs, isBlank c = true := by
  rw [words, wordsAfter_eq_nil_iff]
  exact and_iff_right rfl

theorem ne_nil_of_mem_wordsAfter {word cs w : List Char} (hw : w ∈ wordsAfter word cs) : w ≠ [] := by
  induction cs generalizing word with
  | nil =>
    rw [wordsAfter] at hw
    split_ifs at hw with hempty
    · cases hw
    · obtain rfl := List.mem_singleton.mp hw
      simpa using hempty
  | cons c cs ih =>
    rw [wordsAfter] at hw
    split_ifs at hw with hc hempty
    · exact ih hw
    · rcases List.mem_cons.mp hw with rfl | hw
      · simpa using hempty
      · exact ih hw
    · exact ih hw

theorem pos_of_mem_wordLengths {cs : List Char} {n : ℕ} (hn : n ∈ wordLengths cs) : 0 < n := by
  obtain ⟨w, hw, rfl⟩ := List.mem_map.mp hn
  exact List.length_pos_iff.mpr (ne_nil_of_mem_wordsAfter hw)

theorem trim_eq_nil_iff {cs : List Char} : trim cs = [] ↔ ∀ c ∈ cs, isBlank c = true := by
  unfold trim
  rw [List.reverse_eq_nil_iff, List.dropWhile_eq_nil_iff]
  constructor
  · intro h
    have hdrop : cs.dropWhile isBlank = [] := by
      by_contra hne
      have hhead := List.head_dropWhile_not isBlank hne
      rw [h _ (List.mem_reverse.mpr (List.head_mem hne))] at hhead
      cases hhead
    exact List.dropWhile_eq_nil_iff.mp hdrop
  · intro h c hc
    exact h c ((List.dropWhile_sublist isBlank).subset (List.mem_reverse.mp hc))

namespace Wrapping

variable {α : Type} {len : α → ℕ} {limit current : ℕ} {ws : List ℕ}

/-! ## Lines -/

theorem lineLength_eq (ws : List ℕ) : lineLength ws = ws.sum + (ws.length - 1) := by
  fun_induction lineLength ws with
  | case1 => rfl
  | case2 w => simp
  | case3 w ws hne ih =>
    have hpos : 0 < ws.length := List.length_pos_iff.mpr hne
    rw [ih, List.sum_cons, List.length_cons]
    omega

/-- Two words next to each other are as long as one with their space in it. -/
theorem lineLength_cons_cons (v w : ℕ) (ws : List ℕ) :
    lineLength (v :: w :: ws) = lineLength ((v + 1 + w) :: ws) := by
  simp only [lineLength_eq, List.sum_cons, List.length_cons]
  omega

theorem lineLength_append_singleton {ws : List ℕ} (hne : ws ≠ []) (w : ℕ) :
    lineLength (ws ++ [w]) = lineLength ws + 1 + w := by
  have hpos : 0 < ws.length := List.length_pos_iff.mpr hne
  simp only [lineLength_eq, List.sum_append, List.sum_singleton, List.length_append, List.length_singleton]
  omega

/-- Words that fit go on the current line. -/
theorem linesAfter_append (rest : List ℕ) (hfits : ws ≠ [] → lineLength (current :: ws) ≤ limit) :
    linesAfter limit current (ws ++ rest) = linesAfter limit (lineLength (current :: ws)) rest := by
  induction ws generalizing current with
  | nil => rfl
  | cons w ws ih =>
    have hall : lineLength ((current + 1 + w) :: ws) ≤ limit :=
      (lineLength_cons_cons ..).symm.trans_le (hfits (List.cons_ne_nil w ws))
    have hw : current + 1 + w ≤ limit := by
      rw [lineLength_eq, List.sum_cons] at hall
      omega
    rw [List.cons_append, linesAfter, if_pos hw, ih fun _ => hall, lineLength_cons_cons]

/-- A fuller line is followed by as many lines or one more. -/
theorem linesAfter_mono {c c' : ℕ} (h : c ≤ c') (ws : List ℕ) :
    linesAfter limit c ws ≤ linesAfter limit c' ws ∧ linesAfter limit c' ws ≤ linesAfter limit c ws + 1 := by
  induction ws generalizing c c' with
  | nil => simp [linesAfter]
  | cons w ws ih =>
    rw [linesAfter, linesAfter]
    -- The fuller line breaks first, and what it starts anew is no fuller than what the other goes on with.
    split_ifs with hc hc' hc'
    · exact ih (by omega)
    · have hnew := ih (show w ≤ c + 1 + w by omega)
      omega
    · omega
    · omega

theorem linesAfter_le_lines (limit current : ℕ) (ws : List ℕ) : linesAfter limit current ws ≤ lines limit ws := by
  cases ws with
  | nil => exact le_rfl
  | cons w ws =>
    rw [linesAfter, lines]
    split_ifs with hw
    · exact (linesAfter_mono (show w ≤ current + 1 + w by omega) ws).2
    · exact le_rfl

/-- A line that fits at the front saves no more than one line. -/
theorem lines_append_le {rest : List ℕ} (hfits : 1 < ws.length → lineLength ws ≤ limit) :
    lines limit (ws ++ rest) ≤ lines limit rest + 1 := by
  cases ws with
  | nil => exact Nat.le_succ _
  | cons w ws =>
    have hline : ws ≠ [] → lineLength (w :: ws) ≤ limit := fun hne =>
      hfits (by simpa using List.length_pos_iff.mpr hne)
    rw [List.cons_append, lines, linesAfter_append rest hline]
    exact Nat.succ_le_succ (linesAfter_le_lines ..)

/-! ## Counting with one number -/

/-- Takes a word into a count of lines with the width of the last line, which is zero before the first. -/
def countWord (limit : ℕ) : ℕ × ℕ → ℕ → ℕ × ℕ
  | (count, current), w =>
    if current = 0 then (count + 1, w)
    else if current + 1 + w ≤ limit then (count, current + 1 + w)
    else (count + 1, w)

theorem foldl_countWord (limit count : ℕ) (hcurrent : 0 < current) (hpos : ∀ w ∈ ws, 0 < w) :
    (ws.foldl (countWord limit) (count, current)).1 = count + linesAfter limit current ws := by
  induction ws generalizing count current with
  | nil => rfl
  | cons w ws ih =>
    obtain ⟨hw, hws⟩ := List.forall_mem_cons.mp hpos
    rw [List.foldl_cons, countWord, if_neg hcurrent.ne', linesAfter]
    split_ifs with hfits
    · exact ih count (by omega) hws
    · rw [ih (count + 1) hw hws]
      omega

/-- As no word is empty, the width alone tells whether there is a line yet. -/
theorem lines_wordLengths_eq_foldl (limit : ℕ) (cs : List Char) :
    lines limit (wordLengths cs) = ((wordLengths cs).foldl (countWord limit) (0, 0)).1 := by
  have hpos : ∀ w ∈ wordLengths cs, 0 < w := fun _ => pos_of_mem_wordLengths
  cases hws : wordLengths cs with
  | nil => rfl
  | cons w ws =>
    rw [hws, List.forall_mem_cons] at hpos
    rw [List.foldl_cons, countWord, if_pos rfl, foldl_countWord limit _ hpos.1 hpos.2, lines, zero_add, add_comm]

/-! ## Cuts -/

/-- Lines that hold some things in their order. A line of more than one is no longer than the limit, with a space
between neighbours. -/
structure IsCut (len : α → ℕ) (limit : ℕ) (things : List α) (ls : List (List α)) : Prop where
  flatten_eq : ls.flatten = things
  ne_nil : ∀ l ∈ ls, l ≠ []
  fits : ∀ l ∈ ls, 1 < l.length → (l.map len).sum + (l.length - 1) ≤ limit

theorem IsCut.mono {limit' : ℕ} {things : List α} {ls : List (List α)} (h : IsCut len limit things ls)
    (hle : limit ≤ limit') : IsCut len limit' things ls :=
  ⟨h.flatten_eq, h.ne_nil, fun l hl hlong => (h.fits l hl hlong).trans hle⟩

theorem IsCut.cons {things : List α} {l : List α} {ls : List (List α)} (h : IsCut len limit things ls) (hne : l ≠ [])
    (hfits : 1 < l.length → lineLength (l.map len) ≤ limit) : IsCut len limit (l ++ things) (l :: ls) := by
  refine ⟨?_, List.forall_mem_cons.mpr ⟨hne, h.ne_nil⟩, List.forall_mem_cons.mpr ⟨fun hlong => ?_, h.fits⟩⟩
  · rw [List.flatten_cons, h.flatten_eq]
  · have hle := hfits hlong
    rwa [lineLength_eq, List.length_map] at hle

/-- No cut has fewer lines. -/
theorem lines_le_of_isCut {things : List α} {ls : List (List α)} (h : IsCut len limit things ls) :
    lines limit (things.map len) ≤ ls.length := by
  obtain ⟨rfl, -, hfits⟩ := h
  induction ls with
  | nil => exact le_rfl
  | cons l ls ih =>
    obtain ⟨hl, hls⟩ := List.forall_mem_cons.mp hfits
    rw [List.flatten_cons, List.map_append, List.length_cons]
    refine (lines_append_le fun hlong => ?_).trans (Nat.succ_le_succ (ih hls))
    rw [lineLength_eq, List.length_map]
    exact hl (by simpa using hlong)

/-- The greedy lines from the current one on. -/
theorem exists_isCut_after (things line : List α) (hne : line ≠ [])
    (hfits : 1 < line.length → lineLength (line.map len) ≤ limit) :
    ∃ ls, IsCut len limit (line ++ things) ls ∧
      ls.length = linesAfter limit (lineLength (line.map len)) (things.map len) + 1 := by
  induction things generalizing line with
  | nil =>
    have hnil : IsCut len limit [] [] := ⟨rfl, nofun, nofun⟩
    exact ⟨[line], hnil.cons hne hfits, rfl⟩
  | cons x things ih =>
    have hlonger : lineLength ((line ++ [x]).map len) = lineLength (line.map len) + 1 + len x := by
      rw [List.map_append]
      exact lineLength_append_singleton (by simpa using hne) _
    rw [List.map_cons, linesAfter]
    split_ifs with hx
    · obtain ⟨ls, hcut, hlength⟩ := ih (line ++ [x]) (by simp) fun _ => hlonger.trans_le hx
      rw [List.append_assoc, List.singleton_append] at hcut
      rw [hlonger] at hlength
      exact ⟨ls, hcut, hlength⟩
    · obtain ⟨ls, hcut, hlength⟩ := ih [x] (by simp) (by simp)
      exact ⟨line :: ls, hcut.cons hne hfits, congrArg (· + 1) hlength⟩

theorem exists_isCut (len : α → ℕ) (limit : ℕ) (things : List α) :
    ∃ ls, IsCut len limit things ls ∧ ls.length = lines limit (things.map len) := by
  cases things with
  | nil => exact ⟨[], ⟨rfl, nofun, nofun⟩, rfl⟩
  | cons x things => exact exists_isCut_after things [x] (by simp) (by simp)

theorem isLeast_lines (len : α → ℕ) (limit : ℕ) (things : List α) :
    IsLeast {n | ∃ ls, IsCut len limit things ls ∧ ls.length = n} (lines limit (things.map len)) := by
  refine ⟨exists_isCut len limit things, ?_⟩
  rintro n ⟨ls, hcut, rfl⟩
  exact lines_le_of_isCut hcut

/-- A wider line never leads to more lines. -/
theorem antitone_lines (len : α → ℕ) (things : List α) : Antitone fun limit => lines limit (things.map len) := by
  intro limit limit' hle
  obtain ⟨ls, hcut, hlength⟩ := exists_isCut len limit things
  exact (lines_le_of_isCut (hcut.mono hle)).trans_eq hlength

/-- In a line as long as all words there is no need for a second. -/
theorem lines_lineLength {ws : List ℕ} (hne : ws ≠ []) : lines (lineLength ws) ws = 1 := by
  have hle : lines (lineLength ws) (ws ++ []) ≤ 1 := lines_append_le fun _ => le_rfl
  rw [List.append_nil] at hle
  cases ws with
  | nil => exact absurd rfl hne
  | cons w ws => exact le_antisymm hle (Nat.succ_le_succ (Nat.zero_le _))

end Wrapping

/-- A text takes as many lines as the shortest of all cuts of its words into lines that fit. That is one line where
all words fit on it, or none for a text without words, and never more in a wider column. -/
theorem fewest_lines (text : List Char) :
    (∀ limit, IsLeast {n | ∃ ls, Wrapping.IsCut List.length limit (words text) ls ∧ ls.length = n}
      (Wrapping.lines limit (wordLengths text))) ∧
    Wrapping.lines (Wrapping.lineLength (wordLengths text)) (wordLengths text) = (if trim text = [] then 0 else 1) ∧
    Antitone fun limit => Wrapping.lines limit (wordLengths text) := by
  refine ⟨fun limit => Wrapping.isLeast_lines List.length limit (words text), ?_,
    Wrapping.antitone_lines List.length (words text)⟩
  have hwords : wordLengths text = [] ↔ trim text = [] := by
    rw [wordLengths, List.map_eq_nil_iff, words_eq_nil_iff, trim_eq_nil_iff]
  split_ifs with htrim
  · rw [hwords.mpr htrim]
    rfl
  · exact Wrapping.lines_lineLength (hwords.not.mpr htrim)

example : Wrapping.lines 5 (wordLengths "aa bb  overlong cc d".toList) = 3 := by decide +kernel

end SlotGrid.Text
