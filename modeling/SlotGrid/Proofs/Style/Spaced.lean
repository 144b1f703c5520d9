import SlotGrid.Proofs.Style.Alike
import SlotGrid.Proofs.Style.Settled

/-! # Tokens of a value

The text of a value is put together from the lexemes of its tokens, without the comments and with one space for spaces.
Its tokens are those of the source where a comment between two of them has a space besides, and no space that is
changed belongs to a token.
-/

namespace SlotGrid.Style

namespace Token

/-- What a token adds to the text of a value. -/
def spelling (t : Token) : List Char :=
  match t.kind with
  | .comment => []
  | .space => [' ']
  | _ => t.lexeme

/-- The tokens behind `t` stay apart from it in the text of a value: no quoted text and no line break behind a
backslash is cut by a space, and a comment has a space besides and no digits of an escape in front of it. -/
def PartsFrom (t : Token) : List Token → Prop
  | [] => True
  | u :: us =>
    match u.kind with
    | .space => ¬ OpenQuote t.lexeme ∧ (t.lexeme.getLast? = some '\\' → ∀ a ∈ u.lexeme.head?, isLineBreak a = false)
    | .comment => ¬ OpenQuote t.lexeme ∧ ¬ EndsInDigits t.lexeme ∧ ∃ v ∈ us.takeWhile (!·.kind.counts), v.kind = .space
    | _ => True

end Token

/-- The text of a value, spaces at its ends included. -/
def spelling (ts : List Token) : List Char := ts.flatMap Token.spelling

/-- The kinds of the tokens without spaces and comments. -/
def kindsOf (ts : List Token) : List TokenKind := (ts.map Token.kind).filter TokenKind.counts

/-- All tokens of a value stay apart in its text. -/
def Parted : List Token → Prop
  | [] => True
  | t :: ts => (t.kind.counts → t.PartsFrom ts) ∧ Parted ts

section Items

variable {t : Token} {ts : List Token} {behind : List Item} {n : ℕ} {cs : List Char}

theorem spelling_cons (t : Token) (ts : List Token) : spelling (t :: ts) = t.spelling ++ spelling ts := rfl

theorem kindsOf_cons (t : Token) (ts : List Token) :
    kindsOf (t :: ts) = if t.kind.counts then t.kind :: kindsOf ts else kindsOf ts := by
  unfold kindsOf
  rw [List.map_cons, List.filter_cons]

theorem Token.spelling_of_space (h : t.kind = .space) : t.spelling = [' '] := by
  simp [spelling, h]

theorem Token.spelling_of_comment (h : t.kind = .comment) : t.spelling = [] := by
  simp [spelling, h]

theorem Token.spelling_of_counts (h : t.kind.counts) : t.spelling = t.lexeme := by
  unfold TokenKind.counts at h
  unfold spelling
  split at h <;> simp_all

/-- The first token of a text is scanned from it. -/
theorem exists_scan_of_items (h : Cursor.items ⟨n, cs⟩ = .token t :: behind) :
    ∃ c x s m, t.lexeme = c :: x ∧ cs = c :: (x ++ s) ∧ scan c (x ++ s) = ⟨some t.kind, c :: x, s⟩ ∧
      Cursor.items ⟨m, s⟩ = behind := by
  obtain ⟨k?, c, x, s, htoken, -, hcs, hscan, hrest⟩ := Item.exists_scan_of_cons h
  unfold Item.ofScan at htoken
  cases k? with
  | none => cases htoken
  | some k =>
    cases htoken
    exact ⟨c, x, s, _, rfl, hcs, hscan, hrest⟩

theorem isSpace_of_counts {c : Char} {x s : List Char} (hscan : scan c (x ++ s) = ⟨some t.kind, c :: x, s⟩)
    (h : t.kind.counts) : isSpace c = false := by
  by_contra hc
  rw [scan_space (by simpa using hc)] at hscan
  have hk := Option.some.inj (congrArg Scan.kind? hscan)
  rw [← hk] at h
  cases h

/-- A space in front of all other tokens begins the text. -/
theorem exists_of_space (h : ∃ t ∈ ts.takeWhile (!·.kind.counts), t.kind = .space) : ∃ s, spelling ts = ' ' :: s := by
  induction ts with
  | nil =>
    obtain ⟨t, ht, -⟩ := h
    cases ht
  | cons u ts ih =>
    obtain ⟨t, ht, hk⟩ := h
    rw [List.takeWhile_cons] at ht
    split_ifs at ht with hu
    · rw [spelling_cons]
      rcases TokenKind.counts_eq_false.mp (by simpa using hu) with hspace | hcomment
      · exact ⟨spelling ts, by rw [Token.spelling_of_space hspace, List.singleton_append]⟩
      · rcases List.mem_cons.mp ht with rfl | ht
        · rw [hcomment] at hk
          cases hk
        · obtain ⟨s, hs⟩ := ih ⟨t, ht, hk⟩
          exact ⟨s, by rw [Token.spelling_of_comment hcomment, List.nil_append, hs]⟩
    · cases ht

/-- What stands behind a token in the source is replaced by the rest of the value. -/
theorem behind_spelling (h : Cursor.items ⟨n, cs⟩ = ts.map .token ++ behind) (hts : Parted ts)
    {t : Token} (ht : t.PartsFrom ts) :
    Behind t.lexeme cs (spelling ts) ∧ ((spelling ts).head? = some ' ' → ¬ OpenQuote t.lexeme) := by
  induction ts generalizing t n cs with
  | nil => exact ⟨.nil _ _, nofun⟩
  | cons u ts ih =>
    obtain ⟨c, x, s, m, hlexeme, rfl, hscan, hrest⟩ := exists_scan_of_items h
    obtain ⟨hu, hts⟩ := hts
    by_cases hcounts : u.kind.counts
    · have hc := isSpace_of_counts hscan hcounts
      have hspelling : spelling (u :: ts) = u.lexeme ++ spelling ts := by
        rw [spelling_cons, Token.spelling_of_counts hcounts]
      have hcut : Cut (u.lexeme ++ s) (u.lexeme ++ spelling ts) := (ih hrest hts (hu hcounts)).1.cut_append
      have hhead : (spelling (u :: ts)).head? ≠ some ' ' := by
        rw [hspelling, hlexeme]
        rintro ⟨⟩
        cases hc
      rw [← hspelling, hlexeme] at hcut
      exact ⟨⟨hcut, fun h => absurd h hhead, fun h => absurd h hhead⟩, fun h => absurd h hhead⟩
    · unfold Token.PartsFrom at ht
      rw [spelling_cons]
      rcases TokenKind.counts_eq_false.mp (by simpa using hcounts) with hspace | hcomment
      · simp only [hspace, hlexeme] at ht
        have hc : isSpace c := by
          obtain ⟨d, rest, hd, hcons⟩ : TokenKind.space.Opens (c :: (x ++ s)) :=
            opens_of_blank (by rw [hscan, hspace]) rfl
          rwa [(List.cons.inj hcons).1]
        rw [Token.spelling_of_space hspace]
        refine ⟨⟨.gap (.inl hc) _ _, fun _ hslash => ?_, fun _ => ht.2⟩, fun _ => ht.1⟩
        obtain rfl := Option.some.inj hslash
        cases hc
      · simp only [hcomment] at ht
        obtain ⟨rest, hcons⟩ : TokenKind.comment.Opens (c :: (x ++ s)) :=
          opens_of_blank (by rw [hscan, hcomment]) rfl
        obtain ⟨rfl, -⟩ := List.cons.inj hcons
        obtain ⟨w, hw⟩ := exists_of_space ht.2.2
        rw [Token.spelling_of_comment hcomment, List.nil_append, hw]
        exact ⟨⟨.gap (.inr rfl) _ _, fun _ _ => ht.2.1, fun _ _ => by simp; decide⟩, fun _ => ht.1⟩

/-! ## The tokens of the text -/

/-- All of a text is tokens, and these are their kinds without spaces and comments. -/
def ReadsAs (cs : List Char) (ks : List TokenKind) : Prop :=
  ∃ us : List Token, Cursor.items ⟨0, cs⟩ = us.map .token ∧ kindsOf us = ks

theorem exists_tokens_of_alike {is : List Item} (h : Alike (ts.map .token) is) :
    ∃ us : List Token, is = us.map .token ∧ us.map Token.kind = ts.map Token.kind := by
  induction ts generalizing is with
  | nil =>
    cases h
    exact ⟨[], rfl, rfl⟩
  | cons t ts ih =>
    obtain ⟨i, is, hi, his, rfl⟩ := List.forall₂_cons_left_iff.mp h
    obtain ⟨us, rfl, hkinds⟩ := ih his
    cases i with
    | openAddress => cases hi
    | token u =>
      have hk : t.kind = u.kind := Item.kind_eq_of_unplaced hi
      exact ⟨u :: us, rfl, by rw [List.map_cons, List.map_cons, hk, hkinds]⟩

theorem readsAs_iff {ks : List TokenKind} (n : ℕ) :
    ReadsAs cs ks ↔ ∃ us : List Token, Cursor.items ⟨n, cs⟩ = us.map .token ∧ kindsOf us = ks := by
  have hmove : ∀ n m, (∃ us : List Token, Cursor.items ⟨n, cs⟩ = us.map .token ∧ kindsOf us = ks) →
      ∃ us : List Token, Cursor.items ⟨m, cs⟩ = us.map .token ∧ kindsOf us = ks := by
    rintro n m ⟨us, hus, rfl⟩
    obtain ⟨vs, hvs, hkinds⟩ := exists_tokens_of_alike (hus ▸ alike_items n m cs)
    exact ⟨vs, hvs, by unfold kindsOf; rw [hkinds]⟩
  exact ⟨hmove 0 n, hmove n 0⟩

namespace ReadsAs

variable {c : Char} {x s : List Char} {k : TokenKind} {ks : List TokenKind}

theorem nil : ReadsAs [] [] := ⟨[], Cursor.items_nil 0, rfl⟩

theorem of_scan (h : ReadsAs s ks) (hscan : scan c cs = ⟨some k, x, s⟩) :
    ReadsAs (c :: cs) (if k.counts then k :: ks else ks) := by
  obtain ⟨us, hus, rfl⟩ := (readsAs_iff x.length).mp h
  refine ⟨⟨k, x, 0⟩ :: us, ?_, kindsOf_cons _ us⟩
  rw [Cursor.items_cons, hscan, Nat.zero_add, hus]
  rfl

theorem token (h : ReadsAs s ks) (hscan : scan c cs = ⟨some k, x, s⟩) (hk : k.counts) :
    ReadsAs (c :: cs) (k :: ks) := by
  have hreads := h.of_scan hscan
  rwa [if_pos hk] at hreads

theorem dropWhile (h : ReadsAs cs ks) : ReadsAs (cs.dropWhile isSpace) ks := by
  cases cs with
  | nil => exact h
  | cons c cs =>
    by_cases hc : isSpace c
    · rw [List.dropWhile_cons_of_pos hc]
      obtain ⟨us, hus, rfl⟩ := h
      rw [Cursor.items_cons, scan_space hc] at hus
      cases us with
      | nil => cases hus
      | cons u us =>
        obtain ⟨hu, hrest⟩ := List.cons.inj hus
        cases hu
        exact (readsAs_iff _).mpr ⟨us, hrest, rfl⟩
    · rwa [List.dropWhile_cons_of_neg hc]

theorem space (h : ReadsAs cs ks) : ReadsAs (' ' :: cs) ks := h.dropWhile.of_scan (scan_space rfl cs)

end ReadsAs

/-- The text of a value is made of tokens of the same kinds as the source. -/
theorem readsAs_spelling (h : Cursor.items ⟨n, cs⟩ = ts.map .token ++ behind) (hts : Parted ts) :
    ReadsAs (spelling ts) (kindsOf ts) := by
  induction ts generalizing n cs with
  | nil => exact .nil
  | cons t ts ih =>
    obtain ⟨c, x, s, m, hlexeme, rfl, hscan, hrest⟩ := exists_scan_of_items h
    obtain ⟨ht, hts⟩ := hts
    have hreads := ih hrest hts
    rw [spelling_cons, kindsOf_cons]
    by_cases hcounts : t.kind.counts
    · obtain ⟨hbehind, hquote⟩ := behind_spelling hrest hts (ht hcounts)
      rw [hlexeme] at hbehind hquote
      rw [Token.spelling_of_counts hcounts, hlexeme]
      exact hreads.of_scan (scan_replace hscan (by simpa using hcounts) hbehind (.inr ⟨rfl, hquote⟩))
    · rw [if_neg hcounts]
      rcases TokenKind.counts_eq_false.mp (by simpa using hcounts) with hspace | hcomment
      · rw [Token.spelling_of_space hspace]
        exact hreads.space
      · rw [Token.spelling_of_comment hcomment]
        exact hreads

end Items

end SlotGrid.Style
