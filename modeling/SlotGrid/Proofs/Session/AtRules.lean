import SlotGrid.Proofs.Session.Joined
import SlotGrid.Proofs.Style.Recognition

/-! # At-rules

An at-rule is a keyword, then tokens that are neither braces nor semicolons, and then a semicolon or a block in which
every brace has its partner. It is skipped up to its end and no further: behind a text that ends between rules it makes
no difference to what is parsed.
-/

namespace SlotGrid

namespace Style

/-- The semicolon or the block at the end of an at-rule. -/
inductive EndsAtRule : List Item → Prop
  | semicolon {i : Item} (h : i.kind = .punct .semicolon) : EndsAtRule [i]
  | block {opening closing : Item} {body : List Item} (hopening : opening.kind = .punct .leftBrace)
    (hbody : Balanced body) (hclosing : closing.kind = .punct .rightBrace) : EndsAtRule (opening :: body ++ [closing])

/-- A text that is an at-rule, without an address that is not closed. -/
structure IsAtRule (text : String) : Prop where
  whole : Stream.Whole (Cursor.start text).items
  items : ∃ keyword name prelude ending, (Cursor.start text).items = keyword :: prelude ++ ending ∧
    keyword.kind = .atKeyword name ∧ (Braceless prelude ∧ ∀ i ∈ prelude, i.kind ≠ .punct .semicolon) ∧ EndsAtRule ending

/-! ## Where an at-rule ends -/

namespace Stream

/-- What is skipped of an at-rule from one place and depth on ends as it does from another. -/
structure SkipsAs (depth : ℕ) (s : Stream) (depth' : ℕ) (s' : Stream) : Prop where
  skip : skipAtRule depth s = skipAtRule depth' s'
  closes : closesAtRule depth s = closesAtRule depth' s'

variable {i : Item} {s s' s'' : Stream} {depth depth' depth'' : ℕ}

theorem SkipsAs.trans (h : SkipsAs depth s depth' s') (h' : SkipsAs depth' s' depth'' s'') :
    SkipsAs depth s depth'' s'' :=
  ⟨h.skip.trans h'.skip, h.closes.trans h'.closes⟩

theorem skipsAs_of_ne (hsemicolon : depth = 0 → i.kind ≠ .punct .semicolon) (hopening : i.kind ≠ .punct .leftBrace)
    (hclosing : i.kind ≠ .punct .rightBrace) : SkipsAs depth (i :: s) depth s := by
  constructor
  · rw [skipAtRule]
    split
    · rename_i hk
      exact if_neg fun hdepth => hsemicolon hdepth hk
    · contradiction
    · contradiction
    · rfl
  · rw [closesAtRule]
    split
    · rename_i hk
      exact if_neg fun hdepth => hsemicolon hdepth hk
    · contradiction
    · contradiction
    · rfl

theorem skipsAs_of_opening (h : i.kind = .punct .leftBrace) : SkipsAs depth (i :: s) (depth + 1) s := by
  constructor
  · rw [skipAtRule, h]
  · rw [closesAtRule, h]

theorem skipsAs_of_closing (h : i.kind = .punct .rightBrace) : SkipsAs (depth + 2) (i :: s) (depth + 1) s := by
  constructor
  · rw [skipAtRule, h]
    exact if_neg (by omega)
  · rw [closesAtRule, h]
    exact if_neg (by omega)

end Stream

/-- Within a block the count of braces is the same behind a balanced stretch, and its semicolons end nothing. -/
theorem Balanced.skipsAs {is : List Item} (h : Balanced is) (depth : ℕ) (s : Stream) :
    Stream.SkipsAs (depth + 1) (is ++ s) (depth + 1) s := by
  induction h generalizing depth s with
  | nil => exact ⟨rfl, rfl⟩
  | item hopening hclosing _ ih =>
    have hdepth : depth + 1 ≠ 0 := Nat.succ_ne_zero depth
    exact (Stream.skipsAs_of_ne (absurd · hdepth) hopening hclosing).trans (ih depth s)
  | @block opening closing is js hopening hclosing _ _ ih ih' =>
    have hblock : Stream.SkipsAs (depth + 1) (opening :: (is ++ closing :: (js ++ s))) (depth + 1) s :=
      (Stream.skipsAs_of_opening hopening).trans <| (ih _ _).trans <| (Stream.skipsAs_of_closing hclosing).trans (ih' _ _)
    simpa using hblock

theorem skipsAs_prelude {is : List Item} (h : Braceless is) (hs : ∀ i ∈ is, i.kind ≠ .punct .semicolon)
    (s : Stream) : Stream.SkipsAs 0 (is ++ s) 0 s := by
  induction is with
  | nil => exact ⟨rfl, rfl⟩
  | cons i is ih =>
    obtain ⟨⟨hopening, hclosing⟩, his⟩ := List.forall_mem_cons.mp h
    obtain ⟨hsemicolon, hs⟩ := List.forall_mem_cons.mp hs
    exact (Stream.skipsAs_of_ne (fun _ => hsemicolon) hopening hclosing).trans (ih his hs)

namespace EndsAtRule

variable {is : List Item}

/-- The end of an at-rule is skipped, and nothing behind it. -/
theorem skipAtRule_eq (h : EndsAtRule is) : Stream.skipAtRule 0 is = [] ∧ Stream.closesAtRule 0 is = true := by
  cases h with
  | semicolon h =>
    rw [Stream.skipAtRule, Stream.closesAtRule, h]
    exact ⟨rfl, rfl⟩
  | block hopening hbody hclosing =>
    obtain ⟨hskip, hcloses⟩ := (Stream.skipsAs_of_opening hopening).trans (hbody.skipsAs 0 [_])
    rw [List.cons_append, hskip, hcloses, Stream.skipAtRule, Stream.closesAtRule, hclosing]
    exact ⟨rfl, rfl⟩

theorem uncommented (h : EndsAtRule is) : EndsAtRule (is.filter (!·.isComment)) := by
  cases h with
  | semicolon h =>
    rw [List.filter_cons_of_pos (by rw [Item.isComment_of_punct h]; rfl)]
    exact .semicolon h
  | block hopening hbody hclosing =>
    rw [List.filter_append, List.filter_cons_of_pos (by rw [Item.isComment_of_punct hopening]; rfl),
      List.filter_cons_of_pos (by rw [Item.isComment_of_punct hclosing]; rfl)]
    exact .block hopening hbody.uncommented hclosing

theorem exists_last (h : EndsAtRule is) : ∃ front last b, is = front ++ [last] ∧ last.kind = .punct b := by
  cases h with
  | semicolon h => exact ⟨[], _, _, rfl, h⟩
  | block _ _ hclosing => exact ⟨_, _, _, rfl, hclosing⟩

end EndsAtRule

/-! ## Comments in front of other items -/

theorem exists_of_commentLength_lt {cs : List Char} (h : Form.commentLength cs < cs.length) :
    ∃ x, cs.take (Form.commentLength cs) = x ++ ['*', '/'] := by
  fun_induction Form.commentLength cs with
  | case1 cs => exact ⟨[], rfl⟩
  | case2 c cs hend ih =>
    obtain ⟨x, hx⟩ := ih (by simpa using h)
    exact ⟨c :: x, congrArg (c :: ·) hx⟩
  | case3 => cases h

/-- A comment with something behind it is closed. -/
theorem exists_lexeme_of_comment {n : ℕ} {cs : List Char} {front back : List Item} {i : Item}
    (h : Cursor.items ⟨n, cs⟩ = front ++ i :: back) (hi : i.isComment = true) (hback : back ≠ []) :
    ∃ x, i.lexeme = ['/', '*'] ++ x ++ ['*', '/'] := by
  induction front generalizing n cs with
  | cons j front ih =>
    obtain ⟨_, _, _, s, -, -, -, -, hrest⟩ := Item.exists_scan_of_cons h
    exact ih hrest
  | nil =>
    obtain ⟨k?, c, x, s, rfl, hlexeme, -, hscan, hrest⟩ := Item.exists_scan_of_cons h
    have hkind : (Item.ofScan n ⟨k?, c :: x, s⟩).kind = .comment := by
      cases hi' : Item.ofScan n ⟨k?, c :: x, s⟩ with
      | token t =>
        rw [hi'] at hi
        exact of_decide_eq_true hi
      | openAddress lexeme m =>
        rw [hi'] at hi
        cases hi
    obtain rfl : k? = some .comment := Item.ofScan_of_kind hkind nofun
    obtain ⟨r, hcons⟩ : TokenKind.comment.Opens (c :: (x ++ s)) := opens_of_blank (by rw [hscan]) rfl
    obtain ⟨rfl, hr⟩ := List.cons.inj hcons
    rw [← hr] at hscan
    change scan '/' ('*' :: r) = _ at hscan
    rw [scan_comment] at hscan
    have hlt : Form.commentLength r < r.length := by
      refine lt_of_le_of_ne (commentLength_le r) fun hlength => hback ?_
      have hs : r.drop (Form.commentLength r) = s := congrArg Scan.rest hscan
      rw [← hrest, ← hs, hlength, List.drop_length, Cursor.items_nil]
    obtain ⟨y, hy⟩ := exists_of_commentLength_lt hlt
    refine ⟨y, ?_⟩
    have hx : '/' :: '*' :: r.take (Form.commentLength r) = '/' :: x := congrArg Scan.lexeme hscan
    rw [hlexeme, ← hx, hy]
    rfl

/-! ## One step -/

theorem dropWhile_isNoise {s : Stream} (h : s.kind.isNoise = false) : s.dropWhile Item.isNoise = s := by
  cases s with
  | nil => rfl
  | cons i s => exact List.dropWhile_cons_of_neg (Bool.eq_false_iff.mp h)

namespace IsAtRule

variable {text : String} {registered : ℕ}

/-- Readers see a space and then an at-rule that is all the rest of the stream. -/
theorem exists_stream (h : IsAtRule text) : ∃ s : Stream, Stream.ofText text = .token ⟨.space, [], 0⟩ :: s ∧
    (∃ name, s.kind = .atKeyword name) ∧ s.opensAddress = false ∧ s.skipAtRule 0 = [] ∧ s.closesAtRule 0 = true := by
  obtain ⟨keyword, name, prelude, ending, hitems, hkeyword, ⟨hbraceless, hsemicolons⟩, hending⟩ := h.items
  obtain ⟨t, rfl⟩ := h.whole keyword (hitems ▸ List.mem_cons_self)
  let s : Stream := prelude.filter (!·.isComment) ++ ending.filter (!·.isComment)
  have hsub : ∀ i ∈ prelude.filter (!·.isComment), i ∈ prelude := fun i hi => List.mem_of_mem_filter hi
  have hfirst : Stream.SkipsAs 0 (.token t :: s) 0 s :=
    Stream.skipsAs_of_ne (fun _ => by rw [hkeyword]; nofun) (by rw [hkeyword]; nofun) (by rw [hkeyword]; nofun)
  have hprelude : Stream.SkipsAs 0 s 0 (ending.filter (!·.isComment)) :=
    skipsAs_prelude (fun i hi => hbraceless i (hsub i hi)) (fun i hi => hsemicolons i (hsub i hi)) _
  obtain ⟨hskip, hcloses⟩ := hending.uncommented.skipAtRule_eq
  refine ⟨.token t :: s, ?_, ⟨name, hkeyword⟩, rfl, ?_, ?_⟩
  · have ht : t.kind ≠ .comment := fun ht => nomatch hkeyword.symm.trans ht
    unfold Stream.ofText
    rw [hitems, List.cons_append, uncommented_cons ht, List.filter_append]
  · exact (hfirst.trans hprelude).skip.trans hskip
  · exact (hfirst.trans hprelude).closes.trans hcloses

theorem rule?_eq (h : IsAtRule text) :
    Reader.rule? registered (Progress.start (.ofText text)) = .ok none (.start []) := by
  obtain ⟨s, hs, ⟨name, hname⟩, hopens, hskip, -⟩ := h.exists_stream
  have hnoise : Reader.skipNoise (.start s) = .ok () (.start s) := by
    refine Reader.skipNoise_of_not_noise ?_
    change s.kind.isNoise = false
    rw [hname]
    rfl
  rw [hs, ← hskip]
  refine (Reader.rule?_of_closed_space rfl hopens (.start s)).trans ?_
  exact Reader.rule?_eq_none_iff.mpr ⟨_, hnoise, .inr ⟨name, hname, rfl⟩⟩

/-- The step over an at-rule passes all of the text. -/
theorem step_eq (h : IsAtRule text) : (Progress.start (.ofText text)).step registered = .start [] :=
  Progress.step_of_none h.rule?_eq

theorem step_length_lt (h : IsAtRule text) : ((Progress.start (.ofText text)).step registered).stream.length <
    (Progress.start (.ofText text)).stream.length := by
  rw [h.step_eq]
  exact Nat.succ_pos _

/-- Nothing is found in an at-rule. -/
theorem found_parse (h : IsAtRule text) : (parse registered text).found = ⟨[], [], [], []⟩ := by
  have hfinish : (Progress.start (.ofText text)).finish registered = (Progress.start []).finish registered := by
    rw [Progress.finish_of_lt h.step_length_lt, h.step_eq]
  have hends : ((Progress.start []).finish registered).parsed = (Progress.start []).parsed :=
    Progress.parsed_finish_of_ends rfl
  unfold parse
  rw [hfinish]
  exact congrArg Parsed.found hends

theorem endsAtTop (h : IsAtRule text) : EndsAtTop registered text := by
  obtain ⟨s, hs, ⟨name, hname⟩, -, -, hcloses⟩ := h.exists_stream
  obtain ⟨keyword, -, prelude, ending, hitems, -, -, hending⟩ := h.items
  obtain ⟨front, last, b, rfl, hlast⟩ := hending.exists_last
  refine ⟨?_, fun i hi hcomment => ?_, fun is lexeme n haddress => ?_⟩
  · have hstarts : (Progress.start (.ofText text)).starts registered = [.start (.ofText text), .start []] := by
      rw [Progress.starts_of_lt h.step_length_lt, h.step_eq, Progress.starts_of_not_lt (Nat.not_lt_zero _)]
    rw [hstarts]
    refine List.forall_mem_cons.mpr ⟨?_, List.forall_mem_singleton.mpr ?_⟩
    · unfold Progress.Ends
      rw [show (Progress.start (.ofText text)).fresh = Progress.start (.ofText text) from rfl, h.rule?_eq]
      refine .inr ?_
      have hnoise : (Progress.start (.ofText text)).stream.dropWhile Item.isNoise = s := by
        rw [hs]
        exact dropWhile_isNoise (by rw [hname]; rfl)
      rw [hnoise]
      exact hcloses
    · unfold Progress.Ends
      rw [Reader.rule?_of_ends rfl]
      exact .inl rfl
  · obtain ⟨before, behind, hsplit⟩ := List.append_of_mem hi
    refine exists_lexeme_of_comment hsplit hcomment fun hbehind => ?_
    rw [hsplit, hbehind, ← List.append_assoc] at hitems
    obtain rfl := List.singleton_inj.mp (List.append_inj' hitems rfl).2
    rw [Item.isComment_of_punct hlast] at hcomment
    cases hcomment
  · obtain ⟨t, ht⟩ := h.whole (.openAddress lexeme n) (haddress ▸ by simp)
    cases ht

end IsAtRule

/-- An at-rule on the lines behind a text that ends between rules adds nothing to what is found. -/
theorem found_parse_atRule {registered : ℕ} {text atRule : String} (h : EndsAtTop registered text)
    (hrule : IsAtRule atRule) (rest : String) :
    (parse registered (text ++ "\n" ++ atRule ++ "\n" ++ rest)).found =
      (parse registered (text ++ "\n" ++ rest)).found := by
  have hnone : ∀ n, (parse n (atRule ++ "\n" ++ rest)).found = (parse n rest).found := by
    intro n
    have htemplates : (parse n atRule).templates = [] := congrArg Found.templates hrule.found_parse
    rw [found_parse_join hrule.endsAtTop rest, htemplates, hrule.found_parse]
    rfl
  calc (parse registered (text ++ "\n" ++ atRule ++ "\n" ++ rest)).found
    _ = (parse registered (text ++ "\n" ++ (atRule ++ "\n" ++ rest))).found := by simp only [String.append_assoc]
    _ = (parse registered text).found ++
        (parse (registered + (parse registered text).templates.length) (atRule ++ "\n" ++ rest)).found :=
      found_parse_join h _
    _ = (parse registered (text ++ "\n" ++ rest)).found := by rw [hnone, found_parse_join h rest]

end Style

namespace Session

open Style

/-- An at-rule on the lines behind a text that ends between rules is skipped as a whole: the rules, what is dropped,
the templates and the placed elements are those of the text without it. -/
theorem parse_atRule (s : Session) {text atRule : String} (rest : String) (h : EndsAtTop s.grids.length text)
    (hrule : IsAtRule atRule) :
    let whole := s.parse (text ++ "\n" ++ atRule ++ "\n" ++ rest)
    let without := s.parse (text ++ "\n" ++ rest)
    whole.1.rules = without.1.rules ∧ whole.1.dropped = without.1.dropped ∧ whole.2 = without.2 := by
  intro whole without
  have hfound := found_parse_atRule h hrule rest
  have htemplates := congrArg Found.templates hfound
  have hpositions := congrArg Found.positions hfound
  dsimp only [Parsed.found] at htemplates hpositions
  refine ⟨congrArg Found.rules hfound, congrArg Found.dropped hfound, ?_⟩
  simp only [whole, without, parse_eq, htemplates, hpositions]

/-- The block of the at-rule has another block and a semicolon in it. -/
theorem parse_atRule_nested :
    ((new .standard).parse ("a\x7bb:c\x7d" ++ "\n" ++ "@m x\x7bd\x7be:f;\x7d\x7d" ++ "\n" ++ "g\x7bh:i\x7d")).1.rules =
      [⟨"a", ⟨[⟨"b", "c", none⟩]⟩⟩, ⟨"g", ⟨[⟨"h", "i", none⟩]⟩⟩] := by
  have hends : EndsAtTop 0 "a\x7bb:c\x7d" := by
    let p := Progress.start (.ofText "a\x7bb:c\x7d")
    let is : Stream := [.token ⟨.ident "a", ['a'], 0⟩, .token ⟨.punct .leftBrace, ['{'], 1⟩,
      .token ⟨.ident "b", ['b'], 2⟩, .token ⟨.punct .colon, [':'], 3⟩, .token ⟨.ident "c", ['c'], 4⟩]
    let brace : Item := .token ⟨.punct .rightBrace, ['}'], 5⟩
    have hitems : (Cursor.start "a\x7bb:c\x7d").items = is ++ [brace] := by decide +kernel
    have hstream : p.stream = .token ⟨.space, [], 0⟩ :: (is ++ [brace]) := by
      change Item.token _ :: (Cursor.start _).items.filter _ = _
      rw [hitems]
      rfl
    have hp : Reader.rule? 0 p.fresh = .ok (some ⟨"a", ⟨[⟨"b", "c", none⟩]⟩⟩)
        ⟨[], "a", 1, ⟨[⟨"b", "c", none⟩]⟩, .empty, [], []⟩ := by decide +kernel
    have hstep := Progress.step_of_rule hp
    have hstarts : p.starts 0 = [p, p.step 0] := by
      rw [Progress.starts_of_lt (by rw [hstep, hstream]; decide), Progress.starts_of_not_lt]
      rw [hstep]
      exact Nat.not_lt_zero _
    refine ⟨?_, ?_, ?_⟩
    · change ∀ p' ∈ p.starts 0, p'.Ends 0
      rw [hstarts]
      refine List.forall_mem_cons.mpr ⟨?_, List.forall_mem_singleton.mpr ?_⟩
      · unfold Progress.Ends
        rw [hp]
        exact ⟨.token ⟨.space, [], 0⟩ :: is, brace, rfl, hstream⟩
      · unfold Progress.Ends
        rw [hstep, Reader.rule?_of_ends rfl]
        exact .inl rfl
    · simp [hitems, is, brace, Item.isComment]
    · intro is' lexeme n h
      rw [hitems] at h
      cases (List.singleton_inj.mp (List.append_inj' h rfl).2 : Item.token _ = _)
  have hrule : IsAtRule "@m x\x7bd\x7be:f;\x7d\x7d" := by
    let keyword : Item := .token ⟨.atKeyword "m", ['@', 'm'], 0⟩
    let prelude : List Item := [.token ⟨.space, [' '], 2⟩, .token ⟨.ident "x", ['x'], 3⟩]
    let inner : List Item := [.token ⟨.ident "e", ['e'], 7⟩, .token ⟨.punct .colon, [':'], 8⟩,
      .token ⟨.ident "f", ['f'], 9⟩, .token ⟨.punct .semicolon, [';'], 10⟩]
    let body : List Item := .token ⟨.ident "d", ['d'], 5⟩ ::
      .token ⟨.punct .leftBrace, ['{'], 6⟩ :: (inner ++ [.token ⟨.punct .rightBrace, ['}'], 11⟩])
    have hitems : (Cursor.start "@m x\x7bd\x7be:f;\x7d\x7d").items = keyword :: prelude ++
        (.token ⟨.punct .leftBrace, ['{'], 4⟩ :: body ++ [.token ⟨.punct .rightBrace, ['}'], 12⟩]) := by decide +kernel
    have hinner : Braceless inner := by simp [inner, Braceless, Item.kind]
    have hbody : Balanced body := .item (by decide) (by decide) (.block rfl rfl hinner.balanced .nil)
    refine ⟨?_, keyword, "m", prelude, _, hitems, rfl, ?_, .block rfl hbody rfl⟩
    · rw [hitems]
      simp [Stream.Whole, keyword, prelude, body, inner]
    · simp [prelude, Braceless, Item.kind]
  refine (parse_atRule (new .standard) "g\x7bh:i\x7d" hends hrule).1.trans ?_
  decide +kernel

end Session

end SlotGrid
