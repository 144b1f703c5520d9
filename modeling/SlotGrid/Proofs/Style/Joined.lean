import SlotGrid.Proofs.Style.Recovery
import SlotGrid.Proofs.Style.TopLevel

/-! # Joined texts

Where all steps over a text end in it, reading goes on behind it as if the text behind it stood alone. The steps over
the first text are the same in front of the second one: each ends at a brace or a semicolon of the first text, and
all looks behind that find the space between the texts. Only the last step does not end in the first text. It passes
that space and is the first step over the second text.
-/

namespace SlotGrid.Style

/-- One run is in front of a stream where the other is in front of another one, and both have found the same. -/
structure Beside (u v : Stream) (p q : Progress) : Prop where
  stream : ∃ x, p.stream = x ++ u ∧ q.stream = x ++ v
  found : q.found = p.found

theorem Follows.found_eq {J : Junction} {p q : Progress} (h : Follows J p q) (hbefore : J.before = ⟨.empty, [], []⟩) :
    q.found = p.found := by
  rw [h.found, hbefore]
  rfl

/-- The streams part behind an item that divides the sheet. -/
def junctionBehind {i : Item} (h : i.kind.divides = true) (s t : Stream) : Junction where
  left := i :: s
  right := i :: t
  parts := .inr ⟨_, _, _, _, rfl, rfl, rfl, h⟩
  before := ⟨.empty, [], []⟩

theorem atBrace_junctionBehind {i : Item} (h : i.kind.divides = true) (hi : i.kind = .punct .rightBrace)
    (s t : Stream) : (junctionBehind h s t).AtBrace := by
  rintro i is ⟨⟩
  exact hi

namespace Beside

variable {registered : ℕ} {u v : Stream} {p q : Progress}

/-- An item that is not passed between rules does not stand in the noise at the end. -/
theorem exists_of_noise (hu : ∀ i ∈ u, i.isNoise = true) {x is rest : List Item} {last : Item}
    (hlast : last.isNoise = false) (h : x ++ u = is ++ last :: rest) : ∃ y, rest = y ++ u := by
  have hmem : last ∉ u := fun hmem => Bool.false_ne_true (hlast.symm.trans (hu last hmem))
  rcases List.append_eq_append_iff.mp h with ⟨a, rfl, ha⟩ | ⟨a, rfl, ha⟩
  · exact absurd (ha ▸ List.mem_append_right a List.mem_cons_self) hmem
  · cases a with
    | nil =>
      have hu' : u = last :: rest := ha.symm
      exact absurd (hu' ▸ List.mem_cons_self) hmem
    | cons i y =>
      obtain ⟨rfl, rfl⟩ := List.cons_eq_cons.mp ha
      exact ⟨y, rfl⟩

/-- What stands in front of the first stream stands in front of the second one. -/
theorem stream_eq (h : Beside u v p q) {is y : List Item} {i : Item} (hs : p.stream = is ++ i :: (y ++ u)) :
    q.stream = is ++ i :: (y ++ v) := by
  obtain ⟨x, hp, hq⟩ := h.stream
  obtain rfl : x = is ++ i :: y := by
    refine List.append_cancel_right (hp.symm.trans (hs.trans ?_))
    rw [List.append_assoc, List.cons_append]
  rw [hq, List.append_assoc, List.cons_append]

/-- The runs are alike up to an item in front of the two streams that divides the sheet. -/
theorem follows (h : Beside u v p q) {is y : List Item} {i : Item} (hi : i.kind.divides = true)
    (hs : p.stream = is ++ i :: (y ++ u)) : Follows (junctionBehind hi (y ++ u) (y ++ v)) p.fresh q.fresh := by
  refine ⟨⟨is, is, .refl is, hs, h.stream_eq hs⟩, rfl, rfl, rfl, ?_, ?_, ?_, ?_⟩
  · exact congrArg Found.rules h.found
  · exact congrArg Found.dropped h.found
  · exact congrArg Found.templates h.found
  · exact congrArg Found.positions h.found

theorem opensAddress_eq (hv : v.opensAddress = false) {y : List Item} (hy : Stream.opensAddress (y ++ u) = false) :
    Stream.opensAddress (y ++ v) = false := by
  cases y with
  | nil => exact hv
  | cons i y => cases i <;> exact hy

/-- A rule that ends in front of the first stream is read in front of the second one as well. -/
theorem step_of_rule (h : Beside u v p q) (hv : v.opensAddress = false) {r : Rule} {p' : Progress}
    (hrule : Reader.rule? registered p.fresh = .ok (some r) p') {is y : List Item} {brace : Item}
    (hbrace : brace.kind = .punct .rightBrace) (hs : p.stream = is ++ brace :: p'.stream) (hy : p'.stream = y ++ u) :
    Beside u v (p.step registered) (q.step registered) := by
  have hdivides : brace.kind.divides = true := by rw [hbrace]; rfl
  have hfollows := h.follows hdivides (hy ▸ hs)
  rcases Reader.agreeOrClose_rule? hfollows (atBrace_junctionBehind hdivides hbrace _ _)
      (show registered = registered + 0 from rfl) with
    (hagree | ⟨p₁, q₁, hat, hp, hq⟩) | ⟨-, depth, p₁, -, hp⟩
  · -- Both runs would still be in front of the brace.
    rw [hrule] at hagree
    generalize Reader.rule? registered q.fresh = z at hagree
    rcases hagree with @⟨_, _, q', h'⟩ | _
    obtain ⟨is', -, -, hp', -⟩ := h'.stream
    have hlength := congrArg List.length (hy.symm.trans hp')
    simp only [junctionBehind, List.length_append, List.length_cons] at hlength
    omega
  · rw [hrule] at hp
    obtain ⟨r', p₂, hclose, hp⟩ := Reader.bind_eq_ok.mp hp.symm
    cases hp
    unfold Reader.closeRule at hclose
    obtain ⟨_, p₂, hadvance, hclose⟩ := Reader.bind_eq_ok.mp hclose
    obtain ⟨rfl, hopens⟩ := Reader.advance_eq_ok.mp hadvance
    cases hclose
    have hopens' : Stream.opensAddress q₁.stream.tail = false := by
      rw [hat.left] at hopens
      rw [hat.right]
      exact opensAddress_eq hv hopens
    rw [Reader.bind_of_ok (Reader.closeRule_of_tail hopens'), hat.follows.selector, hat.follows.declarations] at hq
    rw [Progress.step_of_rule hrule, Progress.step_of_rule hq]
    refine ⟨⟨y, hy, congrArg List.tail hat.right⟩, ?_⟩
    exact congrArg (fun f : Found => { f with rules := f.rules ++ [Rule.mk p₁.selector p₁.declarations] })
      (hat.follows.found_eq rfl)
  · rw [hrule] at hp
    cases hp

/-- What is skipped of a rule behind an error is skipped in front of the second stream as well. -/
theorem step_of_error (h : Beside u v p q) {e : SyntaxError} {p' : Progress}
    (hrule : Reader.rule? registered p.fresh = .error e p') (hcloses : p'.stream.closesRule p'.depth = true)
    {y : List Item} (hy : p'.stream.skipRule p'.depth = y ++ u) :
    Beside u v (p.step registered) (q.step registered) := by
  obtain ⟨is, brace, hbrace, hs, hskip⟩ := Stream.exists_of_closesRule hcloses
  obtain ⟨before, hbefore⟩ := Progress.suffix_of_error hrule
  have hstream : p.stream = (before ++ is) ++ brace :: p'.stream.skipRule p'.depth := by
    rw [← hbefore, List.append_assoc]
    exact congrArg (before ++ ·) hs
  have hdivides : brace.kind.divides = true := by rw [hbrace]; rfl
  have hfollows := h.follows hdivides (hy ▸ hstream)
  rcases Reader.agreeOrClose_rule? hfollows (atBrace_junctionBehind hdivides hbrace _ _)
      (show registered = registered + 0 from rfl) with
    (hagree | ⟨p₁, q₁, hat, hp, -⟩) | ⟨-, depth, p₁, -, hp⟩
  · rw [hrule] at hagree
    generalize hq : Reader.rule? registered q.fresh = z at hagree
    rcases hagree with _ | @⟨_, e', _, q', h'⟩
    obtain ⟨is', js, halike, hp', hq'⟩ := h'.stream
    have his : is' = is := by
      rw [hy, hp'] at hs
      exact List.append_inj_left' hs rfl
    rw [Progress.step_of_error hrule, Progress.step_of_error hq]
    refine ⟨⟨y, hy, ?_⟩, (h'.report e e').found_eq rfl⟩
    change q'.stream.skipRule q'.depth = y ++ v
    rw [h'.depth, hq']
    exact hskip js brace (y ++ v) (his ▸ halike) hbrace
  · -- The first run would be behind the brace.
    rw [hrule] at hp
    rcases Reader.bind_eq_error.mp hp.symm with hclose | ⟨_, _, -, hclose⟩
    · unfold Reader.closeRule at hclose
      rcases Reader.bind_eq_error.mp hclose with hadvance | ⟨_, _, -, hclose⟩
      · obtain ⟨rfl, -⟩ := Reader.advance_eq_error hadvance
        have hlength := congrArg List.length hs
        rw [hy] at hlength
        rw [hat.left] at hlength
        simp only [junctionBehind, List.tail_cons, List.length_append, List.length_cons] at hlength
        omega
      · cases hclose
    · cases hclose
  · rw [hrule] at hp
    cases hp

/-- What stands between rules is passed in front of the second stream as well. -/
theorem skipNoise_eq (h : Beside u v p q) (hv : v.opensAddress = false) {p' : Progress}
    (hnoise : Reader.skipNoise p.fresh = .ok () p') :
    ∃ x, p.stream = x ++ u ∧ Reader.skipNoise q.fresh = match x.dropWhile Item.isNoise with
      | [] => Reader.skipNoise { q.fresh with stream := v }
      | i :: z => .ok () { q.fresh with stream := i :: z ++ v } := by
  obtain ⟨x, hp, hq⟩ := h.stream
  have hfresh : p.fresh = { p.fresh with stream := x ++ u } := hp ▸ rfl
  have hfresh' : q.fresh = { q.fresh with stream := x ++ v } := hq ▸ rfl
  rw [hfresh] at hnoise
  refine ⟨x, hp, ?_⟩
  rw [hfresh']
  exact Reader.skipNoise_append hnoise hv q.fresh

/-- Where only noise is left of the first text, the second run goes on to the second text. -/
theorem rule?_of_noise (h : Beside u v p q) (hv : v.opensAddress = false) {p' : Progress}
    (hrule : Reader.rule? registered p.fresh = .ok none p') (hnoise : p.stream.dropWhile Item.isNoise = []) :
    Reader.rule? registered q.fresh = Reader.rule? registered { q.fresh with stream := v } := by
  obtain ⟨p₁, hskip, -⟩ := Reader.rule?_eq_none_iff.mp hrule
  obtain ⟨x, hp, hskip'⟩ := h.skipNoise_eq hv hskip
  have hx : x.dropWhile Item.isNoise = [] := by
    rw [List.dropWhile_eq_nil_iff] at hnoise ⊢
    exact fun i hi => hnoise i (hp ▸ List.mem_append_left u hi)
  rw [hx] at hskip'
  exact Reader.bind_congr hskip'

/-- An at-rule that ends in front of the first stream is skipped in front of the second one as well. -/
theorem step_of_none (h : Beside u v p q) (hv : v.opensAddress = false)
    (hkinds : ∀ i ∈ p.stream, i.kind ≠ .endOfInput) {p' : Progress}
    (hrule : Reader.rule? registered p.fresh = .ok none p')
    (hcloses : Stream.closesAtRule 0 (p.stream.dropWhile Item.isNoise) = true) {y : List Item}
    (hy : p'.stream = y ++ u) : Beside u v (p.step registered) (q.step registered) := by
  obtain ⟨p₁, hskip, -⟩ := Reader.rule?_eq_none_iff.mp hrule
  obtain ⟨name, hname, rfl⟩ := Reader.rule?_eq_none_of_closes hrule hcloses hkinds
  obtain ⟨x, hp, hskip'⟩ := h.skipNoise_eq hv hskip
  change Stream.closesAtRule 0 (p.stream.dropWhile Item.isNoise) = true at hcloses
  change Stream.kind (p.stream.dropWhile Item.isNoise) = _ at hname
  change Stream.skipAtRule 0 (p.stream.dropWhile Item.isNoise) = y ++ u at hy
  obtain ⟨is, last, hlast, hs, hends⟩ := Stream.exists_of_closesAtRule hcloses
  rw [hy] at hs
  rw [hp, List.dropWhile_append] at hs hname
  cases hx : x.dropWhile Item.isNoise with
  | nil =>
    -- The at-rule would be shorter than what stands behind it.
    rw [hx] at hs
    have hlength := (List.dropWhile_suffix Item.isNoise (l := u)).length_le
    have hlength' := congrArg List.length hs
    simp only [List.isEmpty_nil, if_true, List.length_append, List.length_cons] at hlength'
    omega
  | cons i z =>
    rw [hx] at hs hname hskip'
    obtain hz : i :: z = is ++ last :: y := by
      refine List.append_cancel_right (hs.trans ?_)
      rw [List.append_assoc, List.cons_append]
    have hrule' : Reader.rule? registered q.fresh =
        .ok none { q.fresh with stream := Stream.skipAtRule 0 (i :: z ++ v) } :=
      Reader.rule?_eq_none_iff.mpr ⟨_, hskip', .inr ⟨name, hname, rfl⟩⟩
    rw [Progress.step_of_none hrule, Progress.step_of_none hrule']
    refine ⟨⟨y, hy, ?_⟩, h.found⟩
    change Stream.skipAtRule 0 (i :: z ++ v) = y ++ v
    rw [hz, List.append_assoc]
    exact hends (y ++ v)

/-- A step that ends in front of the first stream is the same in front of the second one. -/
theorem step (h : Beside u v p q) (hv : v.opensAddress = false) (hends : p.Ends registered)
    (hkinds : ∀ i ∈ p.stream, i.kind ≠ .endOfInput) (hpasses : p.Passes registered) {y : List Item}
    (hy : (p.step registered).stream = y ++ u) : Beside u v (p.step registered) (q.step registered) := by
  unfold Progress.Ends at hends
  cases hrule : Reader.rule? registered p.fresh with
  | error e p' =>
    rw [hrule] at hends
    rw [Progress.step_of_error hrule] at hy
    exact h.step_of_error hrule hends hy
  | ok r p' =>
    rw [hrule] at hends
    cases r with
    | some r =>
      obtain ⟨is, brace, hbrace, hs⟩ := hends
      rw [Progress.step_of_rule hrule] at hy
      exact h.step_of_rule hv hrule hbrace hs hy
    | none =>
      rw [Progress.step_of_none hrule] at hy
      rcases hends with hnoise | hcloses
      · exact absurd hnoise hpasses.dropWhile_ne_nil
      · exact h.step_of_none hv hkinds hrule hcloses hy

theorem length_lt_iff {p' q' : Progress} (h : Beside u v p q) (h' : Beside u v p' q') :
    p'.stream.length < p.stream.length ↔ q'.stream.length < q.stream.length := by
  obtain ⟨x, hp, hq⟩ := h.stream
  obtain ⟨x', hp', hq'⟩ := h'.stream
  simp only [hp, hq, hp', hq', List.length_append]
  omega

/-- Where all steps over the first text end in it, the second run finds what the first one finds, and then what there
is behind the first text. -/
theorem found_finish (h : Beside u v p q) (hu : ∀ i ∈ u, i.isNoise = true) (hv : v.opensAddress = false)
    (hends : ∀ p' ∈ p.starts registered, p'.Ends registered) (hkinds : ∀ i ∈ p.stream, i.kind ≠ .endOfInput) :
    (q.finish registered).found = (p.finish registered).found ++
      ((Progress.start v).finish (registered + (p.finish registered).templates.length)).found := by
  induction p using Progress.induction_step registered generalizing q with
  | step p ih =>
    have hself := hends p (Progress.self_mem_starts registered p)
    rcases hself.passes hkinds with ⟨hnoise, p', hrule⟩ | hpasses
    · have hfinish : (p.finish registered).found = p.found :=
        congrArg Parsed.found (Progress.parsed_finish_of_noise hrule hnoise)
      have htemplates : q.templates = (p.finish registered).templates :=
        congrArg Found.templates (h.found.trans hfinish.symm)
      have hq : (q.finish registered).parsed = (Progress.finish registered { q with stream := v }).parsed :=
        Progress.parsed_finish_congr (h.rule?_of_noise hv hrule hnoise)
      have hfound := @Progress.found_finish_of_alike registered v { q with stream := v } (.refl v)
      rw [hfinish, ← htemplates, ← h.found]
      exact (congrArg Parsed.found hq).trans hfound
    · obtain ⟨y, hy⟩ : ∃ y, (p.step registered).stream = y ++ u := by
        obtain ⟨x, hp, -⟩ := h.stream
        obtain ⟨is, last, hlast, hs⟩ := hpasses
        exact exists_of_noise hu (Item.isNoise_eq_false hlast) (hp.symm.trans hs)
      have hstep := h.step hv hself hkinds hpasses hy
      have hlt := hpasses.length_lt
      have hlt' := (h.length_lt_iff hstep).mp hlt
      obtain ⟨is, last, -, hs⟩ := hpasses
      rw [Progress.finish_of_lt hlt, Progress.finish_of_lt hlt']
      refine ih hlt hstep (fun p' hp' => hends p' ?_) fun i hi => hkinds i ?_
      · exact Progress.starts_of_lt hlt ▸ List.mem_cons_of_mem p hp'
      · rw [hs]
        exact List.mem_append_right is (List.mem_cons_of_mem last hi)

end Beside

/-! ## Texts with a line feed between them -/

theorem uncommented_cons {j : Token} (h : j.kind ≠ .comment) (is : List Item) :
    (Item.token j :: is).filter (!·.isComment) = .token j :: is.filter (!·.isComment) :=
  List.filter_cons_of_pos (by simp [Item.isComment, h])

/-- The stream of a text, and that of the text with a line feed and another text behind it: the second stream goes on
with a space and the items of the other text without the spaces at its front. -/
theorem exists_stream_join {registered : ℕ} {text : String} (h : EndsAtTop registered text) (rest : String) :
    ∃ x u j k, (∀ i ∈ u, i.isNoise = true) ∧ j.kind = .space ∧ Stream.ofText text = x ++ u ∧
      Stream.ofText (text ++ "\n" ++ rest) = x ++ .token j ::
        (Cursor.items ⟨k, rest.toList.dropWhile isSpace⟩).filter (!·.isComment) := by
  have hlist : (text ++ "\n" ++ rest).toList = text.toList ++ '\n' :: rest.toList := by
    rw [String.toList_append, String.toList_append, List.append_assoc]
    rfl
  have hspace : ∀ n t, ∃ j k, j.kind = .space ∧
      Cursor.items ⟨n, '\n' :: t⟩ = .token j :: Cursor.items ⟨k, t.dropWhile isSpace⟩ := by
    intro n t
    rw [Cursor.items_cons, scan_space rfl]
    exact ⟨_, _, rfl, rfl⟩
  unfold Stream.ofText Cursor.start
  rw [hlist]
  rcases List.eq_nil_or_concat (Cursor.start text).items with hnil | ⟨is, last, hitems⟩
  · have htext : text.toList = [] := by
      have hlexemes := Cursor.flatMap_lexeme_items (Cursor.start text)
      rw [hnil] at hlexemes
      exact hlexemes.symm
    obtain ⟨j, k, hj, hrest⟩ := hspace 0 rest.toList
    refine ⟨[.token ⟨.space, [], 0⟩], [], j, k, nofun, hj, ?_, ?_⟩
    · exact congrArg (Item.token _ :: List.filter _ ·) hnil
    · rw [htext, List.nil_append, hrest, uncommented_cons (by simp [hj])]
      rfl
  · rw [List.concat_eq_append] at hitems
    rcases h.last hitems with hends | ⟨t, rfl, ht⟩
    · obtain ⟨k, hjoined⟩ := Cursor.items_append_lineFeed hitems hends rest.toList
      obtain ⟨j, k', hj, hrest⟩ := hspace k rest.toList
      refine ⟨.token ⟨.space, [], 0⟩ :: (is ++ [last]).filter (!·.isComment), [], j, k', nofun, hj, ?_, ?_⟩
      · rw [List.append_nil]
        exact congrArg (Item.token _ :: List.filter _ ·) hitems
      · rw [hjoined, hrest, List.append_cons, List.filter_append, uncommented_cons (by simp [hj])]
        rfl
    · obtain ⟨j, k, hj, hjoined⟩ := Cursor.items_append_spaces hitems ht rest.toList
      refine ⟨.token ⟨.space, [], 0⟩ :: is.filter (!·.isComment), [.token t], j, k, ?_, hj, ?_, ?_⟩
      · simp [Item.isNoise, Item.kind, ht, TokenKind.isNoise]
      · refine (congrArg (Item.token _ :: List.filter _ ·) hitems).trans ?_
        rw [List.filter_append, uncommented_cons (by simp [ht])]
        rfl
      · rw [hjoined, List.filter_append, uncommented_cons (by simp [hj])]
        rfl

/-- A text that ends between rules and another text behind it, with a line feed between them, have in them what the
one has in it and then what the other has in it, with templates that are numbered on. -/
theorem found_parse_join {registered : ℕ} {text : String} (h : EndsAtTop registered text) (rest : String) :
    (parse registered (text ++ "\n" ++ rest)).found =
      (parse registered text).found ++ (parse (registered + (parse registered text).templates.length) rest).found := by
  obtain ⟨x, u, j, k, hu, hj, htext, hjoined⟩ := exists_stream_join h rest
  generalize hv : Item.token j :: (Cursor.items ⟨k, rest.toList.dropWhile isSpace⟩).filter (!·.isComment) = v at hjoined
  have hbeside : Beside u v (.start (.ofText text)) (.start (.ofText (text ++ "\n" ++ rest))) :=
    ⟨⟨x, htext, hjoined⟩, rfl⟩
  have hclosed : Stream.opensAddress v = false := hv ▸ rfl
  have hfound := hbeside.found_finish hu hclosed h.steps fun _ => kind_ne_endOfInput_of_mem_ofText
  have hrest : ∀ n, ((Progress.start v).finish n).found = (parse n rest).found := by
    intro n
    let blank : Item := .token ⟨.space, [], 0⟩
    let after (m : ℕ) : Stream := (Cursor.items ⟨m, rest.toList.dropWhile isSpace⟩).filter (!·.isComment)
    calc ((Progress.start v).finish n).found
      _ = ((Progress.start (blank :: after k)).finish n).found := by
        rw [← hv]
        exact congrArg Parsed.found
          (Progress.parsed_finish_space_congr (i := .token j) hj (j := blank) rfl (after k) (.start []))
      _ = ((Progress.start (blank :: after 0)).finish n).found :=
        Progress.found_finish_of_alike (q := .start _) (.cons rfl (alike_items _ _ _).uncommented)
      _ = (parse n (.ofList (rest.toList.dropWhile isSpace))).found := by
        unfold parse Stream.ofText Cursor.start
        rw [String.toList_ofList]
        rfl
      _ = (parse n rest).found := found_parse_dropWhile_space n rest
  exact hfound.trans (congrArg (_ ++ ·) (hrest _))

end SlotGrid.Style
