import SlotGrid.Proofs.Style.Alike
import SlotGrid.Proofs.Style.Stored

/-! # Parts that are taken out of a text

What stands in front of a divider has the same tokens whatever stands behind the divider. So a part between a brace or
a semicolon, with spaces and comments behind it, and another brace or semicolon can be taken out of a text: the other
items stay as they are, but for their places in the text.
-/

namespace SlotGrid.Style

/-! ## Scans in front of a divider -/

section Scans

variable {c d : Char} {x y s t : List Char} {k? : Option TokenKind} {k : TokenKind}

theorem cut_divider (hd : d ∈ dividers) (y s : List Char) : Cut (y ++ d :: s) (y ++ [d]) := by
  have hstroke : d ≠ '\\' := by
    rintro rfl
    exact absurd hd (by decide)
  induction y with
  | nil => exact .cons (.done s) (by simp [startsEscape, hstroke])
  | cons a y ih =>
    have hescape : startsEscape (a :: (y ++ [d])) = startsEscape (a :: (y ++ d :: s)) := by
      by_cases ha : a = '\\'
      · subst ha
        cases y <;> rfl
      · simp [startsEscape, ha]
    exact .cons ih fun h => hescape ▸ h

theorem behind_divider (hd : d ∈ dividers) (x y s : List Char) : Behind x (y ++ d :: s) (y ++ [d]) := by
  have hhead : (y ++ [d]).head? = (y ++ d :: s).head? := by cases y <;> rfl
  constructor
  · exact cut_divider hd y s
  · intro hspace hslash
    cases hslash.symm.trans (hhead.symm.trans hspace)
  · intro hspace _ a ha
    cases (Option.mem_def.mp ha).symm.trans (hhead.symm.trans hspace)
    rfl

/-- A comment that ends before the text does ends there whatever stands behind it. -/
theorem commentLength_replace (h : Form.commentLength (x ++ s) = x.length) (hs : s ≠ []) (t : List Char) :
    Form.commentLength (x ++ t) = x.length := by
  induction x with
  | nil =>
    obtain ⟨a, s, rfl⟩ := List.exists_cons_of_ne_nil hs
    unfold Form.commentLength at h
    split at h <;> simp_all
  | cons a x ih =>
    by_cases hend : a = '*' ∧ ∃ z, x = '/' :: z
    · obtain ⟨rfl, z, rfl⟩ := hend
      exact h
    · have hlength : ∀ u, x ≠ [] → Form.commentLength (a :: x ++ u) = Form.commentLength (x ++ u) + 1 := by
        intro u hx
        rw [List.cons_append, Form.commentLength]
        rintro z rfl hz
        obtain ⟨b, x, rfl⟩ := List.exists_cons_of_ne_nil hx
        cases hz
        exact hend ⟨rfl, x, rfl⟩
      cases x with
      | nil =>
        obtain ⟨b, s, rfl⟩ := List.exists_cons_of_ne_nil hs
        unfold Form.commentLength at h
        split at h
        · cases h
        · unfold Form.commentLength at h
          split at h <;> simp_all
        · contradiction
      | cons b x =>
        rw [hlength s (by simp), List.length_cons, Nat.add_right_cancel_iff] at h
        rw [hlength t (by simp), ih h]
        rfl

theorem head?_of_space (hscan : scan c (x ++ s) = ⟨some .space, c :: x, s⟩) : ∀ a ∈ s.head?, isSpace a = false := by
  obtain ⟨a, r, ha, hcons⟩ : TokenKind.space.Opens (c :: (x ++ s)) := opens_of_blank (by rw [hscan]) rfl
  obtain ⟨rfl, rfl⟩ := List.cons.inj hcons
  rw [scan_space ha] at hscan
  have hrest : (x ++ s).dropWhile isSpace = s := congrArg Scan.rest hscan
  exact hrest ▸ head?_dropWhile_eq_false (x ++ s)

/-- A space is the same in front of what is no space, and a comment that ends is the same in front of everything. -/
theorem scan_blank (hscan : scan c (x ++ s) = ⟨some k, c :: x, s⟩) (hk : k.counts = false) (hs : s ≠ [])
    (ht : k = .space → ∀ a ∈ t.head?, isSpace a = false) : scan c (x ++ t) = ⟨some k, c :: x, t⟩ := by
  rcases TokenKind.counts_eq_false.mp hk with rfl | rfl
  · obtain ⟨a, r, ha, hcons⟩ : TokenKind.space.Opens (c :: (x ++ s)) := opens_of_blank (by rw [hscan]) rfl
    obtain ⟨rfl, rfl⟩ := List.cons.inj hcons
    rw [scan_space ha] at hscan ⊢
    have hx : (x ++ s).takeWhile isSpace = x := (List.cons.inj (congrArg Scan.lexeme hscan)).2
    have hspaces : ∀ a ∈ x, isSpace a = true := fun a h => List.mem_takeWhile_imp (hx.symm ▸ h)
    obtain ⟨htake, hdrop⟩ := takeWhile_dropWhile_append hspaces (ht rfl)
    rw [htake, hdrop]
  · obtain ⟨r, hcons⟩ : TokenKind.comment.Opens (c :: (x ++ s)) := opens_of_blank (by rw [hscan]) rfl
    obtain ⟨rfl, hr⟩ := List.cons.inj hcons
    rw [← hr] at hscan
    change scan '/' ('*' :: r) = _ at hscan
    rw [scan_comment] at hscan
    obtain ⟨z, rfl⟩ : ∃ z, x = '*' :: z := ⟨_, (List.cons.inj (congrArg Scan.lexeme hscan)).2.symm⟩
    obtain rfl : r = z ++ s := (List.cons.inj hr).2
    have hz : (z ++ s).take (Form.commentLength (z ++ s)) = z := by
      simpa using congrArg Scan.lexeme hscan
    have hlength : Form.commentLength (z ++ s) = z.length := by
      have htake := congrArg List.length hz
      rwa [List.length_take, Nat.min_eq_left (commentLength_le _)] at htake
    rw [List.cons_append, scan_comment, commentLength_replace hlength hs, List.take_left', List.drop_left'] <;> rfl

/-- What is scanned in front of a divider does not depend on what stands behind the divider. -/
theorem scan_divided (hd : d ∈ dividers) (hscan : scan c (x ++ (y ++ d :: s)) = ⟨k?, c :: x, y ++ d :: s⟩)
    (t : List Char) : scan c (x ++ (y ++ d :: t)) = ⟨k?, c :: x, y ++ d :: t⟩ := by
  have hhead : ∀ t, (y ++ d :: t).head? = (y ++ d :: s).head? := by cases y <;> exact fun _ => rfl
  by_cases hblank : ∃ k, k? = some k ∧ k.counts = false
  · obtain ⟨k, rfl, hk⟩ := hblank
    apply scan_blank hscan hk (by simp)
    rintro rfl
    rw [hhead]
    exact head?_of_space hscan
  · have hcounts : ∀ k ∈ k?, k.counts = true := by
      intro k hk
      by_contra hnot
      exact hblank ⟨k, hk, by simpa using hnot⟩
    have hcut := scan_replace hscan hcounts (behind_divider hd (c :: x) y s) (.inl (hhead []))
    have hseam : Seam t (c :: (x ++ (y ++ [d]))) := by
      have happend := Seam.append_divider hd (c :: (x ++ y)) t
      rwa [List.cons_append, List.append_assoc] at happend
    have hextend := scan_append hseam (by rw [hcut]; simp)
    rw [hcut] at hextend
    simpa [Scan.extend] using hextend

end Scans

/-! ## Items around the part -/

section Items

variable {n : ℕ} {c d : Char} {cs s t : List Char} {i : Item} {front blank part back : List Item}

/-- An item that is scanned alike in front of other items comes in front of what they are. -/
theorem items_of_scan {k? : Option TokenKind} {x r : List Char}
    (hscan : scan c (x ++ (front.flatMap Item.lexeme ++ s)) = ⟨k?, c :: x, front.flatMap Item.lexeme ++ s⟩)
    (hfront : Cursor.items ⟨n + (c :: x).length, front.flatMap Item.lexeme ++ s⟩ =
      front ++ Cursor.items ⟨n + (c :: x).length + (front.flatMap Item.lexeme).length, s⟩) :
    Cursor.items ⟨n, c :: x ++ front.flatMap Item.lexeme ++ s⟩ =
      .ofScan n ⟨k?, c :: x, r⟩ :: front ++ Cursor.items ⟨n + (c :: x ++ front.flatMap Item.lexeme).length, s⟩ := by
  rw [List.append_assoc, List.cons_append, Cursor.items_cons, hscan, hfront, List.length_append, Nat.add_assoc]
  rfl

/-- The items in front of a divider do not depend on what stands behind the divider. -/
theorem items_divided (hd : d ∈ dividers)
    (h : Cursor.items ⟨n, front.flatMap Item.lexeme ++ d :: s⟩ = front ++ back) (t : List Char) :
    Cursor.items ⟨n, front.flatMap Item.lexeme ++ d :: t⟩ =
      front ++ Cursor.items ⟨n + (front.flatMap Item.lexeme).length, d :: t⟩ := by
  induction front generalizing n with
  | nil => rfl
  | cons i front ih =>
    obtain ⟨k?, c, x, r, rfl, hlexeme, hcs, hscan, hrest⟩ := Item.exists_scan_of_cons h
    rw [List.flatMap_cons, hlexeme] at hcs ⊢
    obtain rfl : r = front.flatMap Item.lexeme ++ d :: s := by simpa using hcs.symm
    exact items_of_scan (scan_divided hd hscan t) (ih hrest)

/-- Spaces and comments stay what they are in front of a divider. -/
theorem items_blank (hblank : ∀ i ∈ blank, ∃ t : Token, i = .token t ∧ t.kind.counts = false) (hs : s ≠ [])
    (h : Cursor.items ⟨n, blank.flatMap Item.lexeme ++ s⟩ = blank ++ back) (hd : d ∈ dividers) (t : List Char) :
    Cursor.items ⟨n, blank.flatMap Item.lexeme ++ d :: t⟩ =
      blank ++ Cursor.items ⟨n + (blank.flatMap Item.lexeme).length, d :: t⟩ := by
  induction blank generalizing n with
  | nil => rfl
  | cons i blank ih =>
    obtain ⟨⟨u, hu, hcounts⟩, hblanks⟩ := List.forall_mem_cons.mp hblank
    have hspace : ∀ d ∈ dividers, isSpace d = false := forall_mem_dividers.mpr (by decide)
    obtain ⟨k?, c, x, r, rfl, hlexeme, hcs, hscan, hrest⟩ := Item.exists_scan_of_cons h
    rw [List.flatMap_cons, hlexeme] at hcs ⊢
    obtain rfl : r = blank.flatMap Item.lexeme ++ s := by simpa using hcs.symm
    obtain ⟨k, rfl, hk⟩ : ∃ k, k? = some k ∧ k.counts = false := by
      cases k? with
      | none => cases hu
      | some k =>
        cases hu
        exact ⟨k, rfl, hcounts⟩
    have hscan' : scan c (x ++ (blank.flatMap Item.lexeme ++ d :: t)) =
        ⟨some k, c :: x, blank.flatMap Item.lexeme ++ d :: t⟩ := by
      apply scan_blank hscan hk (by simp [hs])
      rintro rfl a ha
      have hhead := head?_of_space hscan
      cases hlexemes : blank.flatMap Item.lexeme with
      | nil =>
        rw [hlexemes] at ha
        cases ha
        exact hspace d hd
      | cons b lexemes =>
        rw [hlexemes] at ha hhead
        exact hhead a ha
    exact items_of_scan hscan' (ih hblanks hrest)

/-- A token that divides the sheet is a divider. -/
theorem exists_divider {e : Cursor} {m : Punctuation} (hi : i ∈ e.items) (hk : i.kind = .punct m)
    (hm : (TokenKind.punct m).divides = true) : ∃ d ∈ dividers, i.lexeme = [d] := by
  obtain ⟨n, c, cs, rfl⟩ := Item.exists_scan_of_mem_items hi
  obtain ⟨hc, hscan⟩ := scan_of_punct (Item.ofScan_of_kind hk nofun)
  refine ⟨c, ?_, by rw [Item.lexeme_ofScan, hscan]⟩
  unfold TokenKind.ofChar? at hc
  split at hc
  all_goals cases hc <;> first | decide | cases hm

/-- A part behind a divider, with spaces and comments in front of it and another divider behind it, is taken out of a
text. -/
theorem items_excised {cs' : List Char} {j : Item} {m m' : Punctuation}
    (h : Cursor.items ⟨n, cs⟩ = front ++ i :: (blank ++ (part ++ j :: back)))
    (hi : i.kind = .punct m) (hm : (TokenKind.punct m).divides = true)
    (hj : j.kind = .punct m') (hm' : (TokenKind.punct m').divides = true)
    (hblank : ∀ i ∈ blank, ∃ t : Token, i = .token t ∧ t.kind.counts = false)
    (hcs' : cs' = (front ++ i :: (blank ++ j :: back)).flatMap Item.lexeme) :
    ∃ back', Cursor.items ⟨n, cs'⟩ = front ++ i :: (blank ++ back') ∧ Alike (j :: back) back' := by
  obtain ⟨d, hd, hdi⟩ : ∃ d ∈ dividers, i.lexeme = [d] := exists_divider (e := ⟨n, cs⟩) (by simp [h]) hi hm
  obtain ⟨e, he, hej⟩ : ∃ e ∈ dividers, j.lexeme = [e] := exists_divider (e := ⟨n, cs⟩) (by simp [h]) hj hm'
  let behind : List Char := (blank ++ (part ++ j :: back)).flatMap Item.lexeme
  let rest : List Char := back.flatMap Item.lexeme
  let place : ℕ := n + (front.flatMap Item.lexeme).length
  have hcs : cs = front.flatMap Item.lexeme ++ d :: behind := by
    have htext := Cursor.flatMap_lexeme_items ⟨n, cs⟩
    rw [h, List.flatMap_append, List.flatMap_cons, hdi] at htext
    exact htext.symm
  rw [hcs] at h
  have hdivided := items_divided hd h
  obtain ⟨hi', hbehind⟩ : .token ⟨_, [d], place⟩ = i ∧
      Cursor.items ⟨place + 1, behind⟩ = blank ++ (part ++ j :: back) := by
    have hitems := (hdivided behind).symm.trans h
    rw [Cursor.items_divider hd] at hitems
    exact List.cons.inj (List.append_cancel_left hitems)
  obtain ⟨m, ds, hds⟩ : ∃ m ds, Cursor.items ⟨m, ds⟩ = j :: back := by
    refine @exists_items_eq (blank ++ part) _ _ _ (hbehind.trans ?_)
    rw [List.append_assoc]
  have hds' : ds = e :: rest := by
    have htext := Cursor.flatMap_lexeme_items ⟨m, ds⟩
    rw [hds, List.flatMap_cons, hej] at htext
    exact htext.symm
  have hbehind' : Cursor.items ⟨place + 1, blank.flatMap Item.lexeme ++ (part ++ j :: back).flatMap Item.lexeme⟩ =
      blank ++ (part ++ j :: back) := by
    rw [← List.flatMap_append]
    exact hbehind
  refine ⟨Cursor.items ⟨place + 1 + (blank.flatMap Item.lexeme).length, e :: rest⟩, ?_, ?_⟩
  · calc Cursor.items ⟨n, cs'⟩
      _ = Cursor.items ⟨n, front.flatMap Item.lexeme ++ d :: (blank.flatMap Item.lexeme ++ e :: rest)⟩ := by
        rw [hcs']
        simp [hdi, hej, rest]
      _ = front ++ i :: Cursor.items ⟨place + 1, blank.flatMap Item.lexeme ++ e :: rest⟩ := by
        rw [hdivided, Cursor.items_divider hd, ← hi']
      _ = _ := by rw [items_blank hblank (by simp [hej]) hbehind' he]
  · rw [← hds, hds']
    exact alike_items _ _ _

end Items

end SlotGrid.Style
