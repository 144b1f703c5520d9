import SlotGrid.Proofs.Style.Inside

/-! # Runs abreast

Two streams have a part in common, and other parts behind it. Their runs read the common part in the same way up to
its last divider: the steps that end in it are the same, and the rule behind them is opened and read alike.
-/

namespace SlotGrid.Style

/-- Readers see the parts of a text one behind the other. -/
theorem Stream.ofText_of_items {text : String} {front back : List Item}
    (h : (Cursor.start text).items = front ++ back) :
    ofText text = .token ⟨.space, [], 0⟩ :: front.filter (!·.isComment) ++ back.filter (!·.isComment) := by
  rw [List.cons_append, ← List.filter_append, ← h]
  rfl

namespace Beside

theorem of_items {text text' : String} {front back back' : List Item}
    (h : (Cursor.start text).items = front ++ back) (h' : (Cursor.start text').items = front ++ back') :
    Beside (back.filter (!·.isComment)) (back'.filter (!·.isComment)) (.start (.ofText text))
      (.start (.ofText text')) :=
  ⟨⟨_, Stream.ofText_of_items h, Stream.ofText_of_items h'⟩, rfl⟩

variable {registered : ℕ} {u v : Stream} {p q : Progress}

/-- The steps in front of a place in the first stream are the same in front of the second one. -/
theorem exists_of_mem_starts (h : Beside u v p q) (hv : v.opensAddress = false)
    (hkinds : ∀ i ∈ p.stream, i.kind ≠ .endOfInput) {p' : Progress} (hp' : p' ∈ p.starts registered)
    (hu : u ≠ []) (hs : u <:+ p'.stream) :
    ∃ q', Beside u v p' q' ∧ p.finish registered = p'.finish registered ∧
      q.finish registered = q'.finish registered := by
  induction p using Progress.induction_step registered generalizing q with
  | step p ih =>
    by_cases hlt : (p.step registered).stream.length < p.stream.length
    · rw [Progress.starts_of_lt hlt] at hp'
      rcases List.mem_cons.mp hp' with rfl | hp'
      · exact ⟨q, h, rfl, rfl⟩
      · have hfurther : (p.step registered).Further p' := Progress.keeps_starts hp'
        obtain ⟨y, hy⟩ := hs.trans hfurther
        have hne : (p.step registered).stream ≠ [] := by
          intro hnil
          rw [hnil] at hy
          exact hu (List.append_eq_nil_iff.mp hy).2
        have hends := Progress.ends_of_ne_nil hkinds hne
        have hsuffix : p.Further (p.step registered) := Progress.keeps_step registered p
        have hkinds' : ∀ i ∈ (p.step registered).stream, i.kind ≠ .endOfInput := fun i hi => hkinds i (hsuffix.subset hi)
        have hpasses : p.Passes registered := by
          apply (hends.passes hkinds).resolve_left
          rintro ⟨hnoise, p₁, hrule⟩
          rw [Progress.step_of_noise hrule hnoise] at hne
          exact hne rfl
        have hstep := h.step hv hends hkinds hpasses hy.symm
        rw [Progress.finish_of_lt hlt, Progress.finish_of_lt ((h.length_lt_iff hstep).mp hlt)]
        exact ih hlt hstep hkinds' hp'
    · rw [Progress.starts_of_not_lt hlt] at hp'
      obtain rfl := List.mem_singleton.mp hp'
      exact ⟨q, h, rfl, rfl⟩

end Beside

namespace Progress

/-- Nothing but the streams and the messages differ. -/
structure Similar (p q : Progress) : Prop where
  selector : q.selector = p.selector
  depth : q.depth = p.depth
  declarations : q.declarations = p.declarations
  found : q.found = p.found

end Progress

namespace Follows

variable {J : Junction} {p q : Progress}

theorem similar (h : Follows J p q) (hbefore : J.before = ⟨.empty, [], []⟩) : p.Similar q :=
  ⟨h.selector, h.depth, h.declarations, h.found_eq hbefore⟩

theorem suffix_left (h : Follows J p q) : J.left <:+ p.stream := by
  obtain ⟨is, -, -, hp, -⟩ := h.stream
  exact ⟨is, hp.symm⟩

/-- The runs are where their streams part when as much is left. -/
theorem atJunction (h : Follows J p q) (hleft : J.left ≠ []) (hlength : p.stream.length = J.left.length) :
    Reader.AtJunction J p q := by
  obtain ⟨is, js, hs, hp, hq⟩ := h.stream
  have his : is = [] := by
    rw [hp, List.length_append] at hlength
    exact List.length_eq_zero_iff.mp (by omega)
  subst his
  cases hs
  exact ⟨h, hleft, hp, hq⟩

end Follows

theorem Agree.exists_of_ok {α : Type} {J : Junction} {x y : EStateM.Result SyntaxError Progress α} {a : α}
    {p : Progress} (h : Agree J x y) (hx : x = .ok a p) : ∃ q, y = .ok a q ∧ Follows J p q := by
  subst hx
  cases h with
  | ok _ h => exact ⟨_, rfl, h⟩

namespace Reader

variable {registered : ℕ} {J : Junction} {p q b : Progress}

/-- The runs are alike in the block in front of the semicolon where their streams part. -/
theorem Reaches.follows (h : Reaches registered p b) (hfollows : Follows J p q)
    (hsemicolon : J.left.kind = .punct .semicolon) (hbefore : J.before = ⟨.empty, [], []⟩)
    (hlength : J.left.length ≤ b.stream.length) : ∃ b', Reaches registered q b' ∧ Follows J b b' := by
  induction h with
  | opened hnoise hheader =>
    obtain ⟨q₁, hnoise', h₁⟩ := (plain_skipNoise.agrees hfollows).exists_of_ok hnoise
    have hagree : Agree J (header _) (header q₁) :=
      agree_bind (plain_selectors.agrees h₁) fun h => agree_expect _ h (by rw [hsemicolon]; nofun)
    obtain ⟨b', hheader', h₂⟩ := hagree.exists_of_ok hheader
    exact ⟨_, .opened hnoise' hheader', { h₂ with depth := rfl }⟩
  | @next b c h hitem ih =>
    have hlt := length_lt_of_blockItem hitem
    obtain ⟨b', hreaches, hb⟩ := ih (by omega)
    have hends : J.left.kind.endsDeclaration = true := by
      rw [hsemicolon]
      rfl
    have hregistered : registered = registered + J.before.templates.length := by
      rw [hbefore]
      rfl
    rcases agreeOrClose_blockItem hb hends hregistered with hagree | ⟨p', q', hat, hclose, -⟩
    · obtain ⟨c', hitem', hc⟩ := hagree.exists_of_ok hitem
      exact ⟨c', hreaches.next hitem', hc⟩
    · -- Behind the semicolon there would be less left than from the semicolon on.
      obtain ⟨_, p₁, hadvance, hclose⟩ := bind_eq_ok.mp (hclose.symm.trans hitem)
      obtain rfl := (EStateM.Result.ok.inj hclose).2
      have hlt := length_lt_of_advance hadvance (by rw [hat.left, hsemicolon]; nofun)
      rw [hat.left] at hlt
      omega

/-- Both runs move on from the item where their streams part. -/
theorem AtJunction.advance {p' : Progress} (hat : AtJunction J p q) (hbefore : J.before = ⟨.empty, [], []⟩)
    (hopens : Stream.opensAddress J.right.tail = false) (h : Reader.advance p = .ok () p') :
    ∃ q', Reader.advance q = .ok () q' ∧ p'.Similar q' ∧ q'.stream = J.right.tail := by
  obtain ⟨rfl, -⟩ := advance_eq_ok.mp h
  have hsimilar := hat.follows.similar hbefore
  have hstream : q.stream.tail = J.right.tail := congrArg List.tail hat.right
  refine ⟨_, advance_eq_ok.mpr ⟨rfl, hstream ▸ hopens⟩, ?_, hstream⟩
  exact ⟨hsimilar.selector, hsimilar.depth, hsimilar.declarations, hsimilar.found⟩

theorem expect_eq_advance {k : TokenKind} (expected : String) (hk : p.stream.kind = k) :
    expect k expected p = advance p := by
  unfold expect
  rw [bind_kind, if_pos hk]

theorem blockItem_of_semicolon {p₁ : Progress} (hskip : discard skipSpace p = .ok () p₁)
    (hk : p₁.stream.kind = .punct .semicolon) (hadvance : advance p₁ = .ok () q) :
    blockItem registered p = .ok true q := by
  unfold blockItem
  rw [bind_of_ok hskip, bind_kind, hk]
  exact bind_of_ok hadvance

/-- Where the streams part at the brace or the semicolon behind which the first run is, the second run gets behind
it too. -/
theorem Reaches.exists_behind (h : Reaches registered p b) (hfollows : Follows J p q)
    (hbefore : J.before = ⟨.empty, [], []⟩) {i : Item} (hleft : J.left = i :: b.stream)
    (hends : b.stream.kind.endsDeclaration = false) (hopens : Stream.opensAddress J.right.tail = false) :
    ∃ b', Reaches registered q b' ∧ b.Similar b' ∧ b'.stream = J.right.tail := by
  have hne : J.left ≠ [] := by simp [hleft]
  cases h with
  | opened hnoise hheader =>
    obtain ⟨q₁, hnoise', h₁⟩ := (plain_skipNoise.agrees hfollows).exists_of_ok hnoise
    obtain ⟨_, p₂, hselectors, hexpect⟩ := bind_eq_ok.mp hheader
    obtain ⟨q₂, hselectors', h₂⟩ := (plain_selectors.agrees h₁).exists_of_ok hselectors
    obtain ⟨brace, hk, hs⟩ := expect_eq_ok hexpect nofun
    have hkind : p₂.stream.kind = .punct .leftBrace := by
      rw [hs]
      exact hk
    have hat := h₂.atJunction hne (by rw [hs, hleft]; rfl)
    rw [expect_eq_advance _ hkind] at hexpect
    obtain ⟨b', hadvance, hsimilar, hstream⟩ := hat.advance hbefore hopens hexpect
    have hheader' : header q₁ = .ok () b' := by
      unfold header
      rw [bind_of_ok hselectors', expect_eq_advance _ (h₂.kind_eq ▸ hkind), hadvance]
    exact ⟨_, .opened hnoise' hheader', ⟨hsimilar.selector, rfl, hsimilar.declarations, hsimilar.found⟩, hstream⟩
  | @next b₀ _ h hitem =>
    obtain ⟨p₁, hskip, ⟨hk, hadvance⟩ | hdeclaration⟩ := blockItem_eq_true hitem
    · obtain ⟨j, -, hreads⟩ := reads_advance hadvance hk nofun
      have hlength : p₁.stream.length = J.left.length := by rw [hreads.stream, hleft]; rfl
      have hskipped : p₁.stream <:+ b₀.stream :=
        ((plain_discard plain_skipSpace).of_ok (R := Progress.Onward) hskip).stream
      have hsemicolon : J.left.kind = .punct .semicolon := by
        have hsuffix := List.suffix_of_suffix_length_le (hskipped.trans h.suffix) hfollows.suffix_left hlength.le
        rw [← hsuffix.eq_of_length hlength, hk]
      obtain ⟨b₁, hreaches, h₁⟩ := h.follows hfollows hsemicolon hbefore (hlength ▸ hskipped.length_le)
      obtain ⟨q₁, hskip', h₂⟩ := ((plain_discard plain_skipSpace).agrees h₁).exists_of_ok hskip
      obtain ⟨b', hadvance', hsimilar, hstream⟩ := (h₂.atJunction hne hlength).advance hbefore hopens hadvance
      exact ⟨b', hreaches.next (blockItem_of_semicolon hskip' (h₂.kind_eq ▸ hk) hadvance'), hsimilar, hstream⟩
    · rw [(ends_of_declaration hdeclaration).1] at hends
      cases hends

/-- From inside of a block on, runs over streams that never part read the rest of the rule alike. -/
theorem agree_restOfRule {registered' : ℕ} (h : Follows J p q) (hl : J.left = [])
    (hregistered : registered = registered' + J.before.templates.length) :
    Agree J (restOfRule registered p) (restOfRule registered' q) := by
  have hbrace := Junction.atBrace_of_nil hl
  rcases agreeOrClose_loop (fun h => agreeOrClose_blockItem_of_brace h hbrace hregistered) h with
    hagree | ⟨_, _, hat, -⟩
  · exact agree_bind hagree agree_result
  · exact absurd hl hat.parts

end Reader

namespace Progress

variable {registered : ℕ} {p b : Progress}

/-- The progress in front of a stream, with nothing found so far. -/
def bare (p : Progress) (s : Stream) : Progress :=
  { p with stream := s, sheet := .empty, templates := [], positions := [] }

/-- What is found from inside of a block on. -/
def foundBehind (registered : ℕ) (b : Progress) : Found :=
  ((conclude ((do return some (← Reader.restOfRule registered) : Reader (Option Rule)) b)).finish registered).found

/-- What is found from inside of a block on is added to what was found before, and does not depend on it but for the
numbers of the templates. -/
theorem found_finish_of_restOfRule {s : Stream} (hs : Alike s b.stream)
    (hrule : Reader.rule? registered p.fresh = (do return some (← Reader.restOfRule registered) : Reader _) b) :
    (p.finish registered).found = b.found ++ (b.bare s).foundBehind (registered + b.templates.length) := by
  let J : Junction := ⟨[], [], .inl ⟨rfl, rfl⟩, ⟨b.sheet, b.templates, b.positions⟩⟩
  have hfollows : Follows J (b.bare s) b := by
    refine ⟨⟨s, b.stream, hs, (List.append_nil s).symm, (List.append_nil b.stream).symm⟩, rfl, rfl, rfl, ?_, ?_, ?_, ?_⟩
    all_goals exact (List.append_nil _).symm
  have hagree : Agree J
      ((do return some (← Reader.restOfRule (registered + b.templates.length)) : Reader (Option Rule)) (b.bare s))
      ((do return some (← Reader.restOfRule registered) : Reader (Option Rule)) b) :=
    Reader.agree_bind (Reader.agree_restOfRule hfollows rfl rfl) fun h => .ok _ h
  rw [← hrule] at hagree
  have hfinish : Follows J (finish (registered + b.templates.length) _) ((p.step registered).finish registered) :=
    follows_finish (follows_conclude hagree rfl) rfl rfl
  exact (congrArg Parsed.found (parsed_finish_step p)).symm.trans hfinish.found

end Progress

end SlotGrid.Style
