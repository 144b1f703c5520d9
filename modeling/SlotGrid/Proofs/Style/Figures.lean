import SlotGrid.Proofs.Style.Settled

/-! # Numbers in their plain layout

A finite number is written with a sign, digits, and digits behind a point. So what is written is a numeral, and the
lexer reads all of it.
-/

namespace SlotGrid

namespace Decimal

open Float.Model.UnpackedFloat

/-- The exponent of a finite number has not all bits set. -/
theorem exponent_of_isFinite {x : Float} (h : x.isFinite) : x.toBits.toNat / 2 ^ 52 % 2 ^ 11 ≠ 2 ^ 11 - 1 := by
  intro hall
  have hexponent : @unpackExponent .binary64 x.toModel.toBits.toBitVec = -1 := by
    apply BitVec.eq_of_toNat_eq
    unfold unpackExponent
    rw [BitVec.toNat_cast, BitVec.extractLsb_toNat, Nat.shiftRight_eq_div_pow]
    exact hall
  change (unpack .binary64 x.toModel.toBits.toBitVec).isFinite = true at h
  unfold unpack at h
  simp only [hexponent] at h
  split at h
  · split at h <;> cases h
  · rename_i hne
    exact hne rfl

theorem exists_magnitude_of_isFinite {x : Float} (h : x.isFinite) :
    ∃ m e near, (Binary.ofDouble x).magnitude = .finite m e near := by
  have hexponent : ¬ x.toBits.toNat / Nat.pow 2 52 % Nat.pow 2 11 = Nat.pow 2 11 - 1 := exponent_of_isFinite h
  unfold Binary.ofDouble Binary.ofBits Encoding.double
  simp only [hexponent, if_false]
  split_ifs
  · exact ⟨_, _, _, rfl⟩
  · exact ⟨_, _, _, rfl⟩

/-! ## Digits -/

theorem exists_digit_ne_zero {n : ℕ} (hn : n ≠ 0) : ∃ c ∈ Nat.toDigits 10 n, c ≠ '0' := by
  induction n using Nat.strong_induction_on with
  | _ n ih =>
    rw [Nat.toDigits_eq_if (by decide)]
    split_ifs with hlt
    · refine ⟨_, List.mem_singleton_self _, ?_⟩
      interval_cases n <;> simp_all
    · obtain ⟨c, hc, hne⟩ := ih (n / 10) (by omega) (by omega)
      exact ⟨c, List.mem_append_left _ hc, hne⟩

theorem prefix_dropTrailingZeros (ds : List Char) : dropTrailingZeros ds <+: ds := by
  unfold dropTrailingZeros
  rw [← List.reverse_suffix, List.reverse_reverse]
  exact List.dropWhile_suffix _

theorem dropTrailingZeros_ne_nil {ds : List Char} (h : ∃ c ∈ ds, c ≠ '0') : dropTrailingZeros ds ≠ [] := by
  obtain ⟨c, hc, hne⟩ := h
  unfold dropTrailingZeros
  simp only [ne_eq, List.reverse_eq_nil_iff, List.dropWhile_eq_nil_iff, List.mem_reverse, decide_eq_true_eq]
  exact fun hall => hne (hall c hc)

end Decimal

namespace Style.Numeral

open Decimal

/-- Digits with a point in front of them, behind them or among them are a numeral. -/
theorem exists_raw_eq_positional {ds : List Char} (hne : ds ≠ []) (hds : ∀ c ∈ ds, c.isDigit = true) (point : ℤ) :
    ∃ n : Numeral, n.sign = [] ∧ n.Written ∧ n.raw = positional false ds point := by
  have hzero : ∀ {k : ℕ}, ∀ c ∈ List.replicate k '0', c.isDigit = true := by
    intro k c hc
    rw [List.eq_of_mem_replicate hc]
    rfl
  unfold positional
  simp only [Bool.false_eq_true, if_false, List.append_nil]
  split_ifs with hpoint hlength
  · refine ⟨⟨[], ['0'], List.replicate (-point).toNat '0' ++ ds⟩, rfl, ⟨.inl rfl, ?_, ?_, .inl (List.cons_ne_nil _ _)⟩, ?_⟩
    · simp
    · exact List.forall_mem_append.mpr ⟨hzero, hds⟩
    · simp [raw, hne]
  · refine ⟨⟨[], ds ++ List.replicate (point - ds.length).toNat '0', []⟩, rfl, ⟨.inl rfl, ?_, List.forall_mem_nil _, .inl ?_⟩, ?_⟩
    · exact List.forall_mem_append.mpr ⟨hds, hzero⟩
    · simp [hne]
    · simp [raw]
  · have hdrop : ds.drop point.toNat ≠ [] := by
      rw [ne_eq, List.drop_eq_nil_iff]
      omega
    refine ⟨⟨[], ds.take point.toNat, ds.drop point.toNat⟩, rfl, ⟨.inl rfl, ?_, ?_, .inr hdrop⟩, ?_⟩
    · exact fun c hc => hds c (List.mem_of_mem_take hc)
    · exact fun c hc => hds c (List.mem_of_mem_drop hc)
    · simp [raw, hdrop]

theorem exists_raw_eq_digits (d : Digits) : ∃ n : Numeral, n.sign = [] ∧ n.Written ∧ n.raw = Layout.plain.digits d := by
  by_cases hzero : d.coefficient = 0
  · refine ⟨⟨[], ['0'], []⟩, rfl, ⟨.inl rfl, by simp, nofun, .inl nofun⟩, ?_⟩
    rw [Layout.digits, if_pos hzero]
    rfl
  · rw [Layout.digits, if_neg hzero]
    refine exists_raw_eq_positional (dropTrailingZeros_ne_nil (exists_digit_ne_zero hzero)) ?_ _
    intro c hc
    exact Nat.isDigit_of_mem_toDigits (by decide) (by decide) ((prefix_dropTrailingZeros _).subset hc)

/-- A finite number is written as a numeral. -/
theorem exists_raw_eq_double {x : Float} (h : x.isFinite) :
    ∃ n : Numeral, n.Written ∧ n.raw = (Layout.plain.double x).toList := by
  obtain ⟨m, e, near, hfinite⟩ := exists_magnitude_of_isFinite h
  obtain ⟨n, hsign, hwritten, hraw⟩ := exists_raw_eq_digits (shortest Encoding.double.digitLimit m e near)
  refine ⟨{ n with sign := if (Binary.ofDouble x).negative then ['-'] else [] }, ?_, ?_⟩
  · refine ⟨?_, hwritten.whole, hwritten.fraction, hwritten.digits⟩
    split_ifs
    · exact .inr (.inr rfl)
    · exact .inl rfl
  · unfold Layout.double Layout.binary
    rw [hfinite]
    simp only [String.toList_ofList, ← hraw]
    simp [raw, hsign]

end Style.Numeral

/-! ## Numerals in a text -/

namespace Style

theorem isNameStart_of_isDigit {c : Char} (h : c.isDigit) : isNameStart c = false := by
  obtain ⟨hlow, hhigh⟩ : 48 ≤ c.toNat ∧ c.toNat ≤ 57 := by
    simpa [Char.isDigit, UInt32.le_iff_toNat_le] using h
  have hne : ∀ d : Char, d.toNat < 48 ∨ 57 < d.toNat → c ≠ d := by
    rintro d hd rfl
    omega
  have halpha : c.isAlpha = false := by
    simp only [Char.isAlpha, Char.isUpper, Char.isLower, UInt32.le_iff_toNat_le, Bool.or_eq_false_iff,
      Bool.and_eq_false_iff, decide_eq_false_iff_not]
    change ¬ (65 ≤ c.toNat ∧ c.toNat ≤ 90) ∧ (¬ 97 ≤ c.toNat ∨ ¬ c.toNat ≤ 122)
    omega
  have hforeign : isForeign c = false := decide_eq_false (by omega)
  simp [isNameStart, halpha, hforeign, hne '_' (by decide), hne '\\' (by decide)]

theorem startsIdent_cons {c : Char} (hdash : c ≠ '-') (hstroke : c ≠ '\\') (s : List Char) :
    startsIdent (c :: s) = isNameStart c := by
  unfold startsIdent
  split <;> simp_all

theorem startsIdent_dash {c : Char} (hstroke : c ≠ '\\') (s : List Char) :
    startsIdent ('-' :: c :: s) = isNameStart c := by
  simp [startsIdent]

namespace Numeral

variable {n : Numeral} {s : List Char}

/-- The first character behind the sign. -/
theorem Written.exists_unsigned (hn : n.Written) :
    ∃ d y, n.raw = n.sign ++ d :: y ∧ (d.isDigit ∨ d = '.') := by
  obtain ⟨sign, whole, fraction⟩ := n
  obtain ⟨-, hwhole, -, hdigits⟩ := hn
  cases whole with
  | cons d whole => exact ⟨d, _, List.append_assoc sign _ _, .inl (hwhole d List.mem_cons_self)⟩
  | nil =>
    have hfraction : fraction ≠ [] := hdigits.resolve_left (by simp)
    exact ⟨'.', fraction, by simp [raw, hfraction], .inr rfl⟩

/-- No name starts with a number. -/
theorem Written.not_startsIdent (hn : n.Written) (s : List Char) : startsIdent (n.raw ++ s) = false := by
  obtain ⟨d, y, hraw, hd⟩ := hn.exists_unsigned
  have hstart : isNameStart d = false := by
    rcases hd with hd | rfl
    · exact isNameStart_of_isDigit hd
    · rfl
  have hdash : d ≠ '-' := by
    rintro rfl
    rcases hd with hd | hd <;> cases hd
  have hstroke : d ≠ '\\' := by
    rintro rfl
    cases hstart
  rw [hraw]
  rcases hn.sign with hsign | hsign | hsign
  · rw [hsign]
    exact (startsIdent_cons hdash hstroke (y ++ s)).trans hstart
  · rw [hsign]
    rfl
  · rw [hsign]
    exact (startsIdent_dash hstroke (y ++ s)).trans hstart

theorem Written.head?_raw (hn : n.Written) : ∀ c ∈ n.raw.head?, c = '+' ∨ c = '-' ∨ c = '.' ∨ c.isDigit := by
  obtain ⟨d, y, hraw, hd⟩ := hn.exists_unsigned
  rw [hraw]
  rcases hn.sign with hsign | hsign | hsign
  · rw [hsign]
    rintro c ⟨⟩
    tauto
  all_goals simp [hsign]

end Numeral

theorem Form.attempt?_of_none {f : Form} {cs : List Char}
    (h : ∀ ds rest, List.Forall₂ (fun d e => e d = true) ds f.opening → cs = ds ++ rest → f.finish? ds rest = none) :
    f.attempt? (.start cs) = some (.givenBack (.start cs)) := by
  refine (f.attempt?_start cs).resolve_right ?_
  rintro ⟨s, hs, -⟩
  obtain ⟨ds, rest, hds, hcs, hfinish⟩ := attempt?_eq_found.mp hs
  rw [h ds rest hds hcs] at hfinish
  cases hfinish

theorem Form.attempt?_of_opening {f : Form} {e : Char → Bool} {es : List (Char → Bool)} (hf : f.opening = e :: es)
    {c : Char} (hc : e c = false) (cs : List Char) :
    f.attempt? (.start (c :: cs)) = some (.givenBack (.start (c :: cs))) := by
  refine f.attempt?_of_none fun ds rest hds hcs => ?_
  rw [hf] at hds
  cases hds with
  | cons hd hds =>
    obtain ⟨rfl, -⟩ := List.cons.inj hcs
    rw [hc] at hd
    cases hd

/-- A number is no other token, whatever follows its digits. -/
theorem scan_of_written {n : Numeral} {c : Char} {cs s : List Char} (hn : n.Written) (hs : n.EndsAt s)
    (h : c :: cs = n.raw ++ s) : scan c cs = scanNumber n (c :: cs) := by
  have hread : Numeral.read? (c :: cs) = some n := h ▸ Numeral.read?_raw_append hn hs
  have hc : c = '+' ∨ c = '-' ∨ c = '.' ∨ c.isDigit := by
    apply hn.head?_raw
    obtain ⟨d, y, hraw⟩ := List.exists_cons_of_ne_nil (Numeral.read?_raw hread).1
    rw [hraw] at h ⊢
    exact congrArg some (List.cons.inj h).1.symm
  have hrange : Form.range.attempt? (.start (c :: cs)) = some (.givenBack (.start (c :: cs))) := by
    have hu : c ≠ 'u' ∧ c ≠ 'U' := by
      constructor
      all_goals
        rintro rfl
        exact absurd hc (by decide)
    exact Form.range.attempt?_of_opening rfl (by simp [hu]) cs
  have hname : Form.name.attempt? (.start (c :: cs)) = some (.givenBack (.start (c :: cs))) := by
    refine Form.attempt?_of_none fun ds rest hds hcs => ?_
    obtain rfl := List.forall₂_nil_right_iff.mp hds
    rw [List.nil_append] at hcs
    simp [Form.name, ← hcs, h, hn.not_startsIdent s]
  have hmarked : (Form.marked '@' startsIdent .atKeyword).attempt? (.start (c :: cs)) =
      some (.givenBack (.start (c :: cs))) := by
    have hat : c ≠ '@' := by
      rintro rfl
      exact absurd hc (by decide)
    exact Form.attempt?_of_opening rfl (by simp [hat]) cs
  have hnumber : Form.number.attempt? (.start (c :: cs)) = some (.found (scanNumber n (c :: cs))) :=
    Form.attempt?_eq_found.mpr ⟨[], c :: cs, .nil, rfl, by simp [Form.number, hread]⟩
  apply scan_eq_of_scan?
  simp only [scan?, Form.all, Form.attemptAll?, hrange, hname, hmarked, hnumber]
  rfl

end Style

end SlotGrid
