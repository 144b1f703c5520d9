import SlotGrid.Proofs.Style.Steps

/-! # All steps of a text

A text is read in steps, each of which reads a rule, drops one, or passes what stands between rules. What is there at
the end is what the steps have added, one after another.
-/

namespace SlotGrid.Style

namespace Progress

variable {registered : ℕ} {p q : Progress}

/-- The progress in front of every step. -/
def starts (registered : ℕ) (p : Progress) : List Progress :=
  let q := p.step registered
  if q.stream.length < p.stream.length then p :: q.starts registered else [p]
termination_by p.stream.length

/-- What holds in front of a step if it holds behind it holds everywhere. -/
theorem induction_step {motive : Progress → Prop} (registered : ℕ)
    (step : ∀ p, ((p.step registered).stream.length < p.stream.length → motive (p.step registered)) → motive p)
    (p : Progress) : motive p := by
  induction hn : p.stream.length using Nat.strong_induction_on generalizing p with
  | _ n ih => exact step p fun hlt => ih _ (hn ▸ hlt) _ rfl

theorem starts_of_lt (h : (p.step registered).stream.length < p.stream.length) :
    p.starts registered = p :: (p.step registered).starts registered := by
  rw [starts]
  exact if_pos h

theorem starts_of_not_lt (h : ¬ (p.step registered).stream.length < p.stream.length) : p.starts registered = [p] := by
  rw [starts]
  exact if_neg h

theorem finish_of_lt (h : (p.step registered).stream.length < p.stream.length) :
    p.finish registered = (p.step registered).finish registered := by
  rw [finish]
  exact if_pos h

theorem finish_of_not_lt (h : ¬ (p.step registered).stream.length < p.stream.length) :
    p.finish registered = p.step registered := by
  rw [finish]
  exact if_neg h

theorem self_mem_starts (registered : ℕ) (p : Progress) : p ∈ p.starts registered := by
  by_cases hlt : (p.step registered).stream.length < p.stream.length
  · exact starts_of_lt hlt ▸ List.mem_cons_self
  · exact starts_of_not_lt hlt ▸ List.mem_singleton_self p

/-- A sheet frame holds from the start to every step. -/
theorem keeps_starts {R : Progress → Progress → Prop} [SheetFrame R] (hq : q ∈ p.starts registered) : R p q := by
  induction p using induction_step registered with
  | step p ih =>
    by_cases hlt : (p.step registered).stream.length < p.stream.length
    · rw [starts_of_lt hlt] at hq
      rcases List.mem_cons.mp hq with rfl | hq
      · exact refl_of R q
      · exact trans_of R (keeps_step registered p) (ih hlt hq)
    · rw [starts_of_not_lt hlt] at hq
      obtain rfl := List.mem_singleton.mp hq
      exact refl_of R q

/-- What every step adds to a list is there at the end. -/
theorem finish_eq_append_flatMap {α : Type} {f added : Progress → List α}
    (h : ∀ p, f (p.step registered) = f p ++ added p) (p : Progress) :
    f (p.finish registered) = f p ++ (p.starts registered).flatMap added := by
  induction p using induction_step registered with
  | step p ih =>
    by_cases hlt : (p.step registered).stream.length < p.stream.length
    · rw [finish_of_lt hlt, ih hlt, starts_of_lt hlt, List.flatMap_cons, ← List.append_assoc, h]
    · rw [finish_of_not_lt hlt, starts_of_not_lt hlt, List.flatMap_singleton, h]

/-- The rule that a step keeps. -/
def kept? (registered : ℕ) (p : Progress) : Option Rule :=
  match Reader.rule? registered p.fresh with
  | .ok r _ => r
  | .error _ _ => none

theorem kept?_eq_some {r : Rule} :
    p.kept? registered = some r ↔ ∃ q, Reader.rule? registered p.fresh = .ok (some r) q := by
  unfold kept?
  cases Reader.rule? registered p.fresh <;> simp

theorem rules_step (registered : ℕ) (p : Progress) :
    (p.step registered).sheet.rules = p.sheet.rules ++ (p.kept? registered).toList := by
  have honward : p.fresh.Onward (Reader.after (Reader.rule? registered) p.fresh) := Reader.within_rule? _
  unfold Reader.after at honward
  unfold kept?
  cases h : Reader.rule? registered p.fresh with
  | error e q =>
    rw [h] at honward
    rw [step_of_error h]
    exact honward.rules.trans (List.append_nil _).symm
  | ok r q =>
    rw [h] at honward
    cases r with
    | none =>
      rw [step_of_none h]
      exact honward.rules.trans (List.append_nil _).symm
    | some r =>
      rw [step_of_rule h]
      exact congrArg (· ++ [r]) honward.rules

/-- The rules of a sheet are those that the steps keep. -/
theorem rules_finish (registered : ℕ) (p : Progress) :
    (p.finish registered).sheet.rules = p.sheet.rules ++ (p.starts registered).filterMap (·.kept? registered) := by
  rw [List.filterMap_eq_flatMap_toList]
  exact finish_eq_append_flatMap (f := fun p => p.sheet.rules) (rules_step registered) p

end Progress

theorem rules_parse (registered : ℕ) (text : String) :
    (parse registered text).sheet.rules =
      ((Progress.start (.ofText text)).starts registered).filterMap (·.kept? registered) :=
  (Progress.rules_finish registered _).trans (List.nil_append _)

end SlotGrid.Style
