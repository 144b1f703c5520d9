import SlotGrid.Proofs.Session.Run
import SlotGrid.Proofs.Style.Registrations

/-! # What a text registers in a session

Every template and every position that parsing a text registers is for the selector of the rule it was found in. A
rule that is dropped has registered what stands in its declarations in front of the error, and nothing else.
-/

namespace SlotGrid.Session

open Style

theorem positions_parse (s : Session) (text : String) :
    (s.parse text).2.positions = s.positions ++ (Style.parse s.grids.length text).positions := by
  have hpositions : ∀ (s : Session) (ts : List Template), (ts.foldl register s).positions = s.positions := fun s ts =>
    List.foldlRecOn (motive := fun s' : Session => s'.positions = s.positions) ts register rfl fun _ h _ _ => h
  exact congrArg (· ++ _) (hpositions s _)

/-- The registries grow by what the steps of the text register, and the sheet has the rules that the steps keep.
What is registered for a rule that is kept has its selector. A rule that is dropped registers nothing if none of
its declarations in front of the error defines a template or places elements, and between rules nothing is
registered. -/
theorem registered_by_rules (s : Session) (text : String) :
    let registered := s.grids.length
    let steps := (Progress.start (.ofText text)).starts registered
    (s.parse text).1.rules = steps.filterMap (·.kept? registered) ∧
    (s.parse text).2.grids.map Grid.template =
      s.grids.map Grid.template ++ steps.flatMap (·.newTemplates registered) ∧
    (s.parse text).2.positions = s.positions ++ steps.flatMap (·.newPositions registered) ∧
    ∀ p ∈ steps,
      (∀ r, p.kept? registered = some r →
        (∀ t ∈ p.newTemplates registered, t.selector = r.selector) ∧
        ∀ x ∈ p.newPositions registered, x.selector = r.selector) ∧
      (∀ e q, Reader.rule? registered p.fresh = .error e q → ∀ passed, passed ++ q.stream = p.stream →
        ¬ Registers passed → p.newTemplates registered = [] ∧ p.newPositions registered = []) ∧
      ∀ q, Reader.rule? registered p.fresh = .ok none q →
        p.newTemplates registered = [] ∧ p.newPositions registered = [] := by
  intro registered steps
  refine ⟨rules_parse registered text, ?_, ?_, fun p _ => ⟨fun r hr => ?_, fun e q h passed => ?_, fun q h => ?_⟩⟩
  · refine (map_template_foldl_register s _).trans (congrArg (s.grids.map Grid.template ++ ·) ?_)
    exact (Progress.templates_finish registered _).trans (List.nil_append _)
  · refine (positions_parse s text).trans (congrArg (s.positions ++ ·) ?_)
    exact (Progress.positions_finish registered _).trans (List.nil_append _)
  · obtain ⟨q, h⟩ := Progress.kept?_eq_some.mp hr
    have hselector : (Reader.after (Reader.rule? registered) p.fresh).selector = r.selector := by
      unfold Reader.after
      rw [h]
      exact (Reader.selector_of_rule? h).symm
    rw [← hselector]
    exact ⟨(Progress.templates_step registered p).2, (Progress.positions_step registered p).2⟩
  · exact Progress.new_eq_nil_of_error h
  · refine Progress.new_eq_nil ?_
    unfold Reader.after
    rw [h]
    exact Reader.unregistered_of_none h

/-- The rule is dropped because of its second declaration, but the first one has placed its elements. -/
theorem not_registered_by_rules :
    ¬ ∀ (s : Session) (text : String), ∀ x ∈ (s.parse text).2.positions,
      x ∈ s.positions ∨ ∃ r ∈ (s.parse text).1.rules, r.selector = x.selector := by
  intro h
  let p := Progress.start (.ofText "a\x7bposition:b;c\x7d")
  have hrule : Reader.rule? 0 p.fresh = .error (.unexpected "':'" ⟨.punct .rightBrace, ['}'], 14⟩)
      ⟨[.token ⟨.punct .rightBrace, ['}'], 14⟩], "a", 1, ⟨[⟨"position", "b", none⟩]⟩, .empty, [], [⟨"a", 'b'⟩]⟩ := by
    decide +kernel
  have hrules : ((new .standard).parse "a\x7bposition:b;c\x7d").1.rules = [] := by
    change (p.finish 0).sheet.rules = []
    rw [← Progress.sheet_finish_step, Progress.step_of_error hrule, Progress.sheet_finish_of_ends rfl]
    rfl
  have hposition : ⟨"a", 'b'⟩ ∈ ((new .standard).parse "a\x7bposition:b;c\x7d").2.positions := by
    rw [positions_parse]
    change _ ∈ [] ++ (p.finish 0).positions
    rw [Progress.positions_finish]
    refine List.mem_append_right _ (List.mem_append_right _ ?_)
    refine List.mem_flatMap.mpr ⟨p, Progress.self_mem_starts 0 p, ?_⟩
    unfold Progress.newPositions
    rw [Progress.step_of_error hrule]
    exact List.mem_singleton_self _
  rcases h _ _ _ hposition with h | ⟨r, hr, -⟩
  · cases h
  · rw [hrules] at hr
    cases hr

end SlotGrid.Session
