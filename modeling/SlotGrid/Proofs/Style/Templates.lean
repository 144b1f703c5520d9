import SlotGrid.Proofs.Style.Frames

/-! # Templates of a text

Whatever a text is, the templates that it registers are built from rows. No other way leads into the registry.
-/

namespace SlotGrid

/-- Whether a template was built from rows. -/
def Template.Built (t : Template) : Prop :=
  ∃ selector css rows widths, ofRows selector css rows widths = .ok t

namespace Style

variable {p q : Progress}

namespace Progress

/-- All templates that were added have been built from rows. -/
def Registered (p q : Progress) : Prop := ∀ t ∈ q.templates, t ∈ p.templates ∨ t.Built

theorem Registered.of_eq (h : q.templates = p.templates) : p.Registered q :=
  fun _ ht => .inl (h ▸ ht)

instance : IsPreorder Progress Registered where
  refl _ := .of_eq rfl
  trans p q r h h' := by
    intro t ht
    rcases h' t ht with hq | hb
    · exact h t hq
    · exact .inr hb

instance : SheetFrame Registered where
  of_kept _ _ h := .of_eq h
  of_report _ _ := .of_eq rfl
  of_template p t selector css rows widths h := by
    intro t' ht'
    rcases List.mem_append.mp ht' with hmem | hmem
    · exact .inl hmem
    · obtain rfl := List.mem_singleton.mp hmem
      exact .inr ⟨_, _, _, _, h⟩
  of_rule _ _ := .of_eq rfl

end Progress

/-- The templates of a text are built from rows. -/
theorem built_of_mem_parse {registered : ℕ} {text : String} {t : Template}
    (ht : t ∈ (parse registered text).templates) : t.Built := by
  have h : Progress.Registered _ _ := Progress.keeps_finish registered (.start (.ofText text))
  exact (h t ht).resolve_left List.not_mem_nil

end Style

end SlotGrid
