import Mathlib
import SlotGrid.Document.Layout

/-! # Documents with the same content

Traversals see the links of a document only through parents and children. So content is measured alike in
documents with the same elements, parents and children.
-/

namespace SlotGrid

namespace Document

/-- The documents have the same elements, at the same places and with the same styles; what the layout found out
about them may differ. -/
structure SameContent (d d' : Document) : Prop where
  elements : d'.elements = d.elements
  parent : ∀ e, d'.parent? e = d.parent? e
  children : ∀ e, d'.children e = d.children e
  slots : d'.slots = d.slots
  styles : d'.styles = d.styles
  metrics : d'.metrics = d.metrics
  viewport : d'.viewport = d.viewport

/-- The documents are alike in everything that can be asked of them. -/
structure Same (d d' : Document) : Prop extends SameContent d d' where
  region : ∀ e, d'.region? e = d.region? e
  slotWidth : ∀ e, d'.slotWidth? e = d.slotWidth? e

namespace SameContent

variable {α : Type} {d d' d'' : Document}

theorem refl (d : Document) : d.SameContent d := ⟨rfl, fun _ => rfl, fun _ => rfl, rfl, rfl, rfl, rfl⟩

theorem trans (h : d.SameContent d') (h' : d'.SameContent d'') : d.SameContent d'' :=
  ⟨h'.elements.trans h.elements, fun e => (h'.parent e).trans (h.parent e),
    fun e => (h'.children e).trans (h.children e), h'.slots.trans h.slots, h'.styles.trans h.styles,
    h'.metrics.trans h.metrics, h'.viewport.trans h.viewport⟩

/-! ## Traversals -/

theorem get?_eq (h : d.SameContent d') (e : ElementId) : d'.get? e = d.get? e := by
  unfold get?
  rw [h.elements]

theorem size_eq (h : d.SameContent d') : d'.size = d.size := by
  unfold size
  rw [h.elements]

theorem ancestors_eq (h : d.SameContent d') (e : ElementId) : d'.ancestors e = d.ancestors e := by
  have hwithin : ∀ depth, d'.ancestorsWithin depth e = d.ancestorsWithin depth e := by
    intro depth
    induction depth generalizing e with
    | zero => rfl
    | succ depth ih =>
      unfold ancestorsWithin
      rw [h.parent]
      cases d.parent? e with
      | none => rfl
      | some p => exact congrArg (p :: ·) (ih p)
  unfold ancestors
  rw [h.size_eq, hwithin]

theorem fold_eq (h : d.SameContent d') (f : ElementId → List α → α) (e : ElementId) : d'.fold f e = d.fold f e := by
  have hwithin : ∀ depth, d'.foldWithin f depth e = d.foldWithin f depth e := by
    intro depth
    induction depth generalizing e with
    | zero => rfl
    | succ depth ih =>
      unfold foldWithin
      rw [h.children]
      exact congrArg (f e) (List.map_congr_left fun c _ => ih c)
  unfold fold
  rw [h.size_eq, hwithin]

/-! ## Measures -/

theorem words_eq (h : d.SameContent d') (e : ElementId) : d'.words e = d.words e := by
  unfold words
  rw [h.get?_eq]

theorem ownWidth?_eq (h : d.SameContent d') (e : ElementId) : d'.ownWidth? e = d.ownWidth? e := by
  unfold ownWidth?
  rw [h.get?_eq]

theorem characterWidth_eq (h : d.SameContent d') : d'.characterWidth = d.characterWidth := by
  unfold characterWidth
  rw [h.metrics]

theorem boxWidth_eq (h : d.SameContent d') (measureText : List ℕ → ℕ) (e : ElementId) :
    d'.boxWidth measureText e = d.boxWidth measureText e := by
  unfold boxWidth
  rw [h.fold_eq]
  simp only [h.ownWidth?_eq, h.words_eq, h.characterWidth_eq]

theorem columnHeight_eq (h : d.SameContent d') : d'.columnHeight = d.columnHeight := by
  funext e below width
  unfold columnHeight textHeight
  rw [h.words_eq, h.characterWidth_eq, h.metrics]

theorem contentHeight_eq (h : d.SameContent d') (e : ElementId) (width : Float32) :
    d'.contentHeight e width = d.contentHeight e width := by
  have hbox : d'.boxHeight = d.boxHeight := by
    funext e
    unfold boxHeight
    rw [h.fold_eq]
    simp only [h.columnHeight_eq, h.ownWidth?_eq]
  unfold contentHeight
  rw [h.columnHeight_eq, h.children, hbox]

theorem unitSize_eq (h : d.SameContent d') (available : Float) : d'.unitSize available = d.unitSize available := by
  funext unit
  unfold unitSize
  rw [h.metrics, h.viewport]

theorem widthAround_eq (h : d.SameContent d') (hw : ∀ e, d'.slotWidth? e = d.slotWidth? e) (e : ElementId) :
    d'.widthAround e = d.widthAround e := by
  unfold widthAround
  rw [h.ancestors_eq, h.viewport]
  simp only [h.ownWidth?_eq, hw]

theorem preferred_eq (h : d.SameContent d') : d'.measure.preferred = d.measure.preferred := by
  funext e
  simp only [measure, preferredWidth, h.boxWidth_eq]

theorem minimum_eq (h : d.SameContent d') : d'.measure.minimum = d.measure.minimum := by
  funext e
  simp only [measure, minimumWidth, h.boxWidth_eq]

/-- Documents with the same content and the same slot widths measure alike. -/
theorem measure_eq (h : d.SameContent d') (hw : ∀ e, d'.slotWidth? e = d.slotWidth? e) : d'.measure = d.measure := by
  simp only [measure, preferredWidth, minimumWidth, h.widthAround_eq hw, h.unitSize_eq, h.boxWidth_eq,
    h.contentHeight_eq]

end SameContent

end Document

end SlotGrid
