import ProgramDiagram.Options.Settings

/-!
# Option layers

A layer gives some of the options. Layers stack, and for each option the last one that gives it
wins. A background colour can also be given as none.

* `Layer.onto`: one layer on top of another.
* `Options.merged`: options with a layer on top.
-/

namespace ProgramDiagram

/-- Some of the options. -/
structure Layer (α : Type) where
  fontSize : Option α
  fontFamily : Option String
  margin : Option (Spacing α)
  boxPadding : Option (Spacing α)
  branchPadding : Option (Spacing α)
  strokeWidth : Option α
  strokeColor : Option String
  backgroundColor : Option (Option String)
  baseBackgroundColor : Option (Option String)
  textColor : Option String
  lineHeight : Option α
  doubleLineWidth : Option α
  caseNotchWidth : Option α
  nodeListSpacing : Option α
  childOffsetWidth : Option α
  listLayout : Option ListLayout

variable {α : Type}

namespace Layer

/-- The layer that gives nothing. -/
def empty : Layer α :=
  ⟨none, none, none, none, none, none, none, none, none, none, none, none, none, none, none, none⟩

/-- Two layers as one, of which `upper` wins. -/
def onto (upper lower : Layer α) : Layer α where
  fontSize := upper.fontSize.or lower.fontSize
  fontFamily := upper.fontFamily.or lower.fontFamily
  margin := upper.margin.or lower.margin
  boxPadding := upper.boxPadding.or lower.boxPadding
  branchPadding := upper.branchPadding.or lower.branchPadding
  strokeWidth := upper.strokeWidth.or lower.strokeWidth
  strokeColor := upper.strokeColor.or lower.strokeColor
  backgroundColor := upper.backgroundColor.or lower.backgroundColor
  baseBackgroundColor := upper.baseBackgroundColor.or lower.baseBackgroundColor
  textColor := upper.textColor.or lower.textColor
  lineHeight := upper.lineHeight.or lower.lineHeight
  doubleLineWidth := upper.doubleLineWidth.or lower.doubleLineWidth
  caseNotchWidth := upper.caseNotchWidth.or lower.caseNotchWidth
  nodeListSpacing := upper.nodeListSpacing.or lower.nodeListSpacing
  childOffsetWidth := upper.childOffsetWidth.or lower.childOffsetWidth
  listLayout := upper.listLayout.or lower.listLayout

/-- Layers stacked in order, the last one on top. -/
def stack (layers : List (Layer α)) : Layer α :=
  layers.foldl (fun below above => above.onto below) empty

end Layer

/-- Options of which those that the layer gives are replaced. -/
def Options.merged (base : Options α) (layer : Layer α) : Options α where
  fontSize := layer.fontSize.getD base.fontSize
  fontFamily := layer.fontFamily.getD base.fontFamily
  margin := layer.margin.getD base.margin
  boxPadding := layer.boxPadding.getD base.boxPadding
  branchPadding := layer.branchPadding.getD base.branchPadding
  strokeWidth := layer.strokeWidth.getD base.strokeWidth
  strokeColor := layer.strokeColor.getD base.strokeColor
  backgroundColor := layer.backgroundColor.getD base.backgroundColor
  baseBackgroundColor := layer.baseBackgroundColor.getD base.baseBackgroundColor
  textColor := layer.textColor.getD base.textColor
  lineHeight := layer.lineHeight.getD base.lineHeight
  doubleLineWidth := layer.doubleLineWidth.getD base.doubleLineWidth
  caseNotchWidth := layer.caseNotchWidth.getD base.caseNotchWidth
  nodeListSpacing := layer.nodeListSpacing.getD base.nodeListSpacing
  childOffsetWidth := layer.childOffsetWidth.getD base.childOffsetWidth
  listLayout := layer.listLayout.getD base.listLayout

end ProgramDiagram
