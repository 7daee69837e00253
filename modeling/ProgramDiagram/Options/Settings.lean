import ProgramDiagram.Number.Scalar
import ProgramDiagram.Text.Blank
import ProgramDiagram.Text.Quoted

/-!
# Drawing options

* `Spacing`: a length for each side.
* `ListLayout`: the two ways of placing the nodes of a list.
* `Options`: what the layout and the drawing depend on.
-/

namespace ProgramDiagram

/-- A length for each side. -/
structure Spacing (α : Type) where
  top : α
  right : α
  bottom : α
  left : α

namespace Spacing

variable {α : Type}

def uniform (x : α) : Spacing α := ⟨x, x, x, x⟩

def horizontal [Add α] (s : Spacing α) : α := s.left + s.right

def vertical [Add α] (s : Spacing α) : α := s.top + s.bottom

end Spacing

/-- How a list places its nodes: all at the left edge, or with a terminal at either end centered on
the connecting line. -/
inductive ListLayout where
  | flush
  | terminalOffset
deriving DecidableEq

namespace ListLayout

def name : ListLayout → String
  | flush => "original"
  | terminalOffset => "TerminalOffset"

/-- A list layout by name. White space around it, hyphens, underscores and case do not matter. -/
def ofName? (text : String) : Option ListLayout :=
  let kept := (trim text.toList).filter fun c => c != '-' && c != '_'
  let key := String.ofList (kept.map Char.toLower)
  if key = "original" then some flush
  else if key = "terminaloffset" then some terminalOffset
  else none

/-- What is said about a text that names no list layout. -/
def unknownMessage (text : String) : String :=
  "unknown list layout " ++ quoted text ++ " (expected `original` or `TerminalOffset`)"

end ListLayout

/-- What a drawing depends on. A background without a colour is not filled. -/
structure Options (α : Type) where
  fontSize : α
  fontFamily : String
  margin : Spacing α
  boxPadding : Spacing α
  branchPadding : Spacing α
  strokeWidth : α
  strokeColor : String
  backgroundColor : Option String
  baseBackgroundColor : Option String
  textColor : String
  lineHeight : α
  doubleLineWidth : α
  caseNotchWidth : α
  nodeListSpacing : α
  childOffsetWidth : α
  listLayout : ListLayout

/-- The options of a drawing for which none are given. -/
def Options.standard : Options Binary64 where
  fontSize := .ofNat 14
  fontFamily := "sans-serif"
  margin := .uniform (.ofNat 20)
  boxPadding := .uniform (.ofNat 10)
  branchPadding := .uniform (.ofNat 5)
  strokeWidth := .ofNat 1
  strokeColor := "#000000"
  backgroundColor := some "#ffffff"
  baseBackgroundColor := none
  textColor := "#000000"
  lineHeight := .ofDecimal false ⟨12, -1⟩
  doubleLineWidth := .ofNat 5
  caseNotchWidth := .ofNat 20
  nodeListSpacing := .ofNat 10
  childOffsetWidth := .ofNat 20
  listLayout := .flush

end ProgramDiagram
