import ProgramDiagram.Json.Source
import ProgramDiagram.Layout.Measure
import ProgramDiagram.Options.Layer

/-!
# Options in JSON

A record is an object with its fields, or an array of the first of its fields in order. No field
may be given twice.

* `Layer.read?`: a layer; only known fields may be given, and null stands for a field that is not
  given, except that it clears a background colour.
* `Options.read?`: options, the standard ones standing in for what is missing; other fields do not
  matter.
* `Spacing.read?`, `TextStyle.read?`: records whose lengths are all needed.
-/

namespace ProgramDiagram

namespace Json

def Source.text? : Source → Option String
  | .string parts => (textOf? parts).map String.ofList
  | _ => none

def Source.number? : Source → Option Binary64
  | .number literal => literal.value?
  | _ => none

/-- The fields of an object by name. -/
def named? : List (List StringPart × Source) → Option (List (String × Source))
  | [] => some []
  | (key, value) :: rest => do
    let key ← textOf? key
    let rest ← named? rest
    some ((String.ofList key, value) :: rest)

def occursTwice (key : String) (fields : List (String × Source)) : Bool :=
  1 < (fields.filter (·.1 = key)).length

/-- The values of the known fields of a record, none if the record is refused. -/
def Source.record? (known : List String) (others : Bool) : Source → Option (List (Option Source))
  | .object fields => do
    let fields ← named? fields
    if known.any (occursTwice · fields) then none
    else if !others && fields.any (!known.contains ·.1) then none
    else some (known.map (fields.lookup ·))
  | .array items =>
    if known.length < items.length then none
    else some (items.map some ++ List.replicate (known.length - items.length) none)
  | _ => none

end Json

open Json (Source)

/-- The names of the sides. -/
def Spacing.fieldNames : List String := ["top", "right", "bottom", "left"]

def Spacing.read? (source : Source) : Option (Spacing Binary64) :=
  match source.record? fieldNames true with
  | some [some top, some right, some bottom, some left] => do
    some ⟨← top.number?, ← right.number?, ← bottom.number?, ← left.number?⟩
  | _ => none

/-- A text that may be null. -/
def nullableText? : Source → Option (Option String)
  | .null => some none
  | source => source.text?.map some

def TextStyle.read? (source : Source) : Option (TextStyle Binary64) :=
  match source.record? ["font_family", "font_size", "line_height"] true with
  | some [family, some size, some height] => do
    some ⟨← nullableText? (family.getD .null), ← size.number?, ← height.number?⟩
  | _ => none

/-- The names by which options give a list layout. -/
def ListLayout.ofOption? (name : String) : Option ListLayout :=
  if name = "original" then some flush
  else if ["TerminalOffset", "terminalOffset", "terminal-offset", "terminal_offset"].contains name
  then some terminalOffset
  else none

/-- A list layout by name, or by an object whose one field has that name and is null. -/
def ListLayout.read? : Source → Option ListLayout
  | .object [(key, .null)] => do ofOption? (String.ofList (← Json.textOf? key))
  | source => do ofOption? (← source.text?)

/-- The names of the options, in order. -/
def optionNames : List String :=
  ["fontSize", "fontFamily", "margin", "boxPadding", "branchPadding", "strokeWidth", "strokeColor",
   "backgroundColor", "baseBackgroundColor", "textColor", "lineHeight", "doubleLineWidth",
   "caseNotchWidth", "nodeListSpacing", "childOffsetWidth", "listLayout"]

/-- A field that need not be given. -/
def optional? {β : Type} (nullable : Bool) (read? : Source → Option β) :
    Option Source → Option (Option β)
  | none => some none
  | some .null => if nullable then some none else (read? .null).map some
  | some source => (read? source).map some

/-- The fields of a layer. -/
def Layer.ofFields? (nullable : Bool) : List (Option Source) → Option (Layer Binary64)
  | [fontSize, fontFamily, margin, boxPadding, branchPadding, strokeWidth, strokeColor,
     backgroundColor, baseBackgroundColor, textColor, lineHeight, doubleLineWidth, caseNotchWidth,
     nodeListSpacing, childOffsetWidth, listLayout] => do
    let number := optional? nullable Source.number?
    let text := optional? nullable Source.text?
    let spacing := optional? nullable Spacing.read?
    let color := optional? false nullableText?
    some
      { fontSize := ← number fontSize
        fontFamily := ← text fontFamily
        margin := ← spacing margin
        boxPadding := ← spacing boxPadding
        branchPadding := ← spacing branchPadding
        strokeWidth := ← number strokeWidth
        strokeColor := ← text strokeColor
        backgroundColor := ← color backgroundColor
        baseBackgroundColor := ← color baseBackgroundColor
        textColor := ← text textColor
        lineHeight := ← number lineHeight
        doubleLineWidth := ← number doubleLineWidth
        caseNotchWidth := ← number caseNotchWidth
        nodeListSpacing := ← number nodeListSpacing
        childOffsetWidth := ← number childOffsetWidth
        listLayout := ← optional? nullable ListLayout.read? listLayout }
  | _ => none

def Layer.read? (text : String) : Option (Layer Binary64) := do
  ofFields? true (← (← Source.read? text).record? optionNames false)

def Options.read? (text : String) : Option (Options Binary64) := do
  let given ← Layer.ofFields? false (← (← Source.read? text).record? optionNames true)
  some (Options.standard.merged given)

end ProgramDiagram
