import ProgramDiagram.Layout.Box

/-!
# Lists

The nodes of a list stand below each other, a connecting line between each two. A line meets a
terminal at half its height. It starts at the top edge of any other node and ends at the bottom
edge of one; where a terminal at an end of the list is centered on the line, the line stops at its
edge.
-/

namespace ProgramDiagram

/-- Where the connecting line, the first node and the last node stand horizontally. Other nodes
stand at the line. -/
structure Columns (α : Type) where
  line : α
  first : α
  last : α

variable {α : Type} [Scalar α]

/-- Everything at the left edge. -/
def Columns.flush : Columns α := ⟨Scalar.ofNat 0, Scalar.ofNat 0, Scalar.ofNat 0⟩

/-- Half the width of a terminal; other nodes need no room to the left of the line. -/
def overhang (f : Fragment α) : α :=
  if f.isTerminal then Scalar.toTenth (Scalar.half f.width) else Scalar.ofNat 0

/-- The columns that center a terminal at either end on the line. -/
def Columns.centered (first last : Fragment α) : Columns α :=
  let start := overhang first
  if last.isTerminal then
    if Scalar.less start (overhang last) then
      ⟨overhang last, Scalar.toTenth (overhang last - start), Scalar.ofNat 0⟩
    else ⟨start, Scalar.ofNat 0, Scalar.toTenth (start - overhang last)⟩
  else ⟨start, Scalar.ofNat 0, Scalar.ofNat 0⟩

/-- The columns of a list. -/
def columns (s : Sheet α) (fs : List (Fragment α)) : Columns α :=
  match s.options.listLayout, fs.head?, fs.getLast? with
  | .terminalOffset, some first, some last => .centered first last
  | _, _, _ => .flush

def Sheet.centersTerminals (s : Sheet α) : Bool := s.options.listLayout = .terminalOffset

/-- Where the line below a node at height `y` starts. -/
def connectorStart (s : Sheet α) (isFirst : Bool) (y : α) (f : Fragment α) : α :=
  if !f.isTerminal then Scalar.toTenth y
  else if s.centersTerminals && isFirst then Scalar.toTenth (y + f.height)
  else Scalar.toTenth (y + Scalar.half f.height)

/-- Where the line ends whose next node stands at height `y`. -/
def connectorEnd (s : Sheet α) (isLast : Bool) (y : α) (next : Fragment α) : α :=
  if !next.isTerminal then Scalar.toTenth (y + next.height)
  else if s.centersTerminals && isLast then Scalar.toTenth y
  else Scalar.toTenth (y + Scalar.half next.height)

/-- The shapes of the nodes from height `y` on. -/
def stackShapes (s : Sheet α) (cols : Columns α) (isFirst : Bool) (y : α) :
    List (Fragment α) → List (Shape α)
  | [] => []
  | [f] => [.group (if isFirst then cols.first else cols.last) y f.shapes]
  | f :: next :: rest =>
    let below := y + f.height + s.options.nodeListSpacing
    .group (if isFirst then cols.first else cols.line) y f.shapes
      :: .line cols.line (connectorStart s isFirst y f)
          cols.line (connectorEnd s rest.isEmpty below next)
      :: stackShapes s cols false (Scalar.toTenth below) (next :: rest)

/-- The height of all nodes and of the spaces between them. -/
def stackHeight (s : Sheet α) (fs : List (Fragment α)) : α :=
  let nodes := fs.foldl (fun h f => Scalar.toTenth (h + f.height)) (Scalar.ofNat 0)
  fs.tail.foldl (fun h _ => Scalar.toTenth (h + s.options.nodeListSpacing)) nodes

/-- The width of the widest node. -/
def stackWidth (fs : List (Fragment α)) : α :=
  fs.foldl (fun w f => Scalar.toTenth (Scalar.max w f.width)) (Scalar.ofNat 0)

/-- The nodes of a list below each other. -/
def stackFragment (s : Sheet α) (fs : List (Fragment α)) : Fragment α :=
  if fs.isEmpty then ⟨[], Scalar.ofNat 0, Scalar.ofNat 0, .list⟩
  else
    { shapes := stackShapes s (columns s fs) true (Scalar.ofNat 0) fs
      width := Scalar.toTenth (stackWidth fs + (columns s fs).line)
      height := stackHeight s fs
      kind := .list }

end ProgramDiagram
