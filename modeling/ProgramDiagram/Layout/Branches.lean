import ProgramDiagram.Layout.Box

/-!
# Branches

A decision is a box with a condition whose right edge has a notch between each two branches. Each
branch hangs at an anchor on that edge: its label stands to the left of the anchor, its body to the
right.

* `anchors`: an anchor keeps clear of the body and of the label of the branch before it.
-/

namespace ProgramDiagram

/-- The place of a branch among the others. -/
inductive Place where
  | first
  | middle
  | last
deriving DecidableEq

/-- A branch with the extent of its label and the fragment of its body. -/
structure Branch (α : Type) where
  place : Place
  label : String
  labelWidth : α
  labelHeight : α
  body : Option (Fragment α)

variable {α : Type} [Scalar α]

/-- The extent of a condition or branch label with its padding. -/
def Sheet.measurePadded (s : Sheet α) (text : String) : α × α :=
  let m := s.measure text
  (m.width + s.options.branchPadding.horizontal, m.height + s.options.branchPadding.vertical)

namespace Branch

/-- The room that the label takes above its anchor and below it. -/
def labelRoom (b : Branch α) : α × α :=
  match b.place with
  | .first => (Scalar.ofNat 0, b.labelHeight)
  | .last => (b.labelHeight, Scalar.ofNat 0)
  | .middle =>
    (Scalar.toTenth (Scalar.half b.labelHeight), Scalar.toTenth (Scalar.half b.labelHeight))

def bodyWidth (b : Branch α) : α :=
  match b.body with
  | some f => f.width
  | none => Scalar.ofNat 0

/-- The room that the body takes below its anchor, with the space to the next one. -/
def bodyRoom (s : Sheet α) (b : Branch α) : α :=
  let height :=
    match b.body with
    | some f => f.height
    | none => Scalar.ofNat 0
  if b.place = .last then height else height + s.options.nodeListSpacing

end Branch

/-- The state between two branches: the height of the last anchor, the room that is needed below
it, and the part of that room that the label needs. -/
structure Descent (α : Type) where
  height : α
  room : α
  labelRoom : α

def Descent.start : Descent α := ⟨Scalar.ofNat 0, Scalar.ofNat 0, Scalar.ofNat 0⟩

def raise (x bound : α) : α := if Scalar.less x bound then bound else x

/-- The state below the anchor of the next branch. -/
def Descent.next (s : Sheet α) (minHeight : α) (d : Descent α) (b : Branch α) : Descent α :=
  let (up, down) := b.labelRoom
  let labels :=
    Scalar.toTenth
      (if Scalar.less up d.labelRoom then d.labelRoom * Scalar.ofNat 2 else up * Scalar.ofNat 2)
  let room := Scalar.max down (b.bodyRoom s)
  { height := Scalar.toTenth (d.height + raise (raise d.room up) labels)
    room := if b.place = .last then room else raise room minHeight
    labelRoom := down }

/-- The states below the anchors of the branches, in order. -/
def descents (s : Sheet α) (minHeight : α) (d : Descent α) : List (Branch α) → List (Descent α)
  | [] => []
  | b :: rest => d.next s minHeight b :: descents s minHeight (d.next s minHeight b) rest

/-- The heights of the anchors. -/
def anchors (s : Sheet α) (minHeight : α) (bs : List (Branch α)) : List α :=
  (descents s minHeight .start bs).map Descent.height

/-- The height down to the end of the last branch. -/
def branchesHeight (s : Sheet α) (minHeight : α) (bs : List (Branch α)) : α :=
  match (descents s minHeight .start bs).getLast? with
  | some d => Scalar.toTenth (d.height + d.room)
  | none => Scalar.ofNat 0

/-- The entries of a condition, at least two. -/
def padded (entries : List (String × Option (Fragment α))) : List (String × Option (Fragment α)) :=
  entries ++ List.replicate (2 - entries.length) ("", none)

/-- The branches of a condition. -/
def branchesOf (s : Sheet α) (entries : List (String × Option (Fragment α))) : List (Branch α) :=
  let all := padded entries
  all.mapIdx fun i (label, body) =>
    let (width, height) := s.measurePadded label
    let place := if i = 0 then .first else if i + 1 = all.length then .last else .middle
    ⟨place, label, width, height, body⟩

/-- The corners of the right edge: at each anchor, and at a notch above all anchors but the
first. -/
def edgePoints (right notch : α) : List α → List (α × α)
  | [] => []
  | [y] => [(right, y)]
  | y :: next :: rest =>
    (right, y) :: (notch, Scalar.toTenth (Scalar.half (y + next)))
      :: edgePoints right notch (next :: rest)

/-- The body of a branch at its anchor, and the line to it. -/
def bodyShapes (right x y : α) : Option (Fragment α) → List (Shape α)
  | none => []
  | some f => [.group x y f.shapes, .line right y x y]

/-- The label of a branch, which ends at the right edge of the label column. -/
def labelShape (s : Sheet α) (columnRight y : α) (b : Branch α) : Shape α :=
  let top :=
    match b.place with
    | .first => y
    | .middle => Scalar.toTenth (y - Scalar.half b.labelHeight)
    | .last => Scalar.toTenth (y - b.labelHeight)
  .label b.label (Scalar.toTenth (columnRight - b.labelWidth) + s.options.branchPadding.left)
    (top + s.options.branchPadding.top)

/-- The right end of the column of labels. -/
def labelsRight (s : Sheet α) (text : String) (bs : List (Branch α)) : α :=
  (s.measurePadded text).1 + bs.foldl (fun w b => Scalar.max w b.labelWidth) (Scalar.ofNat 0)

/-- The right edge of a condition. -/
def conditionRight (s : Sheet α) (text : String) (bs : List (Branch α)) : α :=
  Scalar.toTenth (labelsRight s text bs + s.options.caseNotchWidth)

/-- Where the bodies of branches stand. -/
def bodyColumn (s : Sheet α) (text : String) (bs : List (Branch α)) : α :=
  Scalar.toTenth (conditionRight s text bs + s.options.childOffsetWidth)

/-- The heights of the anchors of a condition. -/
def anchorHeights (s : Sheet α) (text : String) (bs : List (Branch α)) : List α :=
  (anchors s (s.measurePadded text).2 bs).map Scalar.toTenth

/-- The branches of a condition at the heights of their anchors. -/
def anchored (s : Sheet α) (text : String) (bs : List (Branch α)) : List (α × Branch α) :=
  (anchorHeights s text bs).zip bs

/-- The corners of a condition. -/
def conditionOutline (s : Sheet α) (text : String) (bs : List (Branch α)) : List (α × α) :=
  let right := conditionRight s text bs
  let ys := anchorHeights s text bs
  (Scalar.ofNat 0, Scalar.ofNat 0)
    :: edgePoints right (Scalar.toTenth (right - s.options.caseNotchWidth)) ys
    ++ [(Scalar.ofNat 0, Scalar.toTenth (ys.getLastD (Scalar.ofNat 0)))]

/-- The text of a condition, halfway down its right edge. -/
def conditionLabel (s : Sheet α) (text : String) (bs : List (Branch α)) : Shape α :=
  let lastY := (anchorHeights s text bs).getLastD (Scalar.ofNat 0)
  .label text s.options.branchPadding.left
    (Scalar.toTenth (Scalar.half lastY - Scalar.half (s.measurePadded text).2)
      + s.options.branchPadding.top)

/-- The shapes of a condition without what its branches own. -/
def conditionShapes (s : Sheet α) (text : String) (bs : List (Branch α)) : List (Shape α) :=
  .polygon (conditionOutline s text bs)
    :: ((anchored s text bs).map fun (y, b) => labelShape s (labelsRight s text bs) y b)
    ++ [conditionLabel s text bs]

/-- The width of the widest body. -/
def bodiesWidth (bs : List (Branch α)) : α :=
  bs.foldl (fun w b => Scalar.max w b.bodyWidth) (Scalar.ofNat 0)

/-- A condition with its branches. -/
def branchesFragment (s : Sheet α) (kind : Kind) (text : String)
    (entries : List (String × Option (Fragment α))) : Fragment α :=
  let bs := branchesOf s entries
  let right := conditionRight s text bs
  let bodies := (anchored s text bs).flatMap fun (y, b) =>
    bodyShapes right (bodyColumn s text bs) y b.body
  let connector :=
    if bs.any (·.body.isSome) then s.options.childOffsetWidth else Scalar.ofNat 0
  { shapes := bodies ++ conditionShapes s text bs
    width := Scalar.toTenth (right + bodiesWidth bs + connector)
    height := branchesHeight s (s.measurePadded text).2 bs
    kind }

end ProgramDiagram
