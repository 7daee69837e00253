import ProgramDiagram.Outline.Line
import ProgramDiagram.Outline.Stack

/-!
# Reading an outline

An outline is read line by line. A refused statement is offered to a recovery, which may have the
reading go on without it.

* `step`: the effect of one line.
* `readIn`: the offers made on a source and what the reading comes to, whatever open blocks are.
* `read`: the same with the stack of contexts.
* `parse`: the tree of a source, or its first error.
-/

namespace ProgramDiagram.Outline

/-- What is done about a refused statement. -/
inductive Decision where
  | skip
  | stop
  | interrupt (reason : Option String)

/-- A refused statement: its first line, the number of the last line read for it, counted from
zero, and the error. -/
structure Offer where
  line : String
  number : Nat
  error : Error

/-- Decides on an offer, knowing the offers before it, newest first. -/
abbrev Recovery := List Offer → Offer → Decision

/-- A statement as far as it is read: its first line, and the rows that its lines give, newest
first. -/
structure Gathered where
  line : List Char
  rows : List (List Char)

/-- The state between two lines. A statement whose last line ends in the marker is unfinished. -/
structure Progress (σ : Type) where
  blocks : σ
  unfinished : Option Gathered
  offers : List Offer

/-- A reading that has come to its end early. -/
structure Halt where
  offers : List Offer
  error : Error

/-- The offers made, oldest first, and what the reading comes to. -/
structure Report where
  offers : List Offer
  result : Except Error (Option Node)

variable {σ : Type} [Nesting σ]

def Progress.start : Progress σ := ⟨Nesting.start, none, []⟩

/-- Goes on with the blocks of an attempt, or offers its error. A panic is not offered. -/
def settle (recovery : Recovery) (offers : List Offer) (number : Nat) (line : List Char) :
    Attempt σ → Except Halt (Progress σ)
  | .ok blocks => .ok ⟨blocks, none, offers⟩
  | .error (.panicked message) => .error ⟨offers, .interrupted (some message)⟩
  | .error (.refused failure) =>
    let offer : Offer := ⟨String.ofList line, number, failure.error⟩
    match recovery offers offer with
    | .skip => .ok ⟨failure.blocks, none, offer :: offers⟩
    | .stop => .error ⟨offer :: offers, failure.error⟩
    | .interrupt reason => .error ⟨offer :: offers, .interrupted reason⟩

/-- Accepts the statement that rows spell. -/
def finish (recovery : Recovery) (p : Progress σ) (number : Nat) (g : Gathered) :
    Except Halt (Progress σ) :=
  settle recovery p.offers number g.line (Nesting.accept p.blocks (.ofBody (bodyOf g.rows)))

/-- Adds a row to a statement, which ends with it unless the row ends in the marker. -/
def gather (recovery : Recovery) (p : Progress σ) (number : Nat) (g : Gathered)
    (row : List Char) : Except Halt (Progress σ) :=
  match continued? row with
  | some before => .ok { p with unfinished := some ⟨g.line, before :: g.rows⟩ }
  | none => finish recovery p number ⟨g.line, row :: g.rows⟩

/-- The effect of one line. A comment line changes nothing; any other continues an unfinished
statement or starts one. -/
def step (recovery : Recovery) (p : Progress σ) (numbered : List Char × Nat) :
    Except Halt (Progress σ) :=
  let (line, number) := numbered
  if isCommentLine line then .ok p
  else
    match p.unfinished with
    | some g => gather recovery p number g (unindented line)
    | none =>
      match Nesting.moveTo p.blocks (indentation line) with
      | .ok blocks => gather recovery { p with blocks } number ⟨line, []⟩ (unindented line)
      | .error setback => settle recovery p.offers number line (.error setback)

/-- The end of the source finishes an unfinished statement. -/
def finishLast (recovery : Recovery) (p : Progress σ) (count : Nat) :
    Except Halt (Progress σ) :=
  match p.unfinished with
  | some g => finish recovery p (count - 1) g
  | none => .ok p

/-- All lines, then the end. -/
def run (recovery : Recovery) (ls : List (List Char)) : Except Halt (Progress σ) := do
  let p ← ls.zipIdx.foldlM (step recovery) .start
  finishLast recovery p ls.length

/-- Reads a source with its open blocks kept in `σ`. Errors of the blocks that the end closes are
not offered. -/
def readIn (σ : Type) [Nesting σ] (recovery : Recovery) (source : String) : Report :=
  match (run recovery (lines source) : Except Halt (Progress σ)) with
  | .ok p => ⟨p.offers.reverse, Nesting.closeAll p.blocks⟩
  | .error halt => ⟨halt.offers.reverse, .error halt.error⟩

/-- Reads a source. -/
def read (recovery : Recovery) (source : String) : Report := readIn Stack recovery source

/-- The tree of a source, or its first error. -/
def parse (source : String) : Except Error (Option Node) := (read (fun _ _ => .stop) source).result

end ProgramDiagram.Outline
