import ProgramDiagram.Layout.Tree
import ProgramDiagram.Proofs.Number.Rounding

/-!
# Layouts are finite

Numbers that are not finite may come up in a layout, but the room that it takes is rounded last.

* `layout_finite`: the width and the height of a layout are finite.
-/

namespace ProgramDiagram

open Scalar (toTenth)

/-- Whether the room of a fragment is finite. -/
def Fragment.isFinite (f : Fragment Binary64) : Bool := f.width.isFinite && f.height.isFinite

theorem isFinite_zero : (Scalar.ofNat 0 : Binary64).isFinite := Binary64.isFinite_ofNat_zero

theorem isFinite_tenth (x : Binary64) : (toTenth x).isFinite := Binary64.isFinite_toTenth x

/-- A sum that is rounded at each step is finite if it starts so. -/
theorem isFinite_foldl {β : Type} {step : Binary64 → β → Binary64} {xs : List β} {start : Binary64}
    (hstart : start.isFinite) (hstep : ∀ x b, (step x b).isFinite) :
    (xs.foldl step start).isFinite := by
  induction xs generalizing start with
  | nil => exact hstart
  | cons b xs ih => exact ih (hstep start b)

variable (s : Sheet Binary64)

theorem boxFragment_finite (kind : Kind) (text : String) (border : Border) (bars : Bars)
    (child : Option (Fragment Binary64)) :
    (boxFragment s kind text border bars child).isFinite := by
  rw [Fragment.isFinite, boxFragment, isFinite_tenth, isFinite_tenth]
  rfl

theorem stackFragment_finite (fs : List (Fragment Binary64)) : (stackFragment s fs).isFinite := by
  have hheight : (stackHeight s fs).isFinite := by
    apply isFinite_foldl
    · exact isFinite_foldl isFinite_zero fun _ _ => isFinite_tenth _
    · exact fun _ _ => isFinite_tenth _
  rw [Fragment.isFinite, stackFragment]
  split
  · simp only [isFinite_zero, Bool.and_self]
  · simp only [isFinite_tenth, hheight, Bool.and_self]

theorem branchesFragment_finite (kind : Kind) (text : String)
    (entries : List (String × Option (Fragment Binary64))) :
    (branchesFragment s kind text entries).isFinite := by
  have hheight : ∀ minHeight bs, (branchesHeight s minHeight bs).isFinite := by
    intro minHeight bs
    rw [branchesHeight]
    split
    · exact isFinite_tenth _
    · exact isFinite_zero
  rw [Fragment.isFinite, branchesFragment, isFinite_tenth, hheight]
  rfl

/-- The room that a tree takes is finite, whatever numbers its layout depends on. -/
theorem layout_finite (tree : Node) : (tree.layout s).isFinite := by
  cases tree with
  | process | terminal | comment | call | loop => exact boxFragment_finite ..
  | decision | switch => exact branchesFragment_finite ..
  | list => exact stackFragment_finite ..

end ProgramDiagram
