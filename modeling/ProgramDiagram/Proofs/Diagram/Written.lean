import ProgramDiagram.Diagram.Written
import ProgramDiagram.Proofs.Json.Condensed

/-!
# Written trees lose nothing

* `Node.toJson_inj`: no two trees have the same JSON form. The kind in it decides what the other
  fields mean.
* `written_lossless`: nor do two trees have the same text.
-/

namespace ProgramDiagram

open Json

theorem Kind.name_injective : Function.Injective Kind.name := by
  intro k l h
  cases k <;> cases l <;> first | rfl | exact absurd h (by decide)

@[simp] theorem labelled_inj {kind : Kind} {text text' : String}
    {fields fields' : List (String × Value)} :
    labelled kind text fields = labelled kind text' fields' ↔ text = text' ∧ fields = fields' := by
  simp [labelled]

namespace Node

theorem exists_toJson_eq (node : Node) :
    ∃ fields, node.toJson = .object (("type", .string node.kind.name) :: fields) := by
  cases node <;> exact ⟨_, rfl⟩

theorem kind_eq_of_toJson {a b : Node} (h : a.toJson = b.toJson) : a.kind = b.kind := by
  obtain ⟨fields, ha⟩ := exists_toJson_eq a
  obtain ⟨fields', hb⟩ := exists_toJson_eq b
  rw [ha, hb] at h
  simp only [Value.object.injEq, List.cons.injEq, Prod.mk.injEq, Value.string.injEq, true_and] at h
  exact Kind.name_injective h.1

end Node

mutual

theorem Node.toJson_inj : (a b : Node) → a.toJson = b.toJson → a = b
  | .process t child, b => by
    intro h
    cases b with
    | process t' child' =>
      simp only [Node.toJson, labelled_inj, List.cons.injEq, Prod.mk.injEq, true_and,
        and_true] at h
      rw [h.1, bodyJson_inj child child' h.2]
    | _ => cases Node.kind_eq_of_toJson h
  | .terminal t, b => by
    intro h
    cases b with
    | terminal t' => simp_all [Node.toJson]
    | _ => cases Node.kind_eq_of_toJson h
  | .comment t, b => by
    intro h
    cases b with
    | comment t' => simp_all [Node.toJson]
    | _ => cases Node.kind_eq_of_toJson h
  | .call t child, b => by
    intro h
    cases b with
    | call t' child' =>
      simp only [Node.toJson, labelled_inj, List.cons.injEq, Prod.mk.injEq, true_and,
        and_true] at h
      rw [h.1, bodyJson_inj child child' h.2]
    | _ => cases Node.kind_eq_of_toJson h
  | .loop t testFirst child, b => by
    intro h
    cases b with
    | loop t' testFirst' child' =>
      simp only [Node.toJson, labelled_inj, List.cons.injEq, Prod.mk.injEq, Value.bool.injEq,
        true_and, and_true] at h
      rw [h.1, h.2.1, bodyJson_inj child child' h.2.2]
    | _ => cases Node.kind_eq_of_toJson h
  | .decision t onTrue onFalse, b => by
    intro h
    cases b with
    | decision t' onTrue' onFalse' =>
      simp only [Node.toJson, labelled_inj, List.cons.injEq, Prod.mk.injEq, true_and,
        and_true] at h
      rw [h.1, bodyJson_inj onTrue onTrue' h.2.1, bodyJson_inj onFalse onFalse' h.2.2]
    | _ => cases Node.kind_eq_of_toJson h
  | .switch t cases, b => by
    intro h
    cases b with
    | switch t' cases' =>
      simp only [Node.toJson, labelled_inj, List.cons.injEq, Prod.mk.injEq, Value.object.injEq,
        true_and, and_true] at h
      rw [h.1, casesJson_inj cases cases' h.2]
    | _ => cases Node.kind_eq_of_toJson h
  | .list children, b => by
    intro h
    cases b with
    | list children' =>
      simp only [Node.toJson, Value.object.injEq, List.cons.injEq, Prod.mk.injEq, Value.array.injEq,
        true_and, and_true] at h
      rw [listJson_inj children children' h]
    | _ => cases Node.kind_eq_of_toJson h

theorem bodyJson_inj : (t u : Option Node) → bodyJson t = bodyJson u → t = u
  | none, none => fun _ => rfl
  | none, some b => by
    intro h
    cases b <;> cases h
  | some a, none => by
    intro h
    cases a <;> cases h
  | some a, some b => by
    intro h
    rw [a.toJson_inj b h]

theorem casesJson_inj : (cs ds : List (String × Option Node)) → casesJson cs = casesJson ds →
    cs = ds
  | [], [] => fun _ => rfl
  | [], _ :: _ => fun h => nomatch h
  | _ :: _, [] => fun h => nomatch h
  | (label, body) :: cs, (label', body') :: ds => by
    intro h
    simp only [casesJson, List.cons.injEq, Prod.mk.injEq] at h
    obtain ⟨⟨hlabel, hbody⟩, hrest⟩ := h
    rw [hlabel, bodyJson_inj body body' hbody, casesJson_inj cs ds hrest]

theorem listJson_inj : (as bs : List Node) → listJson as = listJson bs → as = bs
  | [], [] => fun _ => rfl
  | [], _ :: _ => fun h => nomatch h
  | _ :: _, [] => fun h => nomatch h
  | a :: as, b :: bs => by
    intro h
    simp only [listJson, List.cons.injEq] at h
    rw [a.toJson_inj b h.1, listJson_inj as bs h.2]

end

/-- A tree is determined by its compact text and by its indented one, and the two texts differ in
the blanks outside the strings alone. -/
theorem written_lossless (t u : Option Node) :
    ((bodyJson t).compact = (bodyJson u).compact ↔ t = u) ∧
    ((bodyJson t).indented 0 = (bodyJson u).indented 0 ↔ t = u) ∧
    condense ((bodyJson t).indented 0).toList = (bodyJson t).compact.toList := by
  refine ⟨⟨?_, ?_⟩, ⟨?_, ?_⟩, condense_indented 0 (bodyJson t)⟩
  · intro h
    exact bodyJson_inj t u (compact_injective h)
  · rintro rfl
    rfl
  · intro h
    exact bodyJson_inj t u (indented_injective 0 h)
  · rintro rfl
    rfl

end ProgramDiagram
