import Mathlib.Data.List.Flatten
import Mathlib.Data.List.Perm.Subperm
import ProgramDiagram.Proofs.Diagram.Subtrees
import ProgramDiagram.Proofs.Outline.Placement

/-!
# Switches in a tree and in statements

* `Node.switches`: the switches in a tree, each with its cases and the nodes of their bodies.
* `switchesIn`: the switches that statements say, each with the cases that follow it at its depth,
  and with the nodes that stand directly under each case.
* `Accounted`: the switches found in trees are among those that statements say.
-/

namespace ProgramDiagram

open Outline

/-! ## In a tree -/

/-- A node without what it owns. -/
def Node.bare : Node → Node
  | .process t _ => .process t none
  | .terminal t => .terminal t
  | .comment t => .comment t
  | .call t _ => .call t none
  | .loop t testFirst _ => .loop t testFirst none
  | .decision t _ _ => .decision t none none
  | .switch t _ => .switch t []
  | .list _ => .list []

/-- A body without what its nodes own. -/
def Node.shallow : Node → Node
  | .list children => .list (children.map bare)
  | node => node.bare

/-- Cases without what the nodes of their bodies own. -/
def Cases.shallow (cases : Cases) : Cases := List.map (fun c => (c.1, c.2.map Node.shallow)) cases

/-- The text of a switch, and its cases. -/
abbrev Switch := String × Cases

def Node.ownSwitch : Node → List Switch
  | .switch t cases => [(t, Cases.shallow cases)]
  | _ => []

/-- The switches in a tree, one before those in its cases. -/
def Node.switches (node : Node) : List Switch := node.subtrees.flatMap Node.ownSwitch

theorem Node.switches_eq (node : Node) :
    node.switches = node.ownSwitch ++ node.owned.flatMap Node.switches := by
  rw [switches, subtrees_eq, List.flatMap_cons, List.flatMap_assoc]
  rfl

theorem Node.kind_bare (node : Node) : node.bare.kind = node.kind := by
  cases node <;> rfl

theorem shallow_ofBlock {nodes : List Node} (h : ∀ node ∈ nodes, node.kind ≠ .list) :
    (Node.ofBlock nodes).map Node.shallow = Node.ofBlock (nodes.map Node.bare) := by
  match nodes with
  | [] => rfl
  | [node] =>
    cases node with
    | list children => exact absurd rfl (h _ List.mem_cons_self)
    | _ => rfl
  | _ :: _ :: _ => rfl

theorem switches_ofBlock (nodes : List Node) :
    (Node.ofBlock nodes).toList.flatMap Node.switches = nodes.flatMap Node.switches := by
  match nodes with
  | [] => rfl
  | [_] => rfl
  | first :: second :: rest =>
    have hlist : (Node.list (first :: second :: rest)).switches =
        (first :: second :: rest).flatMap Node.switches := Node.switches_eq _
    exact (List.flatMap_singleton ..).trans hlist

theorem labels_shallow (cases : Cases) : cases.shallow.labels = cases.labels := by
  simp [Cases.shallow, Cases.labels]

namespace Outline

/-! ## In statements -/

/-- The node that a statement makes. -/
def Statement.made? : Statement → Option Node
  | .process t => some (.process t none)
  | .command .call (some t) => some (.call t none)
  | .command .terminal (some t) => some (.terminal t)
  | .command .comment (some t) => some (.comment t)
  | .command .whileLoop (some t) => some (.loop t true none)
  | .command .doWhileLoop (some t) => some (.loop t false none)
  | .command .decision (some t) => some (.decision t none none)
  | .command .switch (some t) => some (.switch t [])
  | _ => none

/-- The text of a switch. -/
def Statement.switch? : Statement → Option String
  | .command .switch argument => argument
  | _ => none

/-- The label of a case. -/
def Statement.label? : Statement → Option String
  | .command .case argument => argument
  | _ => none

/-- The nodes that statements make at a depth, up to the first statement that is less deep. -/
def blockAt (depth : Nat) : List (Nat × Statement) → List Node
  | [] => []
  | (d, st) :: rest =>
    if d < depth then []
    else if d = depth then st.made?.toList ++ blockAt depth rest
    else blockAt depth rest

/-- The cases at a depth, up to the first statement that is less deep or at this depth no case. Each
has the nodes made one deeper before the next statement of that depth or less. -/
def casesAt (depth : Nat) : List (Nat × Statement) → Cases
  | [] => []
  | (d, st) :: rest =>
    if d < depth then []
    else if d = depth then
      match st.label? with
      | some label => (label, Node.ofBlock (blockAt (depth + 1) rest)) :: casesAt depth rest
      | none => []
    else casesAt depth rest

/-- The switches that statements say, each with the cases that follow it. -/
def switchesIn : List (Nat × Statement) → List Switch
  | [] => []
  | (d, st) :: rest =>
    match st.switch? with
    | some t => (t, casesAt d rest) :: switchesIn rest
    | none => switchesIn rest

theorem Makes.made? {st : Statement} {node : Node} (h : Makes st node) :
    st.made? = some node.bare ∧ node.owned = [] := by
  cases h <;> exact ⟨rfl, rfl⟩

theorem Statement.made?_ne_list {st : Statement} {node : Node} (h : st.made? = some node) :
    node.kind ≠ .list := by
  unfold Statement.made? at h
  split at h <;> cases h <;> simp [Node.kind]

theorem Statement.label?_of_made? {st : Statement} (h : st.made?.isSome) : st.label? = none := by
  unfold Statement.label?
  split
  · cases h
  · rfl

theorem Statement.made?_of_switch? {st : Statement} {t : String} (h : st.switch? = some t) :
    st.made? = some (.switch t []) := by
  unfold Statement.switch? at h
  split at h
  · rw [h]
    rfl
  · cases h

theorem Statement.switch?_of_made? {st : Statement} {node : Node} (h : st.made? = some node)
    (hkind : node.kind ≠ .switch) : st.switch? = none := by
  cases hswitch : st.switch? with
  | none => rfl
  | some t =>
    rw [Statement.made?_of_switch? hswitch] at h
    cases h
    exact absurd rfl hkind

theorem Statement.switch?_of_made?_switch {st : Statement} {t : String} {cases : Cases}
    (h : st.made? = some (.switch t cases)) : st.switch? = some t := by
  unfold Statement.made? at h
  split at h <;> cases h
  rfl

/-! ## Statements that follow others -/

section
variable {d : Nat} {xs ys : List (Nat × Statement)}

theorem blockAt_append_of_le (h : ∀ y ∈ ys.head?, y.1 < d) :
    blockAt d (xs ++ ys) = blockAt d xs := by
  induction xs with
  | nil =>
    cases ys with
    | nil => rfl
    | cons y ys => exact if_pos (h y rfl)
  | cons x xs ih => simp only [List.cons_append, blockAt, ih]

theorem blockAt_append (h : ∀ x ∈ xs, d ≤ x.1) :
    blockAt d (xs ++ ys) = blockAt d xs ++ blockAt d ys := by
  induction xs with
  | nil => rfl
  | cons x xs ih =>
    obtain ⟨hx, hxs⟩ := List.forall_mem_cons.1 h
    simp only [List.cons_append, blockAt, ih hxs, if_neg (Nat.not_lt.2 hx)]
    split
    · exact (List.append_assoc ..).symm
    · rfl

/-- What stands deeper, or makes no node, adds nothing to a block. -/
theorem blockAt_eq_nil (h : ∀ x ∈ xs, d < x.1 ∨ x.1 = d ∧ x.2.made? = none) :
    blockAt d xs = [] := by
  induction xs with
  | nil => rfl
  | cons x xs ih =>
    obtain ⟨hx, hxs⟩ := List.forall_mem_cons.1 h
    rw [blockAt, if_neg (by omega), ih hxs]
    rcases hx with hx | ⟨hx, hmade⟩
    · rw [if_neg (by omega)]
    · rw [if_pos hx, hmade]
      rfl

/-- The cases of a switch end where a node is made at its depth, or a statement is less deep. -/
theorem casesAt_append_of_ended (h : ∀ y ∈ ys.head?, y.1 < d ∨ y.1 = d ∧ y.2.made?.isSome) :
    casesAt d (xs ++ ys) = casesAt d xs := by
  have hblock (xs : List (Nat × Statement)) : blockAt (d + 1) (xs ++ ys) = blockAt (d + 1) xs :=
    blockAt_append_of_le fun y hy => by have := h y hy; omega
  induction xs with
  | nil =>
    cases ys with
    | nil => rfl
    | cons y ys =>
      obtain ⟨e, st⟩ := y
      rcases h _ rfl with hy | ⟨hy, hmade⟩
      · exact if_pos hy
      · have hlabel : st.label? = none := Statement.label?_of_made? hmade
        obtain rfl : e = d := hy
        simp [casesAt, hlabel]
  | cons x xs ih => simp only [List.cons_append, casesAt, hblock, ih]

/-- A statement that is at most as deep comes after what a case has. -/
theorem casesAt_append (hxs : ∀ x ∈ xs, d < x.1 ∨ x.1 = d ∧ x.2.label?.isSome)
    (hys : ∀ y ∈ ys.head?, y.1 ≤ d) :
    casesAt d (xs ++ ys) = casesAt d xs ++ casesAt d ys := by
  have hblock (xs : List (Nat × Statement)) : blockAt (d + 1) (xs ++ ys) = blockAt (d + 1) xs :=
    blockAt_append_of_le fun y hy => Nat.lt_succ_of_le (hys y hy)
  induction xs with
  | nil => rfl
  | cons x xs ih =>
    obtain ⟨hx, hxs⟩ := List.forall_mem_cons.1 hxs
    simp only [List.cons_append, casesAt, hblock, ih hxs, if_neg (show ¬ x.1 < d by omega)]
    rcases hx with hx | ⟨hx, hlabel⟩
    · rw [if_neg (by omega), if_neg (by omega)]
    · obtain ⟨label, hlabel⟩ := Option.isSome_iff_exists.1 hlabel
      rw [if_pos hx, if_pos hx, hlabel]
      rfl

theorem casesAt_of_deeper (h : ∀ x ∈ xs, d < x.1) : casesAt d xs = [] := by
  induction xs with
  | nil => rfl
  | cons x xs ih =>
    obtain ⟨hx, hxs⟩ := List.forall_mem_cons.1 h
    rw [casesAt, if_neg (by omega), if_neg (by omega), ih hxs]

/-- Each node that the first statements make gets no cases of the statements after them. -/
def EndedBy (xs ys : List (Nat × Statement)) : Prop :=
  ∀ x ∈ xs, x.2.made?.isSome → ∀ y ∈ ys.head?, y.1 < x.1 ∨ y.1 = x.1 ∧ y.2.made?.isSome

theorem endedBy_of_head (hxs : ∀ x ∈ xs, x.2.made?.isSome → d ≤ x.1)
    (hys : ∀ y ∈ ys.head?, y.1 = d ∧ y.2.made?.isSome) : EndedBy xs ys := by
  intro x hx hmade y hy
  obtain ⟨rfl, hy⟩ := hys y hy
  rcases Nat.lt_or_eq_of_le (hxs x hx hmade) with hlt | heq
  · exact .inl hlt
  · exact .inr ⟨heq, hy⟩

theorem switchesIn_append (h : EndedBy xs ys) :
    switchesIn (xs ++ ys) = switchesIn xs ++ switchesIn ys := by
  induction xs with
  | nil => rfl
  | cons x xs ih =>
    obtain ⟨hx, hxs⟩ := List.forall_mem_cons.1 h
    simp only [List.cons_append, switchesIn, ih hxs]
    cases hswitch : x.2.switch? with
    | none => rfl
    | some t =>
      have hmade := Statement.made?_of_switch? hswitch
      rw [casesAt_append_of_ended (hx (by rw [hmade]; rfl))]
      rfl

end

/-! ## Switches of both -/

/-- Switches are among those that statements say, and the labels of each are distinct. -/
structure Accounted (ss : List Switch) (items : List (Nat × Statement)) : Prop where
  said : ss.Subperm (switchesIn items)
  once : ∀ s ∈ ss, (Cases.labels s.2).Nodup

section
variable {ss ts : List Switch} {xs ys : List (Nat × Statement)}

theorem accounted_nil (items : List (Nat × Statement)) : Accounted [] items :=
  ⟨List.nil_subperm, by simp⟩

theorem Accounted.mono (h : Accounted ss xs) (hsub : ts.Subperm ss) : Accounted ts xs :=
  ⟨hsub.trans h.said, fun s hs => h.once s (hsub.subset hs)⟩

theorem Accounted.append (hss : Accounted ss xs) (hts : Accounted ts ys) (h : EndedBy xs ys) :
    Accounted (ss ++ ts) (xs ++ ys) where
  said := switchesIn_append h ▸ hss.said.append hts.said
  once s hs := (List.mem_append.1 hs).elim (hss.once s) (hts.once s)

theorem subperm_flatMap {xs ys : List Node} (h : xs.Subperm ys) :
    (xs.flatMap Node.switches).Subperm (ys.flatMap Node.switches) := by
  obtain ⟨zs, hperm, hsub⟩ := h
  exact ⟨_, hperm.flatMap_right _, hsub.flatMap _⟩

end

end Outline

end ProgramDiagram
