import ProgramDiagram.Proofs.Outline.Writing

/-!
# Reading a written tree

* `Blocks.Awaits`, `Blocks.Gives`: the block that a statement at a depth finds, and the block to
  which those above it close.
* `Grows`, `Fills`: the statements of a node add it to a block, those of a body fill an owner.
* `parse_written`: a canonical tree is read from the text that writes it.
-/

namespace ProgramDiagram

open Outline

/-- The nodes that a body adds to its block. -/
def Node.members : Node → List Node
  | .list children => children
  | node => [node]

theorem Node.members_of_ne_list {node : Node} (h : node.kind ≠ .list) : node.members = [node] := by
  cases node with
  | list children => exact absurd rfl h
  | _ => rfl

theorem Node.Canonical.ofBlock_members {node : Node} (h : node.Canonical) :
    Node.ofBlock node.members = some node := by
  cases node with
  | list children =>
    match children, h with
    | _ :: _ :: _, _ => rfl
    | [_], h => exact absurd h.1 (by simp)
    | [], h => exact absurd h.1 (by simp)
  | _ => rfl

namespace Outline

variable {bs : Blocks} {b pb pb' : Block} {outer : List Block}

/-- The next statement at the depth of `b` finds `b`. -/
def Blocks.Awaits (bs : Blocks) (b : Block) (outer : List Block) : Prop :=
  ∃ c, bs.moveTo outer.length = .ok ⟨c, outer⟩ ∧ c.commit = b

/-- The blocks close to `b`, whose statements have come to an end or not. -/
def Blocks.Gives (bs : Blocks) (b : Block) (outer : List Block) : Prop :=
  bs.current.nodes ≠ [] ∧ outer.length ≤ bs.depth ∧
    ∃ c, closeTo outer.length bs.current bs.outer = .ok ⟨c, outer⟩ ∧ c.commit = b

theorem Blocks.Gives.awaits (h : bs.Gives b outer) : bs.Awaits b outer := by
  obtain ⟨hnodes, hdepth, c, hclose, hcommit⟩ := h
  exact ⟨c, by rw [moveTo_of_le hdepth (.inl hnodes), hclose], hcommit⟩

theorem Blocks.awaits_start : start.Awaits .empty [] := ⟨.empty, rfl, rfl⟩

theorem Blocks.awaits_nested (hnodes : pb.nodes ≠ []) (hnest : pb.canNest) :
    Awaits ⟨pb, outer⟩ .empty (pb :: outer) := by
  have hmove : Blocks.moveTo ⟨pb, outer⟩ (outer.length + 1) = .ok ⟨.empty, pb :: outer⟩ :=
    moveTo_succ hnodes hnest
  exact ⟨.empty, hmove, rfl⟩

theorem Blocks.gives_commit (hnodes : pb.nodes ≠ []) : Gives ⟨pb, outer⟩ pb.commit outer :=
  ⟨hnodes, Nat.le_refl _, pb, closeTo_of_le (Nat.le_refl _) pb, rfl⟩

theorem Blocks.Awaits.place {st : Statement} {b' : Block} (h : bs.Awaits b outer)
    (hst : Accepted b st b') : bs.place (outer.length, st) = .ok ⟨b', outer⟩ := by
  obtain ⟨c, hmove, rfl⟩ := h
  exact place_of_moveTo hmove hst

/-- A nested block closes into its owner. -/
theorem Blocks.Gives.close {body : Node} (h : bs.Gives b (pb :: outer))
    (hbody : Node.ofBlock b.nodes.reverse = some body) (hattach : pb.attach body = .ok pb') :
    bs.Gives pb' outer := by
  obtain ⟨hnodes, hdepth, c, hclose, hcommit⟩ := h
  rw [List.length_cons] at hdepth hclose
  have hstage := closeTo_closeTo (Nat.le_succ outer.length) hclose
  have hinto : Block.closeInto c pb = .ok pb' := by
    simp only [Block.closeInto, hcommit, hbody, hattach]
  have hpb' : pb'.commit = pb' := Block.commit_of_ne_case (by simp [(attach_ok hattach).1])
  refine ⟨hnodes, by omega, pb', ?_, hpb'⟩
  rw [← hstage, closeTo_cons (Nat.le_refl _), hinto]
  exact closeTo_of_le (Nat.le_refl _) pb'

/-- `pb'` is `pb` with the body of its last node, or without one. -/
def Block.Gets (pb : Block) (pb' : Block) : Option Node → Prop
  | none => pb.commit = pb'
  | some body => pb.attach body = .ok pb'

/-- The statements of a body fill the owner that it follows. -/
def Fills (body : Option Node) : Prop :=
  ∀ (pb pb' : Block) (outer : List Block), pb.nodes ≠ [] → pb.Gets pb' body →
    ∃ bs', Blocks.placeAll ⟨pb, outer⟩ (bodyListing (outer.length + 1) body) = .ok bs' ∧
      bs'.Gives pb' outer

def Block.addAll (b : Block) (nodes : List Node) : Block := ⟨nodes.reverse ++ b.nodes, .body⟩

/-- The statements of a node add it to a block. -/
def Grows (node : Node) : Prop :=
  ∀ (bs : Blocks) (b : Block) (outer : List Block), bs.Awaits b outer →
    ∃ bs', bs.placeAll (node.listing outer.length) = .ok bs' ∧
      bs'.Gives (b.addAll node.members) outer

theorem fills_none : Fills none := by
  intro pb pb' outer hnodes hgets
  cases hgets
  exact ⟨_, by simp only [bodyListing]; rfl, Blocks.gives_commit hnodes⟩

theorem Grows.fills {body : Node} (h : Grows body) (hbody : body.Canonical) :
    Fills (some body) := by
  intro pb pb' outer hnodes hgets
  obtain ⟨_, _, hholds⟩ := attach_ok hgets
  obtain ⟨bs', hplace, hgives⟩ := h _ _ _ (Blocks.awaits_nested hnodes hholds.canNest)
  have hmembers : Node.ofBlock (Block.empty.addAll body.members).nodes.reverse = some body := by
    rw [Block.addAll, Block.empty, List.append_nil, List.reverse_reverse]
    exact hbody.ofBlock_members
  exact ⟨bs', hplace, hgives.close hmembers hgets⟩

/-- A node is written before its body. -/
theorem grows_of_fills {node bare : Node} {st : Statement} {body : Option Node}
    (hmakes : Makes st bare) (hbody : Fills body) (hmembers : node.members = [node])
    (hgets : ∀ b : Block, (b.add bare).Gets (b.add node) body)
    (hlisting : ∀ depth, node.listing depth = (depth, st) :: bodyListing (depth + 1) body) :
    Grows node := by
  intro bs b outer h
  obtain ⟨bs', hplace, hgives⟩ :=
    hbody (b.add bare) (b.add node) outer (by simp [Block.add]) (hgets b)
  refine ⟨bs', ?_, ?_⟩
  · rw [hlisting, Blocks.placeAll_cons_of_ok (h.place (.made hmakes))]
    exact hplace
  · rw [hmembers]
    exact hgives

theorem grows_decision {t : String} {onTrue onFalse : Option Node} (ht : t ≠ "")
    (htrue : Fills onTrue) (hfalse : Fills onFalse) : Grows (.decision t onTrue onFalse) := by
  intro bs b outer h
  have hif := h.place (.made (.decision ht))
  obtain ⟨bs₁, hplace₁, hgives₁⟩ := htrue (b.add (.decision t none none))
    (b.add (.decision t onTrue none)) outer (by simp [Block.add]) (by cases onTrue <;> rfl)
  simp only [Node.listing]
  rw [Blocks.placeAll_cons_of_ok hif, Blocks.placeAll_append_of_ok hplace₁]
  cases onFalse with
  | none => exact ⟨bs₁, by simp only [elseListing]; rfl, hgives₁⟩
  | some body =>
    have helse := hgives₁.awaits.place (.elseBranch rfl (by simp [Block.add]))
    obtain ⟨bs₂, hplace₂, hgives₂⟩ := hfalse ⟨(b.add (.decision t onTrue none)).nodes, .elseBranch⟩
      (b.add (.decision t onTrue (some body))) outer (by simp [Block.add]) rfl
    refine ⟨bs₂, ?_, hgives₂⟩
    simp only [elseListing]
    rw [Blocks.placeAll_cons_of_ok helse]
    exact hplace₂

/-- Cases come after the cases that a switch has already. -/
theorem placeAll_casesListing {t : String} {cases done : Cases} {rest : List Node}
    (hcases : ∀ c ∈ cases, c.1 ≠ "" ∧ Fills c.2)
    (hnodup : (Cases.labels (done ++ cases)).Nodup)
    (h : bs.Gives ⟨.switch t done :: rest, .body⟩ outer) :
    ∃ bs', bs.placeAll (casesListing outer.length cases) = .ok bs' ∧
      bs'.Gives ⟨.switch t (done ++ cases) :: rest, .body⟩ outer := by
  induction cases generalizing bs done with
  | nil => exact ⟨bs, by simp only [casesListing]; rfl, by rw [List.append_nil]; exact h⟩
  | cons c cases ih =>
    obtain ⟨label, body⟩ := c
    obtain ⟨hlabel, hbody⟩ := hcases _ List.mem_cons_self
    have fresh : label ∉ Cases.labels done := by
      intro hmem
      rw [Cases.labels, List.map_append, List.map_cons, List.nodup_append] at hnodup
      exact hnodup.2.2 label hmem label List.mem_cons_self rfl
    have hcase := h.awaits.place (.case hlabel rfl fresh)
    have hgets : (⟨.switch t done :: rest, .case label⟩ : Block).Gets
        ⟨.switch t (done ++ [(label, body)]) :: rest, .body⟩ body := by
      rw [← insertCase_of_fresh fresh]
      cases body <;> rfl
    obtain ⟨bs₁, hplace₁, hgives₁⟩ := hbody _ _ outer (by simp) hgets
    obtain ⟨bs₂, hplace₂, hgives₂⟩ := ih (fun c hc => hcases c (List.mem_cons_of_mem _ hc))
      (by simpa using hnodup) hgives₁
    refine ⟨bs₂, ?_, by simpa using hgives₂⟩
    simp only [casesListing]
    rw [Blocks.placeAll_cons_of_ok hcase, Blocks.placeAll_append_of_ok hplace₁]
    exact hplace₂

theorem grows_switch {t : String} {cases : Cases} (ht : t ≠ "")
    (hcases : ∀ c ∈ cases, c.1 ≠ "" ∧ Fills c.2) (hnodup : (Cases.labels cases).Nodup) :
    Grows (.switch t cases) := by
  intro bs b outer h
  have hswitch := h.place (.made (.switch ht))
  have hgives : Blocks.Gives ⟨b.add (.switch t []), outer⟩ (b.add (.switch t [])) outer :=
    Blocks.gives_commit (by simp [Block.add])
  have hnodup' : (Cases.labels ([] ++ cases)).Nodup := hnodup
  obtain ⟨bs', hplace, hgives'⟩ := placeAll_casesListing hcases hnodup' hgives
  refine ⟨bs', ?_, hgives'⟩
  simp only [Node.listing]
  rw [Blocks.placeAll_cons_of_ok hswitch]
  exact hplace

theorem placeAll_nodesListing {nodes : List Node} (hnodes : ∀ n ∈ nodes, n.kind ≠ .list ∧ Grows n)
    (hne : nodes ≠ []) (h : bs.Awaits b outer) :
    ∃ bs', bs.placeAll (nodesListing outer.length nodes) = .ok bs' ∧
      bs'.Gives (b.addAll nodes) outer := by
  induction nodes generalizing bs b with
  | nil => exact absurd rfl hne
  | cons node nodes ih =>
    obtain ⟨hkind, hgrows⟩ := hnodes node List.mem_cons_self
    obtain ⟨bs₁, hplace₁, hgives₁⟩ := hgrows bs b outer h
    rw [Node.members_of_ne_list hkind] at hgives₁
    simp only [nodesListing]
    rw [Blocks.placeAll_append_of_ok hplace₁]
    by_cases hlast : nodes = []
    · subst hlast
      exact ⟨bs₁, by simp only [nodesListing]; rfl, hgives₁⟩
    · obtain ⟨bs₂, hplace₂, hgives₂⟩ :=
        ih (fun n hn => hnodes n (List.mem_cons_of_mem _ hn)) hlast hgives₁.awaits
      have hall : (b.addAll [node]).addAll nodes = b.addAll (node :: nodes) := by
        simp [Block.addAll]
      exact ⟨bs₂, hplace₂, hall ▸ hgives₂⟩

theorem grows_list {children : List Node} (h : ∀ n ∈ children, n.kind ≠ .list ∧ Grows n)
    (hne : children ≠ []) : Grows (.list children) := by
  intro bs b outer hbs
  simp only [Node.listing]
  exact placeAll_nodesListing h hne hbs

mutual

theorem grows_of_canonical : (node : Node) → node.Canonical → Grows node
  | .process t child, h =>
    grows_of_fills (.process t) (fills_of_canonical child h.2) rfl
      (fun _ => by cases child <;> rfl) fun _ => by simp only [Node.listing]
  | .terminal t, h =>
    grows_of_fills (.terminal h.nonempty) fills_none rfl (fun _ => rfl)
      fun _ => by simp only [Node.listing, bodyListing]
  | .comment t, h =>
    grows_of_fills (.comment h.nonempty) fills_none rfl (fun _ => rfl)
      fun _ => by simp only [Node.listing, bodyListing]
  | .call t child, h =>
    grows_of_fills (.call h.1.nonempty) (fills_of_canonical child h.2) rfl
      (fun _ => by cases child <;> rfl) fun _ => by simp only [Node.listing]
  | .loop t true child, h =>
    grows_of_fills (.whileLoop h.1.nonempty) (fills_of_canonical child h.2) rfl
      (fun _ => by cases child <;> rfl) fun _ => by simp [Node.listing]
  | .loop t false child, h =>
    grows_of_fills (.doWhileLoop h.1.nonempty) (fills_of_canonical child h.2) rfl
      (fun _ => by cases child <;> rfl) fun _ => by simp [Node.listing]
  | .decision t onTrue onFalse, h =>
    grows_decision h.1.nonempty (fills_of_canonical onTrue h.2.1)
      (fills_of_canonical onFalse h.2.2)
  | .switch t cases, h => grows_switch h.1.nonempty (cases_of_canonical cases h.2.2) h.2.1
  | .list children, h =>
    grows_list (nodes_of_canonical children h.2) (by rintro rfl; exact absurd h.1 (by simp))

theorem fills_of_canonical : (body : Option Node) → BodyCanonical body → Fills body
  | none, _ => fills_none
  | some body, h => (grows_of_canonical body h).fills h

theorem cases_of_canonical :
    (cases : List (String × Option Node)) → CasesCanonical cases →
      ∀ c ∈ cases, c.1 ≠ "" ∧ Fills c.2
  | [], _ => by simp
  | (label, body) :: rest, h => by
    rw [List.forall_mem_cons]
    exact ⟨⟨h.1.nonempty, fills_of_canonical body h.2.1⟩, cases_of_canonical rest h.2.2⟩

theorem nodes_of_canonical :
    (nodes : List Node) → NodesCanonical nodes → ∀ n ∈ nodes, n.kind ≠ .list ∧ Grows n
  | [], _ => by simp
  | node :: rest, h => by
    rw [List.forall_mem_cons]
    exact ⟨⟨h.1, grows_of_canonical node h.2.1⟩, nodes_of_canonical rest h.2.2⟩

end

/-- Blocks that give a block at depth zero close to its nodes. -/
theorem Blocks.Gives.closeAll (h : bs.Gives b []) (hne : b.nodes ≠ []) :
    bs.closeAll = .ok (some (.list b.nodes.reverse)) := by
  obtain ⟨_, _, c, hclose, rfl⟩ := h
  obtain ⟨_, _, hsome⟩ := closeAll_of_closeTo hclose
  exact hsome hne

/-- A canonical tree is read from the text that writes it. -/
theorem parse_written {root : Node} (h : root.CanonicalRoot) :
    parse root.written = .ok (some root) := by
  rw [parse_eq_placeAll, h.items_written]
  cases root with
  | list children =>
    obtain ⟨hne, hchildren⟩ := h
    obtain ⟨bs, hplace, hgives⟩ := placeAll_nodesListing (nodes_of_canonical children hchildren) hne
      Blocks.awaits_start
    rw [List.length_nil] at hplace
    simp only [Node.listing]
    rw [hplace]
    have hnodes : (Block.empty.addAll children).nodes ≠ [] := by simp [Block.addAll, hne]
    have hclose := hgives.closeAll hnodes
    simpa [Blocks.treeOf, Block.addAll, Block.empty] using hclose
  | _ => exact absurd h id

/-- A tree with an empty branch, an empty case and line breaks. -/
theorem parse_written_branches :
    let cases := [("x", none), ("y", some (.list [.process "p\nq" none, .comment "#"]))]
    let root := Node.list
      [.decision "a: b" none (some (.loop "c\nd" false (some (.switch "e" cases)))), .call "f" none]
    root.CanonicalRoot ∧ parse root.written = .ok (some root) := by
  intro cases root
  have hroot : root.CanonicalRoot := by
    simp only [root, cases, Node.CanonicalRoot, NodesCanonical, CasesCanonical, BodyCanonical,
      Node.Canonical]
    refine ⟨by simp, ?_⟩
    and_intros <;> decide
  exact ⟨hroot, parse_written hroot⟩

end Outline

end ProgramDiagram
