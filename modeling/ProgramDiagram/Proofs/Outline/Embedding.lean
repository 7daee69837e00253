import ProgramDiagram.Proofs.Outline.Placement

/-!
# Blocks that stand in others

Open blocks may have other blocks around them, and their outermost block may come after nodes that
are there already.

* `Blocks.within`: open blocks as they stand there.
* `placeAll_within`: statements do to them what they do to the blocks alone, that much deeper.
* `closeAll_after`: nodes that were there already come first in the tree.
-/

namespace ProgramDiagram

/-- The tree with these nodes at its root, if there are any. -/
def rootOf : List Node → Option Node
  | [] => none
  | nodes => some (.list nodes)

theorem rootOf_of_ne_nil {nodes : List Node} (h : nodes ≠ []) :
    rootOf nodes = some (.list nodes) := by
  obtain ⟨node, rest, rfl⟩ := List.exists_cons_of_ne_nil h
  rfl

theorem rootOf_injective {xs ys : List Node} (h : rootOf xs = rootOf ys) : xs = ys := by
  cases xs with
  | nil =>
    cases ys with
    | nil => rfl
    | cons y ys => cases h
  | cons x xs =>
    cases ys with
    | nil => cases h
    | cons y ys => cases h; rfl

namespace Outline

/-! ## A block after older nodes -/

/-- A block whose nodes come after older ones. -/
def Block.after (b : Block) (older : List Node) : Block := ⟨b.nodes ++ older, b.slot⟩

namespace Block

variable {b : Block} (older : List Node)

theorem commit_after (h : b.nodes ≠ []) : (b.after older).commit = b.commit.after older := by
  obtain ⟨nodes, slot⟩ := b
  cases nodes with
  | nil => exact absurd rfl h
  | cons node rest =>
    cases node with
    | switch => cases slot <;> rfl
    | _ => rfl

theorem canNest_after (h : b.nodes ≠ []) : (b.after older).canNest = b.canNest := by
  obtain ⟨nodes, slot⟩ := b
  cases nodes with
  | nil => exact absurd rfl h
  | cons node rest =>
    cases node with
    | switch => cases slot <;> rfl
    | _ => rfl

theorem attach_after (h : b.nodes ≠ []) (body : Node) :
    (b.after older).attach body = (b.attach body).map (·.after older) := by
  obtain ⟨nodes, slot⟩ := b
  cases nodes with
  | nil => exact absurd rfl h
  | cons node rest =>
    cases node with
    | switch => cases slot <;> rfl
    | decision _ _ onFalse => cases slot <;> cases onFalse <;> rfl
    | _ => rfl

theorem addLabelled_after (argument : Option String) (node : String → Node) :
    (b.after older).addLabelled argument node =
      (b.addLabelled argument node).map (·.after older) := by
  unfold addLabelled
  cases required argument <;> rfl

theorem acceptElse_after (h : b.nodes ≠ []) (argument : Option String) :
    (b.after older).acceptElse argument = (b.acceptElse argument).map (·.after older) := by
  obtain ⟨nodes, slot⟩ := b
  cases nodes with
  | nil => exact absurd rfl h
  | cons node rest =>
    cases node with
    | decision _ _ onFalse => cases slot <;> cases onFalse <;> cases argument <;> rfl
    | _ => rfl

theorem acceptCase_after (h : b.nodes ≠ []) (argument : Option String) :
    (b.after older).acceptCase argument = (b.acceptCase argument).map (·.after older) := by
  obtain ⟨nodes, slot⟩ := b
  cases nodes with
  | nil => exact absurd rfl h
  | cons node rest =>
    cases node with
    | switch t cases =>
      simp only [acceptCase, after, List.cons_append]
      cases required argument with
      | error e => rfl
      | ok label =>
        simp only [bind, Except.bind]
        split <;> rfl
    | _ => rfl

theorem accept_after (h : b.nodes ≠ []) (st : Statement) :
    (b.after older).accept st = (b.accept st).map (·.after older) := by
  cases st with
  | process => rfl
  | unknown => rfl
  | command word argument =>
    cases word with
    | elseBranch => exact acceptElse_after older h argument
    | case => exact acceptCase_after older h argument
    | _ => exact addLabelled_after older argument _

end Block

/-! ## Blocks in blocks -/

/-- The outermost block comes after the nodes `older`, and the others stay as they are. -/
def Block.seat (older : List Node) : List Block → Block → Block
  | [], b => b.after older
  | _ :: _, b => b

/-- Outer blocks with the blocks `owners` around them. -/
def outerWithin (older : List Node) (owners : List Block) : List Block → List Block
  | [] => owners
  | b :: outer => b.seat older outer :: outerWithin older owners outer

/-- Blocks with the blocks `owners` around them, and with the nodes `older` before those of the
outermost. -/
def Blocks.within (older : List Node) (owners : List Block) (bs : Blocks) : Blocks :=
  ⟨bs.current.seat older bs.outer, outerWithin older owners bs.outer⟩

/-- What an attempt comes to for blocks that stand in others. -/
def attemptWithin (older : List Node) (owners : List Block) :
    Except (Failure Blocks) Blocks → Except (Failure Blocks) Blocks
  | .ok bs => .ok (bs.within older owners)
  | .error failure => .error ⟨failure.error, failure.blocks.within older owners⟩

/-- No open block is empty. -/
def Blocks.Filled (bs : Blocks) : Prop := ∀ b ∈ bs.current :: bs.outer, b.nodes ≠ []

/-- A statement that stands `n` deeper. -/
def lower (n : Nat) (item : Nat × Statement) : Nat × Statement := (item.1 + n, item.2)

theorem length_outerWithin (older : List Node) (owners outer : List Block) :
    (outerWithin older owners outer).length = outer.length + owners.length := by
  induction outer with
  | nil => simp [outerWithin]
  | cons b outer ih => simp only [outerWithin, List.length_cons, ih]; omega

section seat

variable {b : Block} {outer : List Block} (older : List Node)

/-- Only the outermost block is seated after other nodes. -/
theorem map_seat_cons (parent : Block) (outer : List Block) (result : Except Error Block) :
    result.map (Block.seat older (parent :: outer)) = result := by
  cases result <;> rfl

theorem Block.commit_seat (h : b.nodes ≠ [] ∨ outer ≠ []) :
    (b.seat older outer).commit = b.commit.seat older outer := by
  cases outer with
  | nil => exact commit_after older (h.resolve_right (by simp))
  | cons => rfl

theorem Block.canNest_seat (h : b.nodes ≠ []) : (b.seat older outer).canNest = b.canNest := by
  cases outer with
  | nil => exact canNest_after older h
  | cons => rfl

theorem Block.accept_seat (h : b.nodes ≠ [] ∨ outer ≠ []) (st : Statement) :
    (b.seat older outer).accept st = (b.accept st).map (Block.seat older outer) := by
  cases outer with
  | nil => exact accept_after older (h.resolve_right (by simp)) st
  | cons parent outer => exact (map_seat_cons older parent outer (b.accept st)).symm

theorem Block.seat_ne_nil (h : b.nodes ≠ []) : (b.seat older outer).nodes ≠ [] := by
  cases outer with
  | nil => simp [seat, after, h]
  | cons => exact h

theorem closeInto_seat (c : Block) (h : b.nodes ≠ []) :
    Block.closeInto c (b.seat older outer) =
      (Block.closeInto c b).map (Block.seat older outer) := by
  unfold Block.closeInto
  cases Node.ofBlock c.commit.nodes.reverse with
  | none => rfl
  | some body =>
    cases outer with
    | nil => exact Block.attach_after older h body
    | cons parent outer => exact (map_seat_cons older parent outer (b.attach body)).symm

end seat

namespace Blocks

variable {bs bs' : Blocks} {c : Block} {outer : List Block} {d : Nat}

/-- Closing leaves some of the outer blocks, and no empty block from one that is not. -/
theorem closeTo_left (h : closeTo d c outer = .ok bs) :
    bs.outer <:+ outer ∧ (c.nodes ≠ [] → bs.current.nodes ≠ []) := by
  refine (closeTo_invariant (E := fun _ => True)
    (I := fun p left => left <:+ outer ∧ (c.nodes ≠ [] → p.nodes ≠ []))
    (fun _ hI hinto => ⟨?_, fun hc => ?_⟩) (fun _ _ _ => trivial) ⟨List.suffix_refl _, id⟩).1 bs h
  · exact (List.suffix_cons _ _).trans hI.1
  · obtain ⟨body, _, hattach⟩ := closeInto_of_ne_nil (hI.2 hc) _
    rw [hinto] at hattach
    exact (attach_ok hattach.symm).2.1

theorem closeTo_error_of_le {k m : Nat} (hkm : k ≤ m) {failure : Failure Blocks}
    (h : closeTo m c outer = .error failure) : closeTo k c outer = .error failure := by
  induction outer generalizing c with
  | nil => cases h
  | cons parent outer ih =>
    by_cases hm : m ≤ outer.length
    · rw [closeTo_cons hm] at h
      rw [closeTo_cons (Nat.le_trans hkm hm)]
      cases hinto : Block.closeInto c parent with
      | error e => simpa [hinto] using h
      | ok p =>
        simp only [hinto] at h
        exact ih h
    · rw [closeTo_of_le (by rw [List.length_cons]; omega)] at h
      cases h

/-- A statement that is placed leaves no block empty. -/
theorem filled_of_place {item : Nat × Statement} (hbs : ∀ b ∈ bs.outer, b.nodes ≠ [])
    (h : bs.place item = .ok bs') : bs'.Filled := by
  obtain ⟨c, outer, b, hmove, haccept, rfl, _⟩ := place_ok h
  obtain ⟨node, rest, slot, rfl, _⟩ := haccept.leaves
  refine List.forall_mem_cons.2 ⟨by simp, ?_⟩
  rcases moveTo_ok hmove with ⟨_, hnodes, _, hopen⟩ | ⟨_, _, hclose⟩
  · cases hopen
    exact List.forall_mem_cons.2 ⟨hnodes, hbs⟩
  · exact fun b hb => hbs b ((closeTo_left hclose).1.subset hb)

theorem filled_of_placeAll {items : List (Nat × Statement)} (hbs : bs.Filled)
    (h : bs.placeAll items = .ok bs') : bs'.Filled := by
  induction items generalizing bs with
  | nil => cases h; exact hbs
  | cons item items ih =>
    rw [placeAll_cons] at h
    cases hplace : bs.place item with
    | error failure => rw [hplace] at h; cases h
    | ok next =>
      rw [hplace] at h
      exact ih (filled_of_place (List.forall_mem_cons.1 hbs).2 hplace) h

variable (older : List Node) (owners : List Block)

theorem closeTo_within (ho : ∀ b ∈ outer, b.nodes ≠ []) :
    closeTo (d + owners.length) (c.seat older outer) (outerWithin older owners outer) =
      attemptWithin older owners (closeTo d c outer) := by
  induction outer generalizing c with
  | nil => exact closeTo_of_le (Nat.le_add_left _ _) _
  | cons parent outer ih =>
    have hlen := length_outerWithin older owners outer
    rw [outerWithin]
    by_cases hd : d ≤ outer.length
    · rw [closeTo_cons (by omega), closeTo_cons hd]
      have hinto : Block.closeInto (c.seat older (parent :: outer)) (parent.seat older outer) =
          (Block.closeInto c parent).map (Block.seat older outer) :=
        closeInto_seat older c (ho parent List.mem_cons_self)
      rw [hinto]
      cases Block.closeInto c parent with
      | error e => rfl
      | ok p => exact ih fun b hb => ho b (List.mem_cons_of_mem _ hb)
    · rw [closeTo_of_le (by rw [List.length_cons]; omega),
        closeTo_of_le (by rw [List.length_cons]; omega)]
      rfl

theorem depth_within : (bs.within older owners).depth = bs.depth + owners.length :=
  length_outerWithin older owners bs.outer

theorem moveTo_within (hbs : bs.Filled) :
    (bs.within older owners).moveTo (d + owners.length) =
      attemptWithin older owners (bs.moveTo d) := by
  obtain ⟨hcurrent, houter⟩ := List.forall_mem_cons.1 hbs
  have hempty : bs.current.nodes.isEmpty = false := by simpa using hcurrent
  have hseat : (bs.within older owners).current.nodes.isEmpty = false := by
    simpa [within] using Block.seat_ne_nil older hcurrent
  have hnest : (bs.within older owners).current.canNest = bs.current.canNest :=
    Block.canNest_seat older hcurrent
  unfold moveTo
  rw [hempty, hseat, hnest, depth_within]
  simp only [Bool.and_false, Bool.false_eq_true, ↓reduceIte, Nat.add_lt_add_iff_right,
    Nat.add_right_comm bs.depth owners.length 1]
  split
  · split <;> rfl
  · exact closeTo_within older owners houter

theorem accept_within (h : bs.current.nodes ≠ [] ∨ bs.outer ≠ []) (st : Statement) :
    (bs.within older owners).accept st = attemptWithin older owners (bs.accept st) := by
  have hcommit := Block.commit_seat older h
  have hnodes : bs.current.commit.nodes ≠ [] ∨ bs.outer ≠ [] := h.imp_left Block.commit_ne_nil
  unfold Blocks.accept within
  rw [hcommit, Block.accept_seat older hnodes]
  cases bs.current.commit.accept st <;> rfl

/-- A statement does the same to blocks that stand in others, that much deeper. -/
theorem place_within (hbs : bs.Filled) (item : Nat × Statement) :
    (bs.within older owners).place (lower owners.length item) =
      attemptWithin older owners (bs.place item) := by
  have hmove : (bs.within older owners).moveTo (lower owners.length item).1 =
      attemptWithin older owners (bs.moveTo item.1) := moveTo_within older owners hbs
  unfold place
  rw [hmove]
  cases hmoved : bs.moveTo item.1 with
  | error failure => rfl
  | ok opened =>
    refine accept_within older owners ?_ item.2
    rcases moveTo_ok hmoved with ⟨_, _, _, rfl⟩ | ⟨_, _, hclose⟩
    · exact .inr (by simp)
    · exact .inl ((closeTo_left hclose).2 (hbs _ List.mem_cons_self))

theorem placeAll_within (hbs : bs.Filled) (items : List (Nat × Statement)) :
    (bs.within older owners).placeAll (items.map (lower owners.length)) =
      attemptWithin older owners (bs.placeAll items) := by
  induction items generalizing bs with
  | nil => rfl
  | cons item items ih =>
    rw [List.map_cons, placeAll_cons, placeAll_cons, place_within older owners hbs]
    cases hplace : bs.place item with
    | error failure => rfl
    | ok next =>
      have houter : ∀ b ∈ bs.outer, b.nodes ≠ [] := (List.forall_mem_cons.1 hbs).2
      exact ih (filled_of_place houter hplace)

/-! ## Closing all blocks -/

theorem closeAll_of_root {root : Block} (h : closeTo 0 bs.current bs.outer = .ok ⟨root, outer⟩) :
    bs.closeAll = .ok (rootOf root.commit.nodes.reverse) := by
  obtain ⟨_, hnone, hsome⟩ := closeAll_of_closeTo h
  by_cases hnodes : root.commit.nodes = []
  · rw [hnone hnodes, hnodes]
    rfl
  · rw [hsome hnodes, rootOf_of_ne_nil (by simpa using hnodes)]

theorem closeAll_of_error {failure : Failure Blocks}
    (h : closeTo 0 bs.current bs.outer = .error failure) :
    bs.closeAll = .error failure.error := by
  simp only [closeAll, h]

theorem exists_root_of_closeAll {tree : Option Node} (h : bs.closeAll = .ok tree) :
    ∃ root : Block, closeTo 0 bs.current bs.outer = .ok ⟨root, []⟩ ∧
      tree = rootOf root.commit.nodes.reverse := by
  cases hclose : closeTo 0 bs.current bs.outer with
  | error failure => rw [closeAll_of_error hclose] at h; cases h
  | ok opened =>
    obtain ⟨root, outer⟩ := opened
    obtain ⟨rfl, _⟩ := closeAll_of_closeTo hclose
    rw [closeAll_of_root hclose] at h
    cases h
    exact ⟨root, rfl, rfl⟩

/-- Nodes that are there already come first in the tree. -/
theorem closeAll_after (hbs : bs.Filled) {nodes : List Node}
    (h : bs.closeAll = .ok (rootOf nodes)) :
    (bs.within older []).closeAll = .ok (rootOf (older.reverse ++ nodes)) := by
  obtain ⟨hcurrent, houter⟩ := List.forall_mem_cons.1 hbs
  obtain ⟨root, hclose, hnodes⟩ := exists_root_of_closeAll h
  have hroot : root.nodes ≠ [] := (closeTo_left hclose).2 hcurrent
  have hall : closeTo 0 (bs.within older []).current (bs.within older []).outer =
      .ok ⟨root.after older, []⟩ := by
    have hstand := closeTo_within older [] (d := 0) (c := bs.current) houter
    rw [hclose] at hstand
    exact hstand
  rw [closeAll_of_root hall, Block.commit_after older hroot, rootOf_injective hnodes, Block.after,
    List.reverse_append]

end Blocks

end Outline

end ProgramDiagram
