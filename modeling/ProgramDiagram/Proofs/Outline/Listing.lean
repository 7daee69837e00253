import ProgramDiagram.Proofs.Outline.Placement

/-!
# A tree lists the statements of its source

* `Node.listing`: a tree as the statements that write it, with their depths.
* `withoutBareElse`: statements without each `else` that has no body.
* `listing_place`: placing a statement adds it to what the open blocks list.
* `listing_parse`: the tree of a source lists its statements, in order and at their depths.
-/

namespace ProgramDiagram

open Outline

mutual

/-- The statements that write a tree, owners before what they own. A body stands one deeper than its
owner, and a list at the depth of its nodes. -/
def Node.listing (depth : Nat) : Node → List (Nat × Statement)
  | .process t child => (depth, .process t) :: bodyListing (depth + 1) child
  | .terminal t => [(depth, .command .terminal (some t))]
  | .comment t => [(depth, .command .comment (some t))]
  | .call t child => (depth, .command .call (some t)) :: bodyListing (depth + 1) child
  | .loop t testFirst child =>
    (depth, .command (if testFirst then .whileLoop else .doWhileLoop) (some t)) ::
      bodyListing (depth + 1) child
  | .decision t onTrue onFalse =>
    (depth, .command .decision (some t)) ::
      (bodyListing (depth + 1) onTrue ++ elseListing depth onFalse)
  | .switch t cases => (depth, .command .switch (some t)) :: casesListing depth cases
  | .list children => nodesListing depth children

def bodyListing (depth : Nat) : Option Node → List (Nat × Statement)
  | none => []
  | some body => body.listing depth

def elseListing (depth : Nat) : Option Node → List (Nat × Statement)
  | none => []
  | some body => (depth, .command .elseBranch none) :: body.listing (depth + 1)

def casesListing (depth : Nat) : List (String × Option Node) → List (Nat × Statement)
  | [] => []
  | (label, body) :: rest =>
    (depth, .command .case (some label)) ::
      (bodyListing (depth + 1) body ++ casesListing depth rest)

def nodesListing (depth : Nat) : List Node → List (Nat × Statement)
  | [] => []
  | node :: rest => node.listing depth ++ nodesListing depth rest

end

theorem nodesListing_append (depth : Nat) (xs ys : List Node) :
    nodesListing depth (xs ++ ys) = nodesListing depth xs ++ nodesListing depth ys := by
  induction xs with
  | nil => simp [nodesListing]
  | cons x xs ih => simp [nodesListing, ih]

theorem nodesListing_reverse_cons (depth : Nat) (node : Node) (rest : List Node) :
    nodesListing depth (node :: rest).reverse =
      nodesListing depth rest.reverse ++ node.listing depth := by
  rw [List.reverse_cons, nodesListing_append]
  simp [nodesListing]

theorem casesListing_append (depth : Nat) (xs ys : Cases) :
    casesListing depth (xs ++ ys) = casesListing depth xs ++ casesListing depth ys := by
  induction xs with
  | nil => simp [casesListing]
  | cons x xs ih =>
    obtain ⟨label, body⟩ := x
    simp [casesListing, ih]

theorem listing_ofBlock {nodes : List Node} {body : Node} (h : Node.ofBlock nodes = some body)
    (depth : Nat) : body.listing depth = nodesListing depth nodes := by
  match nodes, h with
  | [_], rfl => simp [nodesListing]
  | _ :: _ :: _, rfl => simp [Node.listing]

namespace Outline

/-- Leaves out each `else` that no deeper statement follows. After the list comes a statement at
depth `next`, or none. -/
def withoutBareElse (next : Option Nat) : List (Nat × Statement) → List (Nat × Statement)
  | [] => []
  | item :: rest =>
    if item.2 = .command .elseBranch none ∧
        ((rest.head?.map Prod.fst).or next).all (· ≤ item.1) then
      withoutBareElse next rest
    else item :: withoutBareElse next rest

theorem withoutBareElse_append (next : Option Nat) (items : List (Nat × Statement))
    (item : Nat × Statement) :
    withoutBareElse next (items ++ [item]) =
      withoutBareElse (some item.1) items ++ withoutBareElse next [item] := by
  induction items with
  | nil => rfl
  | cons first rest ih =>
    have hnext : ((rest ++ [item]).head?.map Prod.fst).or next =
        (rest.head?.map Prod.fst).or (some item.1) := by
      cases rest <;> rfl
    simp only [List.cons_append, withoutBareElse, hnext, ih]
    split <;> rfl

def Slot.listing (depth : Nat) : Slot → List (Nat × Statement)
  | .body => []
  | .elseBranch => [(depth, .command .elseBranch none)]
  | .case label => [(depth, .command .case (some label))]

/-! ## What open blocks list -/

/-- The statements that a block holds, one that awaits its body included. -/
def Block.listing (depth : Nat) (b : Block) : List (Nat × Statement) :=
  nodesListing depth b.nodes.reverse ++ b.slot.listing depth

/-- The statements that a block keeps if nothing more is nested in it. -/
def Block.settled (depth : Nat) (b : Block) : List (Nat × Statement) :=
  nodesListing depth b.commit.nodes.reverse

/-- The last statement of a block has just been read. -/
def Block.Ready (b : Block) : Prop :=
  ∃ st node rest slot, b = ⟨node :: rest, slot⟩ ∧ Leaves st node slot

theorem Makes.listing {st : Statement} {node : Node} (h : Makes st node) (depth : Nat) :
    node.listing depth = [(depth, st)] := by
  cases h <;> simp [Node.listing, bodyListing, elseListing, casesListing]

theorem Block.settled_of_body {b : Block} (h : b.slot = .body) (depth : Nat) :
    b.settled depth = b.listing depth := by
  have hcommit : b.commit = b := commit_of_ne_case (by simp [h])
  rw [settled, listing, hcommit, h, Slot.listing, List.append_nil]

/-- An accepted statement comes after what the block holds. -/
theorem Accepted.listing {c b : Block} {st : Statement} (h : Accepted c st b) (depth : Nat) :
    b.listing depth = nodesListing depth c.nodes.reverse ++ [(depth, st)] := by
  cases h with
  | made h =>
    simp only [Block.listing, Block.add, nodesListing_reverse_cons, h.listing, Slot.listing,
      List.append_nil]
  | elseBranch => rfl
  | case => rfl

/-- An accepted statement stays without a body, unless it is an `else`. -/
theorem Accepted.settled {c b : Block} {st : Statement} (h : Accepted c st b) (depth : Nat) :
    b.settled depth = nodesListing depth c.nodes.reverse ++
      if st = .command .elseBranch none then [] else [(depth, st)] := by
  have hlisting := h.listing depth
  cases h with
  | made h =>
    rw [Block.settled_of_body rfl, hlisting, if_neg (by intro hst; subst hst; cases h)]
  | elseBranch =>
    rw [if_pos rfl, List.append_nil, Block.settled, Block.commit_of_ne_case (by simp)]
  | case _ hnodes fresh =>
    rw [if_neg (by simp), Block.settled, hnodes, Block.commit_case]
    simp only [nodesListing_reverse_cons, insertCase_of_fresh fresh, Node.listing,
      casesListing_append, casesListing, bodyListing, List.append_nil, List.append_assoc,
      List.cons_append]

/-- A body goes where nothing was before. -/
theorem listing_attach {p p' : Block} (h : p.Ready) {body : Node} (hp : p.attach body = .ok p')
    (depth : Nat) :
    p'.listing depth = p.listing depth ++ body.listing (depth + 1) := by
  obtain ⟨st, node, rest, slot, rfl, hleaves⟩ := h
  cases hleaves with
  | made h =>
    cases h <;> cases hp <;>
      simp [Block.listing, nodesListing_append, nodesListing, Node.listing, bodyListing,
        elseListing, Slot.listing]
  | elseBranch t onTrue =>
    cases hp
    simp [Block.listing, nodesListing_append, nodesListing, Node.listing, elseListing,
      Slot.listing]
  | case t hlabel fresh =>
    cases hp
    simp [Block.listing, nodesListing_append, nodesListing, Node.listing, casesListing_append,
      casesListing, bodyListing, insertCase_of_fresh fresh, Slot.listing]

theorem listing_closeInto {c p p' : Block} (hc : c.nodes ≠ []) (h : p.Ready)
    (hp : Block.closeInto c p = .ok p') (depth : Nat) :
    p'.settled depth = p.listing depth ++ c.settled (depth + 1) ∧ p'.nodes ≠ [] := by
  obtain ⟨body, hbody, hattach⟩ := closeInto_of_ne_nil hc p
  rw [hattach] at hp
  obtain ⟨hslot, hnodes, _⟩ := attach_ok hp
  rw [Block.settled_of_body hslot, listing_attach h hp, listing_ofBlock hbody]
  exact ⟨rfl, hnodes⟩

namespace Blocks

/-- What the blocks around the current one list. -/
def outerListing : List Block → List (Nat × Statement)
  | [] => []
  | b :: outer => outerListing outer ++ b.listing outer.length

def listing (bs : Blocks) : List (Nat × Statement) :=
  outerListing bs.outer ++ bs.current.listing bs.depth

def settled (bs : Blocks) : List (Nat × Statement) :=
  outerListing bs.outer ++ bs.current.settled bs.depth

theorem settled_closeTo {d : Nat} {current : Block} {outer : List Block} {bs : Blocks}
    (hc : outer ≠ [] → current.nodes ≠ []) (hready : ∀ b ∈ outer, b.Ready)
    (h : closeTo d current outer = .ok bs) :
    bs.settled = settled ⟨current, outer⟩ ∧ ∀ b ∈ bs.outer, b.Ready := by
  refine (closeTo_invariant (E := fun _ => True)
    (I := fun c left => (left ≠ [] → c.nodes ≠ []) ∧ settled ⟨c, left⟩ = settled ⟨current, outer⟩ ∧
      ∀ b ∈ left, b.Ready)
    (fun {_ _ _ left} _ hI hinto => ?_) (fun _ _ _ => trivial) ⟨hc, rfl, hready⟩).1 bs h |>.2
  obtain ⟨hc, hsettled, hready⟩ := hI
  obtain ⟨hparent, hready⟩ := List.forall_mem_cons.1 hready
  obtain ⟨hlisting, hnodes⟩ := listing_closeInto (hc (by simp)) hparent hinto left.length
  refine ⟨fun _ => hnodes, ?_, hready⟩
  rw [← hsettled]
  simp only [settled, depth, outerListing, List.length_cons, hlisting, List.append_assoc]

/-- The last statement of every open block has just been read, if there is any. -/
def Ready (bs : Blocks) : Prop := bs = start ∨ ∀ b ∈ bs.current :: bs.outer, b.Ready

theorem Ready.outer_ready {bs : Blocks} (h : bs.Ready) : ∀ b ∈ bs.outer, b.Ready := by
  rcases h with rfl | h
  · simp [start]
  · exact fun b hb => h b (List.mem_cons_of_mem _ hb)

theorem Ready.current_ne_nil {bs : Blocks} (h : bs.Ready) (ho : bs.outer ≠ []) :
    bs.current.nodes ≠ [] := by
  rcases h with rfl | h
  · exact absurd rfl ho
  · obtain ⟨_, _, _, _, hb, _⟩ := h bs.current List.mem_cons_self
    simp [hb]

/-- A deeper statement comes after all that the blocks list, any other after what they keep. -/
theorem listing_place {bs bs' : Blocks} {item : Nat × Statement} (hbs : bs.Ready)
    (h : bs.place item = .ok bs') :
    bs'.Ready ∧ bs'.depth = item.1 ∧
      bs'.listing = (if bs.depth < item.1 then bs.listing else bs.settled) ++ [item] ∧
      bs'.settled = (if bs.depth < item.1 then bs.listing else bs.settled) ++
        if item.2 = .command .elseBranch none then [] else [item] := by
  obtain ⟨depth, st⟩ := item
  obtain ⟨c, outer, b, hmove, haccept, rfl, hlen⟩ := place_ok h
  have hlisting := haccept.listing depth
  have hsettled := haccept.settled depth
  have hb : b.Ready := by
    obtain ⟨node, rest, slot, hb, hleaves⟩ := haccept.leaves
    exact ⟨st, node, rest, slot, hb, hleaves⟩
  simp only at hlen hmove
  -- what stands before the statement
  have held : (∀ b ∈ outer, b.Ready) ∧
      outerListing outer ++ nodesListing depth c.commit.nodes.reverse =
        if bs.depth < depth then bs.listing else bs.settled := by
    rcases moveTo_ok hmove with ⟨hd, hnodes, _, hopen⟩ | ⟨hd, _, hclose⟩
    · cases hopen
      have hall := hbs.resolve_left (by rintro rfl; exact hnodes rfl)
      refine ⟨hall, ?_⟩
      rw [if_pos (by omega)]
      simp [outerListing, listing, Blocks.depth, Block.empty, Block.commit, nodesListing]
    · obtain ⟨heq, hready⟩ := settled_closeTo hbs.current_ne_nil hbs.outer_ready hclose
      refine ⟨hready, ?_⟩
      rw [if_neg (by omega), show bs.settled = settled ⟨bs.current, bs.outer⟩ from rfl, ← heq]
      simp only [settled, Blocks.depth, Block.settled, hlen]
  refine ⟨.inr ?_, hlen, ?_, ?_⟩
  · intro b' hb'
    rcases List.mem_cons.1 hb' with rfl | hb'
    · exact hb
    · exact held.1 b' hb'
  · rw [← held.2, List.append_assoc, ← hlisting]
    simp only [listing, Blocks.depth, hlen]
  · rw [← held.2, List.append_assoc, ← hsettled]
    simp only [settled, Blocks.depth, hlen]

/-- The open blocks list the statements placed so far. An `else` that ends them is kept as long as
a deeper statement may follow. -/
theorem listing_placeAll {items : List (Nat × Statement)} {bs : Blocks}
    (h : start.placeAll items = .ok bs) :
    bs.Ready ∧ ∀ next : Option Nat, withoutBareElse next items =
      if next.any (bs.depth < ·) then bs.listing else bs.settled := by
  induction items using List.reverseRecOn generalizing bs with
  | nil =>
    cases h
    exact ⟨.inl rfl, fun next => by split <;> rfl⟩
  | append_singleton items item ih =>
    obtain ⟨before, hbefore, hplace⟩ := placeAll_concat_eq_ok_iff.1 h
    obtain ⟨hready, ih⟩ := ih hbefore
    obtain ⟨hready', hdepth, hlisting, hsettled⟩ := listing_place hready hplace
    refine ⟨hready', fun next => ?_⟩
    have hheld : withoutBareElse (some item.1) items =
        if before.depth < item.1 then before.listing else before.settled := by
      simpa using ih (some item.1)
    rw [withoutBareElse_append, hheld, hlisting, hsettled, hdepth]
    cases next with
    | none => simp [withoutBareElse]
    | some n =>
      by_cases hn : item.1 < n
      · simp [withoutBareElse, hn, Nat.not_le_of_lt hn]
      · simp [withoutBareElse, hn, Nat.le_of_not_lt hn]

theorem listing_closeAll {bs : Blocks} (hbs : bs.Ready) {tree : Option Node}
    (h : bs.closeAll = .ok tree) : bodyListing 0 tree = bs.settled := by
  cases hclose : closeTo 0 bs.current bs.outer with
  | error failure => simp [closeAll, hclose] at h
  | ok root =>
    obtain ⟨heq, _⟩ := settled_closeTo hbs.current_ne_nil hbs.outer_ready hclose
    obtain ⟨houter, hnone, hsome⟩ := closeAll_of_closeTo hclose
    rw [show bs.settled = settled ⟨bs.current, bs.outer⟩ from rfl, ← heq]
    simp only [settled, houter, outerListing, List.nil_append, Blocks.depth, List.length_nil,
      Block.settled]
    by_cases hnodes : root.current.commit.nodes = []
    · rw [hnone hnodes] at h
      cases h
      simp [hnodes, bodyListing, nodesListing]
    · rw [hsome hnodes] at h
      cases h
      simp [bodyListing, Node.listing]

end Blocks

/-- The tree of a source lists its statements, each at its depth, in their order. Only an `else`
that no deeper statement follows is missing. -/
theorem listing_parse {source : String} {tree : Option Node} (h : parse source = .ok tree) :
    bodyListing 0 tree = withoutBareElse none ((entries source).map Entry.item) := by
  rw [parse_eq_placeAll] at h
  cases hplace : Blocks.start.placeAll ((entries source).map Entry.item) with
  | error failure => simp [hplace, Blocks.treeOf] at h
  | ok bs =>
    simp only [hplace, Blocks.treeOf] at h
    obtain ⟨hready, hlisting⟩ := Blocks.listing_placeAll hplace
    rw [Blocks.listing_closeAll hready h, hlisting]
    rfl

/-- A source and its tree, where one `else` is bare and one case has no body. -/
theorem listing_parse_nested :
    let source := ":if a\n\t:switch b\n\t:case x\n\t\tc\n\t\td@\ne\n\t:case y\n:else\n:call f\n"
    let cases := [("x", some (.list [.process "c" none, .process "d\ne" none])), ("y", none)]
    let tree := Node.list [.decision "a" (some (.switch "b" cases)) none, .call "f" none]
    parse source = .ok (some tree) ∧
      bodyListing 0 (some tree) = withoutBareElse none ((entries source).map Entry.item) :=
  ⟨by rfl, listing_parse (by rfl)⟩

end Outline

end ProgramDiagram
