import Mathlib.Data.List.Nodup
import ProgramDiagram.Proofs.Outline.Acceptance
import ProgramDiagram.Proofs.Outline.Embedding
import ProgramDiagram.Proofs.Outline.Listing
import ProgramDiagram.Proofs.Outline.Switches

/-!
# The cases of a switch

* `Covers`: the accepted statements that a node of an open block comes of. They start with the one
  that makes it, and go on with those of its branches and those nested in it.
* `Stacked`: the accepted statements are those of the open blocks, the outermost first.
* `Block.KeepsCases`: what is done to a switch leaves the cases that it has.
* `cases_read`: each switch of a returned tree has the cases that were accepted for it.
-/

namespace ProgramDiagram.Outline

/-! ## Pending cases -/

/-- A case that is pending belongs to the last node, a switch that does not have its label. -/
def Block.CaseFits (b : Block) : Prop :=
  ∀ label, b.slot = .case label →
    ∃ t cases rest, b.nodes = .switch t cases :: rest ∧ label ∉ Cases.labels cases

theorem kept_caseFits : Kept Block.CaseFits := by
  refine .of_slot (fun b hbody label hslot => ?_) fun haccept label hslot => ?_
  · rw [hbody] at hslot
    cases hslot
  · cases haccept with
    | made | elseBranch => cases hslot
    | case _ hnodes fresh =>
      cases hslot
      exact ⟨_, _, _, hnodes, fresh⟩

/-- A pending `else` or case belongs to the last node and can still be filled. -/
def Block.Fits (b : Block) : Prop := b.ElseFits ∧ b.CaseFits

theorem kept_fits : Kept Block.Fits := kept_elseFits.and kept_caseFits

/-- Both ways to give the last switch of a block a case add it after those that the switch has, and
leave these as they are. -/
structure Block.KeepsCases (b : Block) : Prop where
  commit : ∀ t cases rest, b.nodes = .switch t cases :: rest →
    ∃ added, b.commit.nodes = .switch t (cases ++ added) :: rest
  attach : ∀ t cases rest body b', b.nodes = .switch t cases :: rest → b.attach body = .ok b' →
    ∃ label, b.slot = .case label ∧ b'.nodes = .switch t (cases ++ [(label, some body)]) :: rest

theorem Block.CaseFits.keepsCases {b : Block} (h : b.CaseFits) : b.KeepsCases := by
  obtain ⟨nodes, slot⟩ := b
  refine ⟨fun t cases rest hnodes => ?commit, fun t cases rest body b' hnodes hattach => ?attach⟩
  case commit =>
    obtain rfl : nodes = .switch t cases :: rest := hnodes
    cases slot with
    | body | elseBranch => exact ⟨[], by rw [List.append_nil]; rfl⟩
    | case label =>
      obtain ⟨_, _, _, hswitch, fresh⟩ := h label rfl
      cases hswitch
      exact ⟨_, by rw [Block.commit_case, insertCase_of_fresh fresh]⟩
  case attach =>
    obtain rfl : nodes = .switch t cases :: rest := hnodes
    cases slot with
    | body | elseBranch => cases hattach
    | case label =>
      obtain ⟨_, _, _, hswitch, fresh⟩ := h label rfl
      cases hswitch
      cases hattach
      exact ⟨label, rfl, by rw [insertCase_of_fresh fresh]⟩

/-! ## The statements of a node -/

/-- The statements `nested`, which follow a switch of depth `d`, are `cases` with what is nested in
them. -/
structure CasesIn (d : Nat) (nested : List (Nat × Statement)) (cases : Cases) : Prop where
  only : ∀ x ∈ nested, d < x.1 ∨ x.1 = d ∧ x.2.label?.isSome
  said : casesAt d nested = cases.shallow
  once : cases.labels.Nodup

/-- A node of depth `d` comes of these statements: the one that makes it, and those of its branches
and what is nested in them. Of these some may be lost, but a switch has all its cases. -/
inductive Covers (d : Nat) : Node → List (Nat × Statement) → Prop
  | intro {st : Statement} {node : Node} {nested : List (Nat × Statement)}
      (made : st.made? = some node.bare)
      (inside : ∀ x ∈ nested, d < x.1 ∨ x.1 = d ∧ x.2.made? = none)
      (inner : Accounted (node.owned.flatMap Node.switches) nested)
      (own : ∀ t cases, node = .switch t cases → CasesIn d nested cases) :
      Covers d node ((d, st) :: nested)

/-- The nodes of a block of depth `d`, newest first, come of these statements. -/
inductive CoversAll (d : Nat) : List Node → List (Nat × Statement) → Prop
  | nil : CoversAll d [] []
  | cons {node : Node} {rest : List Node} {before own : List (Nat × Statement)}
      (hrest : CoversAll d rest before) (hnode : Covers d node own) :
      CoversAll d (node :: rest) (before ++ own)

section
variable {d : Nat} {node node' : Node} {nodes : List Node} {own items : List (Nat × Statement)}

theorem lt_of_made {x : Nat × Statement} (h : d < x.1 ∨ x.1 = d ∧ x.2.made? = none)
    (hmade : x.2.made?.isSome) : d < x.1 :=
  h.resolve_right fun h => by simp [h.2] at hmade

/-- The switches in a node are among those that its statements say. -/
theorem Covers.account (h : Covers d node own) : Accounted node.switches own := by
  obtain ⟨made, _, inner, own⟩ := h
  rw [Node.switches_eq]
  cases node with
  | switch t cases =>
    have hcases := own t cases rfl
    rw [Node.ownSwitch, ← hcases.said]
    refine ⟨?_, List.forall_mem_cons.2 ⟨?_, inner.once⟩⟩
    · simp only [switchesIn, Statement.switch?_of_made?_switch made]
      exact (List.subperm_cons _).2 inner.said
    · rw [hcases.said, labels_shallow]
      exact hcases.once
  | _ =>
    have hswitch := Statement.switch?_of_made? made (by simp [Node.bare, Node.kind])
    refine ⟨?_, inner.once⟩
    simp only [switchesIn, hswitch]
    exact inner.said

theorem Covers.deep (h : Covers d node own) : ∀ x ∈ own, d ≤ x.1 := by
  obtain ⟨_, inside, _, _⟩ := h
  refine List.forall_mem_cons.2 ⟨Nat.le_refl d, fun x hx => ?_⟩
  have := inside x hx
  omega

theorem Covers.head (h : Covers d node own) : ∀ y ∈ own.head?, y.1 = d ∧ y.2.made?.isSome := by
  obtain ⟨made, _, _, _⟩ := h
  rintro y ⟨⟩
  exact ⟨rfl, by rw [made]; rfl⟩

theorem Covers.blockAt (h : Covers d node own) : blockAt d own = [node.bare] := by
  obtain ⟨made, inside, _, _⟩ := h
  rw [Outline.blockAt, if_neg (Nat.lt_irrefl d), if_pos rfl, made, blockAt_eq_nil inside]
  rfl

theorem Covers.ne_list (h : Covers d node own) : node.kind ≠ .list := by
  obtain ⟨made, _, _, _⟩ := h
  exact node.kind_bare ▸ Statement.made?_ne_list made

theorem CoversAll.deep (h : CoversAll d nodes items) : ∀ x ∈ items, d ≤ x.1 := by
  induction h with
  | nil => simp
  | cons _ hnode ih => exact List.forall_mem_append.2 ⟨ih, hnode.deep⟩

theorem CoversAll.head (h : CoversAll d nodes items) :
    ∀ y ∈ items.head?, y.1 = d ∧ y.2.made?.isSome := by
  induction h with
  | nil => simp
  | @cons _ _ before _ _ hnode ih =>
    cases before with
    | nil => exact hnode.head
    | cons => exact ih

theorem CoversAll.siblings (h : CoversAll d nodes items) : Siblings nodes := by
  induction h with
  | nil => exact List.forall_mem_nil _
  | cons _ hnode ih => exact List.forall_mem_cons.2 ⟨hnode.ne_list, ih⟩

theorem CoversAll.blockAt (h : CoversAll d nodes items) :
    blockAt d items = nodes.reverse.map Node.bare := by
  induction h with
  | nil => rfl
  | cons hrest hnode ih =>
    rw [blockAt_append hrest.deep, ih, hnode.blockAt, List.reverse_cons, List.map_append]
    rfl

theorem CoversAll.account (h : CoversAll d nodes items) :
    Accounted (nodes.reverse.flatMap Node.switches) items := by
  induction h with
  | nil => exact accounted_nil []
  | cons hrest hnode ih =>
    rw [List.reverse_cons, List.flatMap_append, List.flatMap_singleton]
    exact ih.append hnode.account (endedBy_of_head (fun x hx _ => hrest.deep x hx) hnode.head)

/-- A closed block goes to a node that is no switch, where it may take the place of another, or is
lost. -/
theorem Covers.nest (h : Covers d node own) (hkind : node.kind ≠ .switch)
    (hbare : node'.bare = node.bare) (hnodes : CoversAll (d + 1) nodes items)
    (howned : (node'.owned.flatMap Node.switches).Subperm
      (node.owned.flatMap Node.switches ++ nodes.reverse.flatMap Node.switches)) :
    Covers d node' (own ++ items) := by
  obtain ⟨made, inside, inner, _⟩ := h
  have hended : EndedBy _ items :=
    endedBy_of_head (fun x hx hmade => lt_of_made (inside x hx) hmade) hnodes.head
  refine .intro (hbare ▸ made) (List.forall_mem_append.2 ⟨inside, fun x hx => ?_⟩)
    ((inner.append hnodes.account hended).mono howned) fun t cases hswitch => ?_
  · exact .inl (hnodes.deep x hx)
  · rw [← node.kind_bare, ← hbare, hswitch] at hkind
    exact absurd rfl hkind

/-- An `else` or a case ends what is nested before it. -/
theorem endedBy_branch {nested rest : List (Nat × Statement)} {st : Statement}
    (inside : ∀ x ∈ nested, d < x.1 ∨ x.1 = d ∧ x.2.made? = none) :
    EndedBy nested ((d, st) :: rest) := by
  rintro x hx hmade y ⟨⟩
  exact .inl (lt_of_made (inside x hx) hmade)

theorem Covers.elseBranch (h : Covers d node own) (hkind : node.kind ≠ .switch) :
    Covers d node (own ++ [(d, .command .elseBranch none)]) := by
  obtain ⟨made, inside, inner, _⟩ := h
  refine .intro made (List.forall_mem_append.2 ⟨inside, by simp [Statement.made?]⟩) ?_
    fun t cases hswitch => ?_
  · rw [← List.append_nil (List.flatMap ..)]
    exact inner.append (accounted_nil _) (endedBy_branch inside)
  · rw [hswitch] at hkind
    exact absurd rfl hkind

/-- A new case of a switch has the statements directly under it for its body. -/
theorem Covers.case {t label : String} {cases : Cases} (h : Covers d (.switch t cases) own)
    (fresh : label ∉ cases.labels) (hnodes : CoversAll (d + 1) nodes items) :
    Covers d (.switch t (insertCase label (Node.ofBlock nodes.reverse) cases))
      (own ++ (d, .command .case (some label)) :: items) := by
  obtain ⟨made, inside, inner, own⟩ := h
  have hcases := own t cases rfl
  rw [insertCase_of_fresh fresh, List.cons_append]
  refine .intro made ?inside ?inner ?own
  case inside =>
    refine List.forall_mem_append.2 ⟨inside, List.forall_mem_cons.2 ⟨.inr ⟨rfl, rfl⟩, ?_⟩⟩
    exact fun x hx => .inl (hnodes.deep x hx)
  case inner =>
    have howned : (Node.switch t (cases ++ [(label, Node.ofBlock nodes.reverse)])).owned =
        (Node.switch t cases).owned ++ (Node.ofBlock nodes.reverse).toList := by
      cases hbody : Node.ofBlock nodes.reverse <;> simp [Node.owned, Cases.bodies]
    rw [howned, List.flatMap_append, switches_ofBlock]
    have haccount := hnodes.account
    exact inner.append ⟨haccount.said, haccount.once⟩ (endedBy_branch inside)
  case own =>
    rintro _ _ ⟨⟩
    have hbody : casesAt d ((d, .command .case (some label)) :: items) =
        [(label, (Node.ofBlock nodes.reverse).map Node.shallow)] := by
      have hsiblings : ∀ node ∈ nodes.reverse, node.kind ≠ .list :=
        fun node hnode => hnodes.siblings node (List.mem_reverse.1 hnode)
      rw [casesAt, if_neg (Nat.lt_irrefl d), if_pos rfl, Statement.label?, hnodes.blockAt,
        casesAt_of_deeper hnodes.deep, shallow_ofBlock hsiblings]
    refine ⟨?_, ?_, ?_⟩
    · refine List.forall_mem_append.2 ⟨hcases.only, List.forall_mem_cons.2 ⟨.inr ⟨rfl, rfl⟩, ?_⟩⟩
      exact fun x hx => .inl (hnodes.deep x hx)
    · rw [casesAt_append hcases.only (by simp), hcases.said, hbody]
      simp [Cases.shallow]
    · have hlabels : Cases.labels (cases ++ [(label, Node.ofBlock nodes.reverse)]) =
          cases.labels ++ [label] := by simp [Cases.labels]
      rw [hlabels, ← List.concat_eq_append]
      exact List.Nodup.concat fresh hcases.once

end

/-! ## The statements of open blocks -/

/-- A block comes of these statements, the last of which may be an `else` or a case that is
pending. -/
inductive Block.Covered (d : Nat) (b : Block) : List (Nat × Statement) → Prop
  | intro {items : List (Nat × Statement)} (h : CoversAll d b.nodes items) :
      Covered d b (items ++ b.slot.listing d)

/-- Open blocks, from the current one outwards, come of these statements. -/
inductive Stacked : List Block → List (Nat × Statement) → Prop
  | nil : Stacked [] []
  | cons {b : Block} {outer : List Block} {before own : List (Nat × Statement)}
      (houter : Stacked outer before) (hb : b.Covered outer.length own) :
      Stacked (b :: outer) (before ++ own)

variable {d : Nat} {b c p p' : Block} {outer : List Block} {before items : List (Nat × Statement)}

theorem Block.covered_of_body (h : CoversAll d b.nodes items) (hslot : b.slot = .body) :
    b.Covered d items := by
  have hcovered := Covered.intro h
  rwa [hslot, Slot.listing, List.append_nil] at hcovered

/-- When nothing more is nested in a block, what is pending goes to its last node. -/
theorem Block.Covered.settled (h : b.Covered d items) (hfits : b.Fits) :
    CoversAll d b.commit.nodes items := by
  obtain ⟨nodes, slot⟩ := b
  obtain ⟨hall⟩ := h
  cases slot with
  | body =>
    rw [Block.commit_of_ne_case (by simp), Slot.listing, List.append_nil]
    exact hall
  | elseBranch =>
    obtain ⟨t, onTrue, rest, hdecision⟩ := hfits.1 rfl
    obtain rfl : nodes = .decision t onTrue none :: rest := hdecision
    rw [Block.commit_of_ne_case (by simp), Slot.listing]
    cases hall with
    | cons hrest hnode =>
      rw [List.append_assoc]
      exact hrest.cons (hnode.elseBranch (by simp [Node.kind]))
  | case label =>
    obtain ⟨t, cases, rest, hswitch, fresh⟩ := hfits.2 label rfl
    obtain rfl : nodes = .switch t cases :: rest := hswitch
    rw [Block.commit_case, Slot.listing]
    cases hall with
    | cons hrest hnode =>
      rw [List.append_assoc]
      exact hrest.cons (hnode.case fresh .nil)

theorem Block.Covered.commit (h : b.Covered d items) (hfits : b.Fits) :
    b.commit.Covered d items := by
  by_cases hslot : ∃ label, b.slot = .case label
  · obtain ⟨label, hslot⟩ := hslot
    have hbody : b.commit.slot = .body := by
      obtain ⟨t, cases, rest, hnodes, _⟩ := hfits.2 label hslot
      obtain ⟨nodes, slot⟩ := b
      obtain rfl : nodes = .switch t cases :: rest := hnodes
      obtain rfl : slot = .case label := hslot
      rfl
    exact covered_of_body (h.settled hfits) hbody
  · rwa [Block.commit_of_ne_case fun label h => hslot ⟨label, h⟩]

/-- A node that is no switch keeps its text when it takes a body. -/
theorem attach_plain {node body : Node} {rest : List Node} {slot : Slot}
    (hkind : node.kind ≠ .switch) (h : Block.attach ⟨node :: rest, slot⟩ body = .ok p') :
    ∃ node', p' = ⟨node' :: rest, .body⟩ ∧ node'.bare = node.bare ∧
      node'.owned.Subperm (node.owned ++ [body]) := by
  cases node with
  | terminal | comment | list => cases h
  | switch => exact absurd rfl hkind
  | process | call | loop =>
    cases h
    exact ⟨_, rfl, rfl, (List.sublist_append_right _ _).subperm⟩
  | decision t onTrue onFalse =>
    -- the body takes the place of a branch
    have htrue : (onFalse.toList ++ [body]).Subperm
        (onTrue.toList ++ onFalse.toList ++ [body]) := by
      rw [List.append_assoc]
      exact (List.sublist_append_right _ _).subperm
    cases slot with
    | body | case =>
      cases h
      exact ⟨_, rfl, rfl, (@List.perm_append_comm _ [body] _).subperm.trans htrue⟩
    | elseBranch =>
      cases onFalse with
      | some _ => cases h
      | none =>
        cases h
        exact ⟨_, rfl, rfl, by simp [Node.owned, List.Subperm.refl]⟩

theorem attach_error_terminal {body : Node}
    (h : p.attach body = .error (.inconsistent (.cannotHold .terminal))) :
    ∃ t rest, p.nodes = .terminal t :: rest := by
  obtain ⟨nodes, slot⟩ := p
  cases nodes with
  | nil => cases h
  | cons node rest =>
    cases node with
    | terminal t => exact ⟨t, rest, rfl⟩
    | process | call | loop | comment | list => cases h
    | decision _ _ onFalse => cases slot <;> cases onFalse <;> cases h
    | switch => cases slot <;> cases h

/-- The body of a pending case. -/
theorem Block.Covered.attachCase {t label : String} {cases : Cases} {rest : List Node}
    {body : Node} (h : Block.Covered d ⟨.switch t cases :: rest, .case label⟩ before)
    (fresh : label ∉ cases.labels) (hc : CoversAll (d + 1) c.commit.nodes items)
    (hbody : Node.ofBlock c.commit.nodes.reverse = some body) :
    Block.Covered d ⟨.switch t (insertCase label (some body) cases) :: rest, .body⟩
      (before ++ items) := by
  obtain ⟨hall⟩ := h
  cases hall with
  | cons hrest hnode =>
    have hcase := hbody ▸ hnode.case fresh hc
    exact covered_of_body (by simpa [Slot.listing] using hrest.cons hcase) rfl

/-- The body of a node that is no switch. -/
theorem Block.Covered.attachPlain {node body : Node} {rest : List Node} {slot : Slot}
    (h : Block.Covered d ⟨node :: rest, slot⟩ before) (hfits : Block.Fits ⟨node :: rest, slot⟩)
    (hkind : node.kind ≠ .switch) (hc : CoversAll (d + 1) c.commit.nodes items)
    (hbody : Node.ofBlock c.commit.nodes.reverse = some body)
    (hattach : Block.attach ⟨node :: rest, slot⟩ body = .ok p') :
    p'.Covered d (before ++ items) := by
  obtain ⟨node', rfl, hbare, howned⟩ := attach_plain hkind hattach
  have hslot : ∀ label, slot ≠ .case label := by
    rintro label rfl
    obtain ⟨_, _, _, hswitch, _⟩ := hfits.2 label rfl
    cases hswitch
    exact hkind rfl
  have hsettled := h.settled hfits
  rw [commit_of_ne_case hslot] at hsettled
  cases hsettled with
  | cons hrest hnode =>
    have hinner := subperm_flatMap howned
    rw [List.flatMap_append, ← Option.toList_some, ← hbody, switches_ofBlock] at hinner
    have hnest := hnode.nest hkind hbare hc hinner
    exact covered_of_body (by simpa using hrest.cons hnest) rfl

/-- A block that closes gives its statements to the last node of its owner. -/
theorem Block.Covered.closeInto (h : p.Covered d before) (hfits : p.Fits)
    (hc : CoversAll (d + 1) c.commit.nodes items) (hclose : Block.closeInto c p = .ok p') :
    p'.Covered d (before ++ items) := by
  unfold Block.closeInto at hclose
  cases hbody : Node.ofBlock c.commit.nodes.reverse with
  | none =>
    rw [hbody] at hclose
    cases hclose
    rw [List.reverse_eq_nil_iff.1 (ofBlock_eq_none_iff.1 hbody)] at hc
    cases hc
    rwa [List.append_nil]
  | some body =>
    rw [hbody] at hclose
    obtain ⟨nodes, slot⟩ := p
    cases nodes with
    | nil => cases hclose
    | cons node rest =>
      cases node with
      | switch t cases =>
        cases slot with
        | body | elseBranch => cases hclose
        | case label =>
          obtain ⟨_, _, _, hswitch, fresh⟩ := hfits.2 label rfl
          cases hswitch
          cases hclose
          exact h.attachCase fresh hc hbody
      | _ => exact h.attachPlain hfits (by simp [Node.kind]) hc hbody hclose

/-- A block that cannot be closed is lost. -/
theorem Block.Covered.lost {e : Error} (h : p.Covered d before) (hfits : p.Fits) (howner : p.Owner)
    (hc : CoversAll (d + 1) c.commit.nodes items) (hclose : Block.closeInto c p = .error e) :
    p.Covered d (before ++ items) := by
  obtain ⟨hall⟩ := h
  unfold Block.closeInto at hclose
  split at hclose
  · cases hclose
  · obtain rfl := howner.attach_error hall.siblings hfits.1 hclose
    obtain ⟨t, rest, hterminal⟩ := attach_error_terminal hclose
    have hslot : p.slot = .body := by
      cases hslot : p.slot with
      | body => rfl
      | elseBranch =>
        obtain ⟨_, _, _, hdecision⟩ := hfits.1 hslot
        rw [hterminal] at hdecision
        cases hdecision
      | case label =>
        obtain ⟨_, _, _, hswitch, _⟩ := hfits.2 label hslot
        rw [hterminal] at hswitch
        cases hswitch
    refine covered_of_body ?_ hslot
    rw [hterminal] at hall ⊢
    rw [hslot, Slot.listing, List.append_nil]
    cases hall with
    | cons hrest hnode =>
      have hnest := hnode.nest (by simp [Node.kind]) rfl hc (List.sublist_append_left _ _).subperm
      simpa using hrest.cons hnest

/-! ## Placing statements -/

theorem Makes.covers {st : Statement} {node : Node} (h : Makes st node) (d : Nat) :
    Covers d node [(d, st)] := by
  obtain ⟨made, howned⟩ := h.made?
  refine .intro made (by simp) (by simpa [howned] using accounted_nil []) fun t cases hswitch => ?_
  subst hswitch
  cases h
  exact ⟨by simp, rfl, .nil⟩

/-- An accepted statement comes last. -/
theorem Stacked.accept {st : Statement} (h : Stacked (c :: outer) items) (hfits : c.Fits)
    (haccept : Accepted c.commit st b) : Stacked (b :: outer) (items ++ [(outer.length, st)]) := by
  obtain _ | ⟨houter, hc⟩ := h
  have hsettled := hc.settled hfits
  rw [List.append_assoc]
  refine houter.cons ?_
  cases haccept with
  | made hmakes => exact Block.covered_of_body (hsettled.cons (hmakes.covers _)) rfl
  | elseBranch => exact .intro (b := ⟨_, .elseBranch⟩) hsettled
  | case => exact .intro (b := ⟨_, .case _⟩) hsettled

theorem Stacked.closeTo {k : Nat} (h : Stacked (c :: outer) items) (hc : c.Fits)
    (houter : ∀ b ∈ outer, b.Fits ∧ b.Owner) :
    (∀ bs, Blocks.closeTo k c outer = .ok bs → Stacked (bs.current :: bs.outer) items) ∧
    ∀ failure, Blocks.closeTo k c outer = .error failure →
      Stacked (failure.blocks.current :: failure.blocks.outer) items := by
  refine (Blocks.closeTo_invariant
    (I := fun c outer => Stacked (c :: outer) items ∧ c.Fits ∧ ∀ b ∈ outer, b.Fits ∧ b.Owner)
    (fun _ hI hinto => ?closed) (fun _ hI hinto => ?failed) ⟨h, hc, houter⟩).imp_left
      fun hclosed bs hclose => (hclosed bs hclose).1
  case closed =>
    obtain ⟨hstack, hc, houter⟩ := hI
    obtain ⟨⟨hparent, _⟩, houter⟩ := List.forall_mem_cons.1 houter
    obtain _ | ⟨_ | ⟨hbelow, hp⟩, hcovered⟩ := hstack
    -- the statements of the block that closes become the last ones of its owner
    rw [List.append_assoc]
    have hstack := hbelow.cons (hp.closeInto hparent (hcovered.settled hc) hinto)
    exact ⟨hstack, kept_fits.attach hc hparent hinto, houter⟩
  case failed =>
    obtain ⟨hstack, hc, houter⟩ := hI
    obtain ⟨⟨hparent, howner⟩, _⟩ := List.forall_mem_cons.1 houter
    obtain _ | ⟨_ | ⟨hbelow, hp⟩, hcovered⟩ := hstack
    rw [List.append_assoc]
    exact hbelow.cons (hp.lost hparent howner (hcovered.settled hc) hinto)

theorem Stacked.moveTo {bs : Blocks} {k : Nat} (h : Stacked (bs.current :: bs.outer) items)
    (hkeep : bs.Keep Block.Fits) :
    (∀ bs', bs.moveTo k = .ok bs' → Stacked (bs'.current :: bs'.outer) items) ∧
    ∀ failure, bs.moveTo k = .error failure →
      Stacked (failure.blocks.current :: failure.blocks.outer) items := by
  have hclose := h.closeTo hkeep.1 hkeep.2 (k := k)
  refine ⟨fun bs' hmove => ?_, fun failure hmove => ?_⟩
  · rcases Blocks.moveTo_ok hmove with ⟨_, _, _, rfl⟩ | ⟨_, _, hmove⟩
    · have hempty := Block.covered_of_body (b := .empty) (.nil (d := bs.depth.succ)) rfl
      simpa using h.cons hempty
    · exact hclose.1 bs' hmove
  · rcases Blocks.moveTo_error hmove with rfl | hmove
    · exact h
    · exact hclose.2 failure hmove

theorem Stacked.place {bs : Blocks} {item : Nat × Statement}
    (h : Stacked (bs.current :: bs.outer) items) (hkeep : bs.Keep Block.Fits) :
    (∀ bs', bs.place item = .ok bs' → Stacked (bs'.current :: bs'.outer) (items ++ [item])) ∧
    ∀ failure, bs.place item = .error failure →
      Stacked (failure.blocks.current :: failure.blocks.outer) items := by
  obtain ⟨hmoved, hfailed⟩ := h.moveTo hkeep (k := item.1)
  refine ⟨fun bs' hplace => ?_, fun failure hplace => ?_⟩
  · obtain ⟨c, outer, b, hmove, haccept, rfl, hdepth⟩ := Blocks.place_ok hplace
    have haccepted := (hmoved _ hmove).accept (kept_fits.moveTo hkeep hmove).1 haccept
    rwa [hdepth] at haccepted
  · rcases Blocks.place_error hplace with hmove | ⟨c, outer, hmove, hblocks, _⟩
    · exact hfailed failure hmove
    · obtain _ | ⟨houter, hc⟩ := hmoved _ hmove
      rw [hblocks]
      exact houter.cons (hc.commit (kept_fits.moveTo hkeep hmove).1)

theorem Stacked.closeAll {bs : Blocks} {tree : Node} (h : Stacked (bs.current :: bs.outer) items)
    (hkeep : bs.Keep Block.Fits) (hclose : bs.closeAll = .ok (some tree)) :
    tree.shallow = .list (blockAt 0 items) ∧ Accounted tree.switches items := by
  obtain ⟨root, hroot, htree⟩ := Blocks.exists_root_of_closeAll hclose
  have hfits := ((kept_fits.closeTo hkeep.1 hkeep.2).1 _ hroot).1
  obtain _ | ⟨_ | _, hcovered⟩ := (h.closeTo hkeep.1 hkeep.2).1 _ hroot
  have hsettled := hcovered.settled hfits
  have haccount := hsettled.account
  have hblock : blockAt 0 _ = _ := hsettled.blockAt
  rw [List.nil_append, hblock]
  generalize root.commit.nodes.reverse = nodes at htree haccount ⊢
  cases nodes with
  | nil => cases htree
  | cons node rest =>
    cases htree
    rw [Node.switches_eq]
    exact ⟨rfl, haccount⟩

/-! ## A whole reading -/

/-- Whatever a recovery decides, a tree that is returned has the nodes accepted at the outermost
depth. Each switch in it belongs to an accepted `switch`, and each of these to one switch at most.
Its cases are those accepted after it at its depth, in order and each label once, and a case has the
nodes that were accepted directly under it. While the source is read a case is pending only for the
last switch of a block, which does not have its label, and a case that is given to a switch leaves
those that it has as they are. -/
theorem cases_read {recovery : Recovery} {source : String} {tree : Node}
    (h : (read recovery source).result = .ok (some tree)) :
    let items := ((read recovery source).accepted source).map Entry.item
    tree.shallow = .list (blockAt 0 items) ∧ tree.switches.Subperm (switchesIn items) ∧
      (∀ s ∈ tree.switches, (Cases.labels s.2).Nodup) ∧
      ∀ p : Progress Stack, Visits recovery source p →
        ∀ context ∈ p.blocks, context.block.CaseFits ∧ context.block.KeepsCases := by
  have hkeep {p : Progress Blocks} {rest : List (List Char)} (hp : Reached recovery source p rest) :
      p.blocks.Keep Block.Fits := kept_fits.reached hp
  obtain ⟨p, hp, hclose, hstack⟩ := accepted_invariant
    (I := fun bs items => Stacked (bs.current :: bs.outer) items)
    (.cons .nil (Block.covered_of_body .nil rfl))
    (fun hp hstack hplace => (hstack.place (hkeep hp)).1 _ hplace)
    (fun hp hstack hplace => (hstack.place (hkeep hp)).2 _ hplace) h
  obtain ⟨hnodes, hsaid, honce⟩ := hstack.closeAll (hkeep hp) hclose
  refine ⟨hnodes, hsaid, honce, fun visited hvisited context hcontext => ?_⟩
  obtain ⟨q, rfl, hq⟩ := carries_stack.exists_of_visits recovery hvisited
  have hfits := ((kept_fits.visits hq).of_mem hcontext).2
  exact ⟨hfits, hfits.keepsCases⟩

/-- A source read on after a label that was there before and a block under a terminal, which is
lost. -/
theorem cases_read_skipped :
    let source := ":switch s\n:case a\n\tx\n:case a\n\tw\n:case b\n\t:terminal t\n\t\tl\n:case c"
    let report := read (fun _ _ => .skip) source
    let tree := Node.list
      [.switch "s" [("a", some (.process "x" none)), ("b", some (.terminal "t"))]]
    let items := (report.accepted source).map Entry.item
    report.result = .ok (some tree) ∧ report.offers.map Offer.number = [3, 4, 8] ∧
      tree.shallow = .list (blockAt 0 items) ∧ tree.switches.Subperm (switchesIn items) := by
  intro source report tree items
  have hread : report = ⟨[⟨":case a", 3, .duplicateCase "a"⟩, ⟨"\tw", 4, .illegalIndentation⟩,
      ⟨":case c", 8, .inconsistent (.cannotHold .terminal)⟩], .ok (some tree)⟩ := by
    subst source tree report
    rfl
  have hresult : report.result = .ok (some tree) := congrArg Report.result hread
  have hnumbers := congrArg (fun r => r.offers.map Offer.number) hread
  obtain ⟨hnodes, hsaid, _⟩ := cases_read hresult
  exact ⟨hresult, hnumbers, hnodes, hsaid⟩

end ProgramDiagram.Outline
