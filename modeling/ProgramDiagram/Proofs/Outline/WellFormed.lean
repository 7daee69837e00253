import Mathlib.Data.List.DropRight
import ProgramDiagram.Proofs.Diagram.Subtrees
import ProgramDiagram.Proofs.Outline.Reached
import ProgramDiagram.Proofs.Outline.Writing

/-!
# Returned trees are well formed

* `Node.Tidy`, `Node.WellFormed`: what the nodes of a tree that was read look like.
* `wellWorded_entry`: the texts that a statement can give to a node.
* `wellFormed_read`: a reading returns well-formed trees, whatever its recovery does.
-/

namespace ProgramDiagram

open Outline

/-- A text that a process can have. -/
structure ProcessLabel (t : String) : Prop where
  noMarker : marker ∉ t.toList
  colon : t.toList.head? ≠ some ':'
  tab : t.toList.head? ≠ some '\t'

/-- Nodes that follow each other are no lists. -/
def Siblings (nodes : List Node) : Prop := ∀ node ∈ nodes, node.kind ≠ .list

/-- What every node of a tree but its root looks like. -/
def Node.Tidy : Node → Prop
  | .process t _ => ProcessLabel t
  | .terminal t => ArgumentText t
  | .comment t => ArgumentText t
  | .call t _ => ArgumentText t
  | .loop t _ _ => ArgumentText t
  | .decision t _ _ => ArgumentText t
  | .switch t cases => ArgumentText t ∧ ∀ label ∈ Cases.labels cases, ArgumentText label
  | .list children => 2 ≤ children.length ∧ Siblings children

/-- A tree of tidy nodes. -/
def Node.AllTidy (node : Node) : Prop := ∀ m ∈ node.subtrees, m.Tidy

/-- A list at the root, where one node is enough, of trees of tidy nodes. -/
def Node.WellFormed (root : Node) : Prop :=
  ∃ children, root = .list children ∧ children ≠ [] ∧ Siblings children ∧
    ∀ child ∈ children, child.AllTidy

theorem Node.allTidy_iff {node : Node} :
    node.AllTidy ↔ node.Tidy ∧ ∀ child ∈ node.owned, child.AllTidy :=
  Node.forall_subtrees_iff

theorem allTidy_ofBlock {nodes : List Node} {body : Node} (hsiblings : Siblings nodes)
    (htidy : ∀ node ∈ nodes, node.AllTidy) (h : Node.ofBlock nodes = some body) :
    body.AllTidy := by
  match nodes, h with
  | [node], rfl => exact htidy node List.mem_cons_self
  | first :: second :: rest, rfl =>
    have hlength : 2 ≤ (first :: second :: rest).length := by simp
    exact Node.allTidy_iff.2 ⟨⟨hlength, hsiblings⟩, htidy⟩

theorem mem_labels_of_insertCase {label l : String} {body : Option Node} {cases : Cases}
    (h : l ∈ (insertCase label body cases).labels) : l ∈ cases.labels ∨ l = label := by
  induction cases with
  | nil => simpa [insertCase, Cases.labels] using h
  | cons c cases ih =>
    obtain ⟨first, b⟩ := c
    by_cases hfirst : first = label
    · rw [insertCase, if_pos hfirst] at h
      exact .inl h
    · rw [insertCase, if_neg hfirst] at h
      rcases List.mem_cons.1 h with rfl | h
      · exact .inl List.mem_cons_self
      · exact (ih h).imp_left (List.mem_cons_of_mem _)

theorem mem_bodies_of_insertCase {label : String} {body : Option Node} {cases : Cases}
    {node : Node} (h : node ∈ (insertCase label body cases).bodies) :
    node ∈ cases.bodies ∨ body = some node := by
  induction cases with
  | nil =>
    cases body with
    | none => simp [insertCase, Cases.bodies] at h
    | some b => exact .inr (by simpa [insertCase, Cases.bodies, eq_comm] using h)
  | cons c cases ih =>
    obtain ⟨first, b⟩ := c
    have hrest {x : Node} (hx : x ∈ Cases.bodies cases) : x ∈ Cases.bodies ((first, b) :: cases) :=
      ((List.sublist_cons_self (first, b) cases).filterMap Prod.snd).subset hx
    by_cases hfirst : first = label
    · rw [insertCase, if_pos hfirst] at h
      cases body with
      | none => exact .inl (hrest h)
      | some b' =>
        rcases List.mem_cons.1 h with rfl | h
        · exact .inr rfl
        · exact .inl (hrest h)
    · rw [insertCase, if_neg hfirst] at h
      cases b with
      | none => exact (ih h).imp_left hrest
      | some b' =>
        rcases List.mem_cons.1 h with rfl | h
        · exact .inl List.mem_cons_self
        · exact (ih h).imp_left hrest

namespace Outline

/-! ## Texts of statements -/

theorem head?_of_isPrefix {α : Type} {xs ys : List α} (h : xs <+: ys) {x : α}
    (hx : xs.head? = some x) : ys.head? = some x := by
  obtain ⟨rest, rfl⟩ := h
  rw [List.head?_append, hx]
  rfl

theorem trim_isPrefix (cs : List Char) : trim cs <+: trimStart cs :=
  List.rdropWhile_prefix isBlank (trimStart cs)

theorem trim_sublist (cs : List Char) : (trim cs).Sublist cs := by
  exact (trim_isPrefix cs).sublist.trans (List.dropWhile_sublist isBlank)

theorem head?_trim (cs : List Char) : ∀ c ∈ (trim cs).head?, isBlank c = false := by
  intro c hc
  have hstart : (trimStart cs).head? = some c := head?_of_isPrefix (trim_isPrefix cs) hc
  have hnot := List.head?_dropWhile_not isBlank cs
  rw [trimStart] at hstart
  rw [hstart] at hnot
  simpa using hnot

theorem getLast?_trim (cs : List Char) : ∀ c ∈ (trim cs).getLast?, isBlank c = false := by
  intro c hc
  have hne : trim cs ≠ [] := by
    intro hnil
    rw [hnil] at hc
    cases hc
  have hlast := List.rdropWhile_last_not isBlank (trimStart cs) hne
  rw [Option.mem_def, List.getLast?_eq_some_getLast hne, Option.some.injEq] at hc
  rw [← hc]
  exact Bool.eq_false_iff.2 hlast

/-- A statement that can add nodes and labels with proper texts only. -/
def WellWorded : Statement → Prop
  | .process t => ProcessLabel t
  | .command _ (some t) => t ≠ "" → ArgumentText t
  | _ => True

theorem marker_not_mem_bodyOf (rows : List (List Char)) : marker ∉ bodyOf rows := by
  intro h
  obtain ⟨c, _, hc⟩ := List.mem_map.1 h
  split at hc
  · exact absurd hc (by decide)
  · contradiction

theorem head?_row_ne_tab (line : List Char) : (row line).head? ≠ some '\t' := by
  have hstart : (unindented line).head? ≠ some '\t' := by
    intro h
    have hnot := List.head?_dropWhile_not (· = '\t') line
    rw [unindented] at h
    rw [h] at hnot
    simp at hnot
  have hprefix : row line <+: unindented line := by
    unfold row continued? dropLast?
    split
    · exact List.dropLast_prefix _
    · exact List.prefix_refl _
  exact fun h => hstart (head?_of_isPrefix hprefix h)

theorem head?_body_ne_tab (passage : Passage) : passage.entry.body.head? ≠ some '\t' := by
  obtain ⟨first, more⟩ := passage
  have hrow := head?_row_ne_tab first
  simp only [Passage.entry, bodyOf, List.reverse_reverse, List.map_cons, List.head?_map]
  intro h
  obtain ⟨c, hc, htab⟩ := Option.map_eq_some_iff.1 h
  -- a row without characters is followed by a line break
  have hhead : c = '\n' ∨ (row first).head? = some c := by
    cases hfirst : row first with
    | nil =>
      cases more with
      | nil => rw [hfirst] at hc; cases hc
      | cons next more => rw [hfirst] at hc; cases hc; exact .inl rfl
    | cons x rest =>
      cases more with
      | nil => rw [hfirst] at hc; exact .inr hc
      | cons next more => rw [hfirst] at hc; exact .inr hc
  split at htab
  · exact absurd htab (by decide)
  · rcases hhead with rfl | hhead
    · exact absurd htab (by decide)
    · exact hrow (htab ▸ hhead)

theorem wellWorded_ofBody {body : List Char} (hmarker : marker ∉ body)
    (htab : body.head? ≠ some '\t') : WellWorded (.ofBody body) := by
  cases hst : Statement.ofBody body with
  | unknown word => trivial
  | process t =>
    by_cases hcolon : body.head? = some ':'
    · obtain ⟨rest, rfl⟩ := List.head?_eq_some_iff.1 hcolon
      simp only [Statement.ofBody] at hst
      split at hst <;> cases hst
    · rw [ofBody_process hcolon] at hst
      cases hst
      exact ⟨by simpa using hmarker, by simpa using hcolon, by simpa using htab⟩
  | command c argument =>
    obtain ⟨tail, rfl, _, ⟨_, rfl⟩ | ⟨x, rest, _, _, rfl⟩⟩ := directs_iff.2 hst
    · trivial
    · intro hne
      refine ⟨hne, fun hmem => hmarker ?_, ?_, ?_⟩
      · rw [String.toList_ofList] at hmem
        have htail := (trim_sublist tail).subset hmem
        exact List.mem_cons_of_mem _ (List.mem_append_right _ htail)
      · rw [String.toList_ofList]
        exact head?_trim tail
      · rw [String.toList_ofList]
        exact getLast?_trim tail

theorem wellWorded_entry (passage : Passage) : WellWorded passage.entry.statement :=
  wellWorded_ofBody (marker_not_mem_bodyOf _) (head?_body_ne_tab passage)

theorem Makes.allTidy {st : Statement} {node : Node} (h : Makes st node) (hst : WellWorded st) :
    node.kind ≠ .list ∧ node.AllTidy := by
  cases h with
  | process t => exact ⟨by simp [Node.kind], Node.allTidy_iff.2 ⟨hst, by simp [Node.owned]⟩⟩
  | switch ht =>
    refine ⟨by simp [Node.kind], Node.allTidy_iff.2 ⟨⟨hst ht, ?_⟩, ?_⟩⟩
    · simp [Cases.labels]
    · simp [Node.owned, Cases.bodies]
  | call ht | terminal ht | comment ht | whileLoop ht | doWhileLoop ht | decision ht =>
    exact ⟨by simp [Node.kind], Node.allTidy_iff.2 ⟨hst ht, by simp [Node.owned]⟩⟩

/-! ## Open blocks -/

/-- The nodes of a block are tidy trees and no lists, and a case that is pending has a proper
label. -/
structure Block.Tidy (b : Block) : Prop where
  siblings : Siblings b.nodes
  nodes : ∀ node ∈ b.nodes, node.AllTidy
  pending : ∀ label, b.slot = .case label → ArgumentText label

theorem Block.Tidy.replaceLast {node node' : Node} {rest : List Node} {slot : Slot}
    (h : Block.Tidy ⟨node :: rest, slot⟩) (hkind : node'.kind ≠ .list) (hnode : node'.AllTidy) :
    Block.Tidy ⟨node' :: rest, .body⟩ where
  siblings := List.forall_mem_cons.2 ⟨hkind, (List.forall_mem_cons.1 h.siblings).2⟩
  nodes := List.forall_mem_cons.2 ⟨hnode, (List.forall_mem_cons.1 h.nodes).2⟩
  pending := by simp

/-- A case that is put into a tidy switch leaves it tidy. -/
theorem allTidy_insertCase {t label : String} {cases : Cases} (h : (Node.switch t cases).AllTidy)
    (hlabel : ArgumentText label) {body : Option Node} (hbody : ∀ b ∈ body, b.AllTidy) :
    (Node.switch t (insertCase label body cases)).AllTidy := by
  obtain ⟨⟨ht, hlabels⟩, howned⟩ := Node.allTidy_iff.1 h
  refine Node.allTidy_iff.2 ⟨⟨ht, fun l hl => ?_⟩, fun node hnode => ?_⟩
  · rcases mem_labels_of_insertCase hl with hl | rfl
    · exact hlabels l hl
    · exact hlabel
  · rcases mem_bodies_of_insertCase hnode with hnode | hnode
    · exact howned node hnode
    · exact hbody node hnode

theorem Block.Tidy.commit {b : Block} (h : b.Tidy) : b.commit.Tidy := by
  unfold Block.commit
  split
  · rename_i t cases rest label hnodes hslot
    obtain ⟨nodes, slot⟩ := b
    simp only at hnodes hslot
    subst hnodes hslot
    have hswitch := h.nodes _ List.mem_cons_self
    have hcases : (Node.switch t (insertCase label none cases)).AllTidy :=
      allTidy_insertCase hswitch (h.pending label rfl) (by simp)
    exact h.replaceLast (by simp [Node.kind]) hcases
  · exact h

theorem Block.Tidy.attach {p p' : Block} (h : p.Tidy) {body : Node} (hbody : body.AllTidy)
    (hattach : p.attach body = .ok p') : p'.Tidy := by
  obtain ⟨nodes, slot⟩ := p
  cases nodes with
  | nil => cases hattach
  | cons node rest =>
    have hnode := Node.allTidy_iff.1 (h.nodes node List.mem_cons_self)
    -- a node that takes the body beside bodies that it has
    have takes {node' : Node} (hkind : node'.kind ≠ .list) (htidy : node'.Tidy)
        (howned : ∀ child ∈ node'.owned, child ∈ node.owned ∨ child = body) :
        Block.Tidy ⟨node' :: rest, .body⟩ := by
      refine h.replaceLast hkind (Node.allTidy_iff.2 ⟨htidy, fun child hchild => ?_⟩)
      rcases howned child hchild with hold | rfl
      · exact hnode.2 child hold
      · exact hbody
    cases node with
    | terminal | comment | list => cases hattach
    | process | call | loop =>
      cases hattach
      exact takes (by simp [Node.kind]) hnode.1 (by simp [Node.owned])
    | decision t onTrue onFalse =>
      cases slot with
      | body | case =>
        cases hattach
        refine takes (by simp [Node.kind]) hnode.1 ?_
        simp only [Node.owned, List.mem_append]
        grind
      | elseBranch =>
        cases onFalse with
        | some _ => cases hattach
        | none =>
          cases hattach
          refine takes (by simp [Node.kind]) hnode.1 ?_
          simp only [Node.owned, List.mem_append]
          grind
    | switch t cases =>
      cases slot with
      | body | elseBranch => cases hattach
      | case label =>
        cases hattach
        have hcases : (Node.switch t (insertCase label (some body) cases)).AllTidy :=
          allTidy_insertCase (h.nodes _ List.mem_cons_self) (h.pending label rfl)
            (by simpa using hbody)
        exact h.replaceLast (by simp [Node.kind]) hcases

theorem Block.Tidy.closeInto {c p p' : Block} (hc : c.Tidy) (hp : p.Tidy)
    (h : Block.closeInto c p = .ok p') : p'.Tidy := by
  unfold Block.closeInto at h
  cases hbody : Node.ofBlock c.commit.nodes.reverse with
  | none =>
    rw [hbody] at h
    cases h
    exact hp
  | some body =>
    rw [hbody] at h
    have hsiblings : Siblings c.commit.nodes.reverse :=
      fun node hnode => hc.commit.siblings node (List.mem_reverse.1 hnode)
    have htidy : ∀ node ∈ c.commit.nodes.reverse, node.AllTidy :=
      fun node hnode => hc.commit.nodes node (List.mem_reverse.1 hnode)
    exact hp.attach (allTidy_ofBlock hsiblings htidy hbody) h

theorem Block.Tidy.accept {b b' : Block} (h : b.Tidy) {st : Statement} (hst : WellWorded st)
    (haccept : Accepted b st b') : b'.Tidy := by
  cases haccept with
  | made hmakes =>
    obtain ⟨hkind, hnode⟩ := hmakes.allTidy hst
    exact ⟨List.forall_mem_cons.2 ⟨hkind, h.siblings⟩, List.forall_mem_cons.2 ⟨hnode, h.nodes⟩,
      by simp [Block.add]⟩
  | elseBranch => exact ⟨h.siblings, h.nodes, by simp⟩
  | case hlabel =>
    refine ⟨h.siblings, h.nodes, fun label hslot => ?_⟩
    cases hslot
    exact hst hlabel

theorem kept_tidy : Kept Block.Tidy where
  empty := ⟨by simp [Block.empty, Siblings], by simp [Block.empty], by simp [Block.empty]⟩
  commit := Block.Tidy.commit
  attach := Block.Tidy.closeInto
  accept passage h := h.accept (wellWorded_entry passage)

theorem Blocks.Keep.wellFormed {bs : Blocks} (h : bs.Keep Block.Tidy) {tree : Node}
    (hclose : bs.closeAll = .ok (some tree)) : tree.WellFormed := by
  cases hroot : closeTo 0 bs.current bs.outer with
  | error failure => simp [closeAll, hroot] at hclose
  | ok root =>
    have htidy := ((kept_tidy.closeTo h.1 h.2).1 root hroot).1.commit
    obtain ⟨_, hnone, hsome⟩ := closeAll_of_closeTo hroot
    by_cases hnodes : root.current.commit.nodes = []
    · rw [hnone hnodes] at hclose
      cases hclose
    · rw [hsome hnodes] at hclose
      cases hclose
      exact ⟨_, rfl, by simpa using hnodes,
        fun node hnode => htidy.siblings node (List.mem_reverse.1 hnode),
        fun node hnode => htidy.nodes node (List.mem_reverse.1 hnode)⟩

/-- Whatever a recovery decides, a tree that a reading returns is a list of well-formed nodes:
lists below the root hold several nodes and no lists, no text or case label has a marker, only
processes may have blank or untrimmed texts, and these begin with no colon and no tab. -/
theorem wellFormed_read {recovery : Recovery} {source : String} {tree : Node}
    (h : (read recovery source).result = .ok (some tree)) : tree.WellFormed := by
  have hends := ends_read recovery source
  generalize read recovery source = report at h hends
  cases hends with
  | closed hreached => exact (kept_tidy.reached hreached).wellFormed h
  | stopped => cases h
  | interrupted => cases h

/-- A source read on after two refusals, of which the first loses a block. -/
theorem wellFormed_read_skipped :
    let source := ":terminal a\n\tb\nc\n:if  d \n\te@f\n\t:bad\n\tg"
    let tree := Node.list [.terminal "a",
      .decision "d" (some (.list [.process "e\nf" none, .process "g" none])) none]
    (read (fun _ _ => .skip) source).result = .ok (some tree) ∧ tree.WellFormed := by
  intro source tree
  suffices hresult : (read (fun _ _ => .skip) source).result = .ok (some tree) from
    ⟨hresult, wellFormed_read hresult⟩
  subst source tree
  rfl

end Outline

end ProgramDiagram
