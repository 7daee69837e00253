import ProgramDiagram.Proofs.Outline.Passage

/-!
# Placing one statement

What the three parts of placing a statement can do, said once:

* `accept_iff`: a block accepts a statement that adds a node, an `else` after a decision and a
  `case` after a switch, and nothing else;
* `moveTo_ok`: a statement opens one block or closes some;
* `closeTo_invariant`: what closing one block keeps, closing several keeps;
* `closeTo_closeTo`: blocks may be closed in stages.
-/

namespace ProgramDiagram.Outline

theorem required_eq_ok_iff {argument : Option String} {t : String} :
    required argument = .ok t ↔ argument = some t ∧ t ≠ "" := by
  cases argument with
  | none => simp [required]
  | some a =>
    simp only [required, Option.some.injEq]
    split
    · rename_i h
      have ha : a = "" := by simpa using h
      constructor
      · intro h'; cases h'
      · rintro ⟨rfl, ht⟩; exact absurd ha ht
    · rename_i h
      have ha : a ≠ "" := by simpa using h
      constructor
      · intro h'; cases h'; exact ⟨rfl, ha⟩
      · rintro ⟨rfl, _⟩; rfl

/-- The statements that add a node to a block. -/
inductive Makes : Statement → Node → Prop
  | process (t : String) : Makes (.process t) (.process t none)
  | call {t : String} (ht : t ≠ "") : Makes (.command .call (some t)) (.call t none)
  | terminal {t : String} (ht : t ≠ "") : Makes (.command .terminal (some t)) (.terminal t)
  | comment {t : String} (ht : t ≠ "") : Makes (.command .comment (some t)) (.comment t)
  | whileLoop {t : String} (ht : t ≠ "") :
      Makes (.command .whileLoop (some t)) (.loop t true none)
  | doWhileLoop {t : String} (ht : t ≠ "") :
      Makes (.command .doWhileLoop (some t)) (.loop t false none)
  | decision {t : String} (ht : t ≠ "") :
      Makes (.command .decision (some t)) (.decision t none none)
  | switch {t : String} (ht : t ≠ "") : Makes (.command .switch (some t)) (.switch t [])

/-- The last node and the slot of a block as its last statement leaves them. What the slot names is
still empty. -/
inductive Leaves : Statement → Node → Slot → Prop
  | made {st : Statement} {node : Node} (h : Makes st node) : Leaves st node .body
  | elseBranch (t : String) (onTrue : Option Node) :
      Leaves (.command .elseBranch none) (.decision t onTrue none) .elseBranch
  | case (t : String) {cases : Cases} {label : String} (hlabel : label ≠ "")
      (fresh : label ∉ cases.labels) :
      Leaves (.command .case (some label)) (.switch t cases) (.case label)

/-- What becomes of a block that accepts a statement. -/
inductive Accepted (b : Block) : Statement → Block → Prop
  | made {st : Statement} {node : Node} (h : Makes st node) : Accepted b st (b.add node)
  | elseBranch {t : String} {onTrue : Option Node} {rest : List Node}
      (hnodes : b.nodes = .decision t onTrue none :: rest) (hslot : b.slot ≠ .elseBranch) :
      Accepted b (.command .elseBranch none) ⟨b.nodes, .elseBranch⟩
  | case {t : String} {cases : Cases} {rest : List Node} {label : String} (hlabel : label ≠ "")
      (hnodes : b.nodes = .switch t cases :: rest) (fresh : label ∉ cases.labels) :
      Accepted b (.command .case (some label)) ⟨b.nodes, .case label⟩

theorem addLabelled_eq_ok_iff {b b' : Block} {argument : Option String} {node : String → Node} :
    b.addLabelled argument node = .ok b' ↔
      ∃ t, argument = some t ∧ t ≠ "" ∧ b' = b.add (node t) := by
  unfold Block.addLabelled
  cases h : required argument with
  | error e =>
    constructor
    · intro h'; cases h'
    · rintro ⟨t, rfl, ht, _⟩
      rw [required_eq_ok_iff.2 ⟨rfl, ht⟩] at h
      cases h
  | ok t =>
    obtain ⟨rfl, ht⟩ := required_eq_ok_iff.1 h
    constructor
    · intro h'; cases h'; exact ⟨t, rfl, ht, rfl⟩
    · rintro ⟨_, same, _, rfl⟩; cases same; rfl

theorem acceptElse_eq_ok_iff {b b' : Block} {argument : Option String} :
    b.acceptElse argument = .ok b' ↔ argument = none ∧
      (∃ t onTrue rest, b.nodes = .decision t onTrue none :: rest) ∧ b.slot ≠ .elseBranch ∧
      b' = ⟨b.nodes, .elseBranch⟩ := by
  obtain ⟨nodes, slot⟩ := b
  unfold Block.acceptElse
  split
  · rename_i hslot
    simp only at hslot
    simp [hslot]
  · rename_i t onTrue rest hnodes hslot
    simp only at hnodes hslot
    subst hnodes
    cases argument with
    | none =>
      constructor
      · intro h'; cases h'; exact ⟨rfl, ⟨t, onTrue, rest, rfl⟩, hslot, rfl⟩
      · rintro ⟨_, _, _, rfl⟩; rfl
    | some a => simp
  · rename_i hother _
    constructor
    · intro h'; cases h'
    · rintro ⟨_, ⟨t, onTrue, rest, hnodes⟩, _⟩
      exact absurd hnodes (hother t onTrue rest)

theorem acceptCase_eq_ok_iff {b b' : Block} {argument : Option String} :
    b.acceptCase argument = .ok b' ↔ ∃ label, argument = some label ∧ label ≠ "" ∧
      (∃ t cases rest, b.nodes = .switch t cases :: rest ∧ label ∉ Cases.labels cases) ∧
      b' = ⟨b.nodes, .case label⟩ := by
  unfold Block.acceptCase
  split
  · rename_i t cases rest hnodes
    cases h : required argument with
    | error e =>
      constructor
      · intro h'; cases h'
      · rintro ⟨label, rfl, hlabel, _⟩
        rw [required_eq_ok_iff.2 ⟨rfl, hlabel⟩] at h
        cases h
    | ok label =>
      obtain ⟨rfl, hlabel⟩ := required_eq_ok_iff.1 h
      show (if (Cases.labels cases).contains label then Except.error (Error.duplicateCase label)
        else Except.ok (⟨b.nodes, .case label⟩ : Block)) = .ok b' ↔ _
      constructor
      · intro h'
        split at h'
        · cases h'
        · rename_i fresh
          cases h'
          exact ⟨label, rfl, hlabel, ⟨t, cases, rest, hnodes, by simpa using fresh⟩, rfl⟩
      · rintro ⟨_, same, _, ⟨t', cases', rest', hnodes', fresh⟩, rfl⟩
        cases same
        rw [hnodes] at hnodes'
        cases hnodes'
        rw [if_neg (by simpa using fresh)]
  · rename_i hother
    constructor
    · intro h'; cases h'
    · rintro ⟨label, _, _, ⟨t, cases, rest, hnodes, _⟩, _⟩
      exact absurd hnodes (hother t cases rest)

theorem accept_iff {b b' : Block} {st : Statement} : b.accept st = .ok b' ↔ Accepted b st b' := by
  constructor
  · intro h
    cases st with
    | process t => cases h; exact .made (.process t)
    | unknown word => cases h
    | command word argument =>
      cases word with
      | elseBranch =>
        obtain ⟨rfl, ⟨t, onTrue, rest, hnodes⟩, hslot, rfl⟩ := acceptElse_eq_ok_iff.1 h
        exact .elseBranch hnodes hslot
      | case =>
        obtain ⟨label, rfl, hlabel, ⟨t, cases, rest, hnodes, fresh⟩, rfl⟩ :=
          acceptCase_eq_ok_iff.1 h
        exact .case hlabel hnodes fresh
      | _ =>
        obtain ⟨t, rfl, ht, rfl⟩ := addLabelled_eq_ok_iff.1 h
        exact .made (by constructor; exact ht)
  · intro h
    cases h with
    | made h =>
      cases h with
      | process t => rfl
      | _ => exact addLabelled_eq_ok_iff.2 ⟨_, rfl, by assumption, rfl⟩
    | elseBranch hnodes hslot =>
      exact acceptElse_eq_ok_iff.2 ⟨rfl, ⟨_, _, _, hnodes⟩, hslot, rfl⟩
    | case hlabel hnodes fresh =>
      exact acceptCase_eq_ok_iff.2 ⟨_, rfl, hlabel, ⟨_, _, _, hnodes, fresh⟩, rfl⟩

/-- The errors with which a block refuses a statement. -/
inductive RefusedFor : Statement → Error → Prop
  | unknownCommand (word : String) : RefusedFor (.unknown word) (.unknownCommand word)
  | missingArgument (c : Command) (argument : Option String) :
      RefusedFor (.command c argument) .missingArgument
  | misplacedElse (argument : Option String) :
      RefusedFor (.command .elseBranch argument) .misplacedElse
  | unexpectedArgument (argument : Option String) :
      RefusedFor (.command .elseBranch argument) .unexpectedArgument
  | misplacedCase (argument : Option String) :
      RefusedFor (.command .case argument) .misplacedCase
  | duplicateCase (argument : Option String) (label : String) :
      RefusedFor (.command .case argument) (.duplicateCase label)

theorem required_error {argument : Option String} {e : Error} (h : required argument = .error e) :
    e = .missingArgument := by
  unfold required at h
  split at h
  · split at h
    · cases h; rfl
    · cases h
  · cases h; rfl

theorem Block.accept_error {b : Block} {st : Statement} {e : Error} (h : b.accept st = .error e) :
    RefusedFor st e := by
  cases st with
  | process t => cases h
  | unknown word => cases h; exact .unknownCommand word
  | command word argument =>
    have hlabelled {node : String → Node} (h : b.addLabelled argument node = .error e) :
        RefusedFor (.command word argument) e := by
      unfold addLabelled at h
      cases hr : required argument with
      | ok t => rw [hr] at h; cases h
      | error e' =>
        rw [hr] at h
        cases h
        rw [required_error hr]
        exact .missingArgument word argument
    cases word with
    | elseBranch =>
      simp only [accept, acceptElse] at h
      split at h
      · cases h; exact .misplacedElse argument
      · split at h
        · cases h; exact .unexpectedArgument argument
        · cases h
      · cases h; exact .misplacedElse argument
    | case =>
      simp only [accept, acceptCase] at h
      split at h
      · cases hr : required argument with
        | error e' =>
          rw [hr] at h
          cases h
          rw [required_error hr]
          exact .missingArgument _ argument
        | ok label =>
          rw [hr] at h
          simp only [bind, Except.bind] at h
          split at h
          · cases h; exact .duplicateCase argument label
          · cases h
      · cases h; exact .misplacedCase argument
    | _ => exact hlabelled h

theorem RefusedFor.ne_moveTo_error {st : Statement} {e : Error} (h : RefusedFor st e) :
    e ≠ .illegalIndentation ∧ ∀ cause, e ≠ .inconsistent cause := by
  cases h <;> simp

theorem RefusedFor.ne_interrupted {st : Statement} {e : Error} (h : RefusedFor st e)
    (reason : Option String) : e ≠ .interrupted reason := by
  cases h <;> simp

theorem RefusedFor.of_misplacedElse {st : Statement} (h : RefusedFor st .misplacedElse) :
    ∃ argument, st = .command .elseBranch argument := by
  cases h with
  | misplacedElse argument => exact ⟨argument, rfl⟩

/-- A new label comes last. -/
theorem insertCase_of_fresh {label : String} {cases : Cases} (fresh : label ∉ cases.labels)
    (body : Option Node) : insertCase label body cases = cases ++ [(label, body)] := by
  induction cases with
  | nil => rfl
  | cons c cases ih =>
    obtain ⟨l, b⟩ := c
    simp only [Cases.labels, List.map_cons, List.mem_cons, not_or] at fresh
    rw [insertCase, if_neg (Ne.symm fresh.1), ih fresh.2]
    rfl

theorem mem_labels_insertCase {label l : String} {body : Option Node} {cases : Cases}
    (fresh : label ∉ cases.labels) :
    l ∈ (insertCase label body cases).labels ↔ l ∈ cases.labels ∨ l = label := by
  simp [insertCase_of_fresh fresh, Cases.labels]

theorem Block.commit_of_ne_case {b : Block} (h : ∀ label, b.slot ≠ .case label) :
    b.commit = b := by
  unfold Block.commit
  split
  · rename_i label _ hslot
    exact absurd hslot (h label)
  · rfl

theorem Block.commit_case (t : String) (cases : Cases) (rest : List Node) (label : String) :
    Block.commit ⟨.switch t cases :: rest, .case label⟩ =
      ⟨.switch t (insertCase label none cases) :: rest, .body⟩ := rfl

theorem Block.commit_ne_nil {b : Block} (h : b.nodes ≠ []) : b.commit.nodes ≠ [] := by
  unfold Block.commit
  split
  · simp
  · exact h

theorem Accepted.leaves {b b' : Block} {st : Statement} (h : Accepted b st b') :
    ∃ node rest slot, b' = ⟨node :: rest, slot⟩ ∧ Leaves st node slot := by
  cases h with
  | made h => exact ⟨_, _, _, rfl, .made h⟩
  | elseBranch hnodes _ => exact ⟨_, _, _, by rw [hnodes], .elseBranch _ _⟩
  | case hlabel hnodes fresh => exact ⟨_, _, _, by rw [hnodes], .case _ hlabel fresh⟩

/-- A block that can take a body. -/
def Block.Holds (b : Block) : Prop := ∀ body, ∃ b', b.attach body = .ok b'

/-- Whether a block takes a body does not depend on the body. -/
theorem attach_ok {p p' : Block} {body : Node} (h : p.attach body = .ok p') :
    p'.slot = .body ∧ p'.nodes ≠ [] ∧ p.Holds := by
  obtain ⟨nodes, slot⟩ := p
  cases nodes with
  | nil => cases h
  | cons node rest =>
    cases node with
    | terminal | comment | list => cases h
    | process | call | loop => cases h; exact ⟨rfl, by simp, fun _ => ⟨_, rfl⟩⟩
    | decision t onTrue onFalse =>
      cases slot with
      | body | case => cases h; exact ⟨rfl, by simp, fun _ => ⟨_, rfl⟩⟩
      | elseBranch =>
        cases onFalse with
        | none => cases h; exact ⟨rfl, by simp, fun _ => ⟨_, rfl⟩⟩
        | some _ => cases h
    | switch t cases =>
      cases slot with
      | body | elseBranch => cases h
      | case label => cases h; exact ⟨rfl, by simp, fun _ => ⟨_, rfl⟩⟩

theorem Block.Holds.canNest {b : Block} (h : b.Holds) : b.canNest := by
  obtain ⟨nodes, slot⟩ := b
  obtain ⟨b', hb⟩ := h (.list [])
  cases nodes with
  | nil => rfl
  | cons node rest =>
    cases node with
    | comment => cases hb
    | switch t cases =>
      cases slot with
      | body | elseBranch => cases hb
      | case => rfl
    | _ => rfl

theorem ofBlock_eq_none_iff {nodes : List Node} : Node.ofBlock nodes = none ↔ nodes = [] := by
  match nodes with
  | [] => simp [Node.ofBlock]
  | [_] => simp [Node.ofBlock]
  | _ :: _ :: _ => simp [Node.ofBlock]

/-- A block with nodes closes into a body of its owner. -/
theorem closeInto_of_ne_nil {c : Block} (hc : c.nodes ≠ []) (p : Block) :
    ∃ body, Node.ofBlock c.commit.nodes.reverse = some body ∧
      Block.closeInto c p = p.attach body := by
  unfold Block.closeInto
  cases h : Node.ofBlock c.commit.nodes.reverse with
  | none =>
    have hnil := List.reverse_eq_nil_iff.1 (ofBlock_eq_none_iff.1 h)
    exact absurd hnil (Block.commit_ne_nil hc)
  | some body => exact ⟨body, rfl, rfl⟩

namespace Blocks

theorem accept_eq_ok_iff {bs bs' : Blocks} {st : Statement} :
    bs.accept st = .ok bs' ↔
      ∃ b, Accepted bs.current.commit st b ∧ bs' = ⟨b, bs.outer⟩ := by
  simp only [← accept_iff]
  unfold Blocks.accept
  cases bs.current.commit.accept st with
  | ok b => simp [eq_comm]
  | error e => simp

/-- A refused statement has settled a pending case. -/
theorem accept_error {bs : Blocks} {st : Statement} {failure : Failure Blocks}
    (h : bs.accept st = .error failure) :
    failure.blocks = ⟨bs.current.commit, bs.outer⟩ ∧ RefusedFor st failure.error := by
  unfold Blocks.accept at h
  cases haccept : bs.current.commit.accept st with
  | ok b => simp [haccept] at h
  | error e =>
    simp only [haccept] at h
    cases h
    exact ⟨rfl, Block.accept_error haccept⟩

/-! ## Closing -/

theorem closeTo_of_le {d : Nat} {outer : List Block} (h : outer.length ≤ d) (current : Block) :
    closeTo d current outer = .ok ⟨current, outer⟩ := by
  cases outer with
  | nil => rfl
  | cons parent outer =>
    rw [List.length_cons] at h
    rw [closeTo, if_neg (by omega)]

theorem closeTo_cons {d : Nat} {outer : List Block} (h : d ≤ outer.length)
    (current parent : Block) :
    closeTo d current (parent :: outer) =
      match Block.closeInto current parent with
      | .ok parent => closeTo d parent outer
      | .error e => .error ⟨e, ⟨parent, outer⟩⟩ := by
  rw [closeTo]
  exact if_pos (by omega)

/-- What holds of blocks and is kept when one closes into its owner holds of those that closing
leaves, and if one fails to close, what follows from that holds. -/
theorem closeTo_invariant {d : Nat} {I : Block → List Block → Prop} {E : Failure Blocks → Prop}
    (closed : ∀ {c parent p outer}, d ≤ outer.length → I c (parent :: outer) →
      Block.closeInto c parent = .ok p → I p outer)
    (failed : ∀ {c parent e outer}, d ≤ outer.length → I c (parent :: outer) →
      Block.closeInto c parent = .error e → E ⟨e, ⟨parent, outer⟩⟩)
    {c : Block} {outer : List Block} (h : I c outer) :
    (∀ bs, closeTo d c outer = .ok bs → I bs.current bs.outer) ∧
    ∀ failure, closeTo d c outer = .error failure → E failure := by
  induction outer generalizing c with
  | nil =>
    refine ⟨fun bs hclose => ?_, fun failure hclose => ?_⟩
    · cases hclose; exact h
    · cases hclose
  | cons parent outer ih =>
    by_cases hd : d ≤ outer.length
    · rw [closeTo_cons hd]
      cases hinto : Block.closeInto c parent with
      | ok p => exact ih (closed hd h hinto)
      | error e =>
        refine ⟨fun bs hclose => ?_, fun failure hclose => ?_⟩
        · cases hclose
        · cases hclose; exact failed hd h hinto
    · rw [closeTo_of_le (by rw [List.length_cons]; omega)]
      refine ⟨fun bs hclose => ?_, fun failure hclose => ?_⟩
      · cases hclose; exact h
      · cases hclose

theorem closeTo_depth {d : Nat} {current : Block} {outer : List Block} {bs : Blocks}
    (h : closeTo d current outer = .ok bs) : bs.depth = min d outer.length := by
  induction outer generalizing current with
  | nil => cases h; simp [depth]
  | cons parent outer ih =>
    by_cases hd : d ≤ outer.length
    · rw [closeTo_cons hd] at h
      cases hc : Block.closeInto current parent with
      | error e => simp [hc] at h
      | ok parent =>
        simp only [hc] at h
        rw [ih h, List.length_cons]
        omega
    · rw [closeTo_of_le (by rw [List.length_cons]; omega)] at h
      cases h
      simp only [depth, List.length_cons]
      omega

/-- Blocks may be closed in stages. -/
theorem closeTo_closeTo {k m : Nat} (hkm : k ≤ m) {current : Block} {outer : List Block}
    {bs : Blocks} (h : closeTo m current outer = .ok bs) :
    closeTo k bs.current bs.outer = closeTo k current outer := by
  induction outer generalizing current with
  | nil => cases h; rfl
  | cons parent outer ih =>
    by_cases hm : m ≤ outer.length
    · rw [closeTo_cons hm] at h
      rw [closeTo_cons (Nat.le_trans hkm hm)]
      cases hc : Block.closeInto current parent with
      | error e => simp [hc] at h
      | ok parent =>
        simp only [hc] at h
        exact ih h
    · rw [closeTo_of_le (by rw [List.length_cons]; omega)] at h
      cases h
      rfl

/-- Closing all blocks leaves the outermost one, whose nodes are the tree. -/
theorem closeAll_of_closeTo {bs : Blocks} {c : Block} {outer : List Block}
    (h : closeTo 0 bs.current bs.outer = .ok ⟨c, outer⟩) :
    outer = [] ∧ (c.commit.nodes = [] → bs.closeAll = .ok none) ∧
      (c.commit.nodes ≠ [] → bs.closeAll = .ok (some (.list c.commit.nodes.reverse))) := by
  refine ⟨?_, ?_, ?_⟩
  · have hdepth := closeTo_depth h
    simpa [depth] using hdepth
  · intro hnil
    simp only [closeAll, h, hnil]
  · intro hne
    cases hnodes : c.commit.nodes with
    | nil => exact absurd hnodes hne
    | cons node rest => simp only [closeAll, h, hnodes]

/-! ## Moving to a depth -/

theorem moveTo_of_le {bs : Blocks} {d : Nat} (hd : d ≤ bs.depth)
    (h : bs.current.nodes ≠ [] ∨ d = 0) :
    bs.moveTo d = closeTo d bs.current bs.outer := by
  unfold moveTo
  rw [if_neg, if_neg (by omega)]
  rcases h with h | h <;> simp [h]

theorem moveTo_depth {bs : Blocks} (h : bs.current.nodes ≠ []) : bs.moveTo bs.depth = .ok bs := by
  rw [moveTo_of_le (Nat.le_refl _) (.inl h)]
  exact closeTo_of_le (Nat.le_refl _) bs.current

theorem moveTo_succ {bs : Blocks} (h : bs.current.nodes ≠ []) (hn : bs.current.canNest) :
    bs.moveTo (bs.depth + 1) = .ok ⟨.empty, bs.current :: bs.outer⟩ := by
  unfold moveTo
  simp [h, hn]

/-- A statement opens a block in one that can take it, or closes blocks down to its depth. -/
theorem moveTo_ok {bs bs' : Blocks} {d : Nat} (h : bs.moveTo d = .ok bs') :
    (d = bs.depth + 1 ∧ bs.current.nodes ≠ [] ∧ bs.current.canNest ∧
      bs' = ⟨.empty, bs.current :: bs.outer⟩) ∨
    (d ≤ bs.depth ∧ (bs.current.nodes ≠ [] ∨ d = 0) ∧
      closeTo d bs.current bs.outer = .ok bs') := by
  unfold moveTo at h
  split at h
  · cases h
  · rename_i hempty
    have hnodes : bs.current.nodes ≠ [] ∨ d = 0 := by
      simp only [Bool.and_eq_true, decide_eq_true_eq, List.isEmpty_iff, not_and] at hempty
      by_cases hd : d = 0
      · exact .inr hd
      · exact .inl (hempty (by omega))
    split at h
    · rename_i hlt
      split at h
      · cases h
      · rename_i hn
        simp only [Bool.or_eq_true, decide_eq_true_eq, Bool.not_eq_true', not_or,
          Bool.not_eq_false] at hn
        cases h
        exact .inl ⟨by omega, hnodes.resolve_right (by omega), hn.2, rfl⟩
    · exact .inr ⟨by omega, hnodes, h⟩

/-- A depth is refused as such, or for a block that cannot be closed. -/
theorem moveTo_error {bs : Blocks} {d : Nat} {failure : Failure Blocks}
    (h : bs.moveTo d = .error failure) :
    failure = ⟨.illegalIndentation, bs⟩ ∨ closeTo d bs.current bs.outer = .error failure := by
  unfold moveTo at h
  split at h
  · cases h; exact .inl rfl
  · split at h
    · split at h
      · cases h; exact .inl rfl
      · cases h
    · exact .inr h

/-- A statement that is placed stands at its depth, last in its block. -/
theorem place_ok {bs bs' : Blocks} {item : Nat × Statement} (h : bs.place item = .ok bs') :
    ∃ c outer b, bs.moveTo item.1 = .ok ⟨c, outer⟩ ∧ Accepted c.commit item.2 b ∧
      bs' = ⟨b, outer⟩ ∧ outer.length = item.1 := by
  unfold place at h
  cases hmove : bs.moveTo item.1 with
  | error failure => rw [hmove] at h; cases h
  | ok opened =>
    rw [hmove] at h
    obtain ⟨b, haccept, rfl⟩ := accept_eq_ok_iff.1 h
    refine ⟨opened.current, opened.outer, b, rfl, haccept, rfl, ?_⟩
    rcases moveTo_ok hmove with ⟨hd, _, _, rfl⟩ | ⟨hd, _, hclose⟩
    · exact hd.symm
    · have := closeTo_depth hclose
      simp only [depth] at this hd
      omega

theorem place_of_moveTo {bs : Blocks} {item : Nat × Statement} {c b : Block} {outer : List Block}
    (hmove : bs.moveTo item.1 = .ok ⟨c, outer⟩) (h : Accepted c.commit item.2 b) :
    bs.place item = .ok ⟨b, outer⟩ := by
  unfold place
  rw [hmove]
  exact accept_eq_ok_iff.2 ⟨b, h, rfl⟩

/-- A statement is refused for its depth or by the block that it has moved to. -/
theorem place_error {bs : Blocks} {item : Nat × Statement} {failure : Failure Blocks}
    (h : bs.place item = .error failure) :
    bs.moveTo item.1 = .error failure ∨
      ∃ c outer, bs.moveTo item.1 = .ok ⟨c, outer⟩ ∧ failure.blocks = ⟨c.commit, outer⟩ ∧
        RefusedFor item.2 failure.error := by
  unfold place at h
  cases hmove : bs.moveTo item.1 with
  | error failure' => rw [hmove] at h; cases h; exact .inl rfl
  | ok opened =>
    rw [hmove] at h
    exact .inr ⟨opened.current, opened.outer, rfl, accept_error h⟩

theorem place_of_moveTo_error {bs : Blocks} {item : Nat × Statement} {failure : Failure Blocks}
    (h : bs.moveTo item.1 = .error failure) : bs.place item = .error failure := by
  unfold place
  rw [h]
  rfl

end Blocks

end ProgramDiagram.Outline
