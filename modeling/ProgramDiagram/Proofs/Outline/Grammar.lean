import ProgramDiagram.Proofs.Outline.Wording

/-!
# The grammar of an outline

Conditions on the statements of a source, each with its depth and its body:

* `DepthFits`: how deep a statement may stand after those before it;
* `BodyFits`: what it may say there;
* `Grammatical`: every statement fits after those before it;
* `parse_ok_iff_grammatical`: these are the sources that have a tree.

The reader keeps a stack of open blocks instead. `Level` ties one open block to the statements
placed so far, `Meets` does the same for the block that the next statement finds at its depth.
-/

namespace ProgramDiagram.Outline

/-! ## Statements before a statement -/

/-- After the statements `before`, `p` is the previous statement of the block at a depth: no later
one stands at that depth or less deep. -/
def Precedes (before : List Entry) (depth : Nat) (p : Entry) : Prop :=
  ∃ earlier between, before = earlier ++ p :: between ∧ p.depth = depth ∧
    ∀ m ∈ between, depth < m.depth

def Entry.Says (e : Entry) (word : String) : Prop := ∃ argument, Directs e.body word argument

/-- After the statements `before`, the switch at a depth has a case with the label: since then only
further cases have followed at that depth, and none less deep. -/
def HasCase (before : List Entry) (depth : Nat) (label : String) : Prop :=
  ∃ earlier c between, before = earlier ++ c :: between ∧ c.depth = depth ∧
    Directs c.body "case" (some label) ∧
    ∀ m ∈ between, depth < m.depth ∨ m.depth = depth ∧ m.Says "case"

/-- The first statement stands at depth zero. Any other is at most one deeper than the last, and
deeper only if the last can hold it. -/
structure DepthFits (before : List Entry) (depth : Nat) : Prop where
  first : before = [] → depth = 0
  step : ∀ p ∈ before.getLast?, depth ≤ p.depth + 1
  nests : ∀ p ∈ before.getLast?, depth = p.depth + 1 →
    ¬ p.Says "comment" ∧ ¬ p.Says "terminal" ∧ ¬ p.Says "switch"

/-- An `else` comes next after its `if`, a `case` after its switch or another case, and with a label
of its own. -/
structure BodyFits (before : List Entry) (e : Entry) : Prop where
  written : WellWritten e.body
  afterIf : e.Says "else" → ∃ p, Precedes before e.depth p ∧ p.Says "if"
  afterSwitch : e.Says "case" →
    ∃ p, Precedes before e.depth p ∧ (p.Says "switch" ∨ p.Says "case")
  newLabel : ∀ label, Directs e.body "case" (some label) → ¬ HasCase before e.depth label

def Grammatical (es : List Entry) : Prop :=
  ∀ before e after, es = before ++ e :: after → DepthFits before e.depth ∧ BodyFits before e

theorem append_cons_eq_concat {α : Type} {xs earlier between : List α} {x p : α} :
    xs ++ [x] = earlier ++ p :: between ↔
      (between = [] ∧ xs = earlier ∧ x = p) ∨
      ∃ between', between = between' ++ [x] ∧ xs = earlier ++ p :: between' := by
  constructor
  · intro h
    rcases List.eq_nil_or_concat between with rfl | ⟨between', y, hb⟩
    · obtain ⟨rfl, hx⟩ := List.append_inj' h rfl
      cases hx
      exact .inl ⟨rfl, rfl, rfl⟩
    · rw [List.concat_eq_append] at hb
      subst hb
      rw [← List.cons_append, ← List.append_assoc] at h
      obtain ⟨rfl, hx⟩ := List.append_inj' h rfl
      cases hx
      exact .inr ⟨between', rfl, rfl⟩
  · rintro (⟨rfl, rfl, rfl⟩ | ⟨between', rfl, rfl⟩)
    · rfl
    · simp

theorem grammatical_concat {es : List Entry} {e : Entry} :
    Grammatical (es ++ [e]) ↔ Grammatical es ∧ DepthFits es e.depth ∧ BodyFits es e := by
  constructor
  · intro h
    refine ⟨fun before m after hes => ?_, h es e [] rfl⟩
    exact h before m (after ++ [e]) (by simp [hes])
  · rintro ⟨hes, he⟩ before m after h
    rcases append_cons_eq_concat.1 h with ⟨_, rfl, rfl⟩ | ⟨after', _, hafter⟩
    · exact he
    · exact hes before m after' hafter

theorem not_precedes_nil {depth : Nat} {p : Entry} : ¬ Precedes [] depth p := by
  rintro ⟨earlier, between, h, _⟩
  cases earlier <;> cases h

theorem precedes_concat {before : List Entry} {m p : Entry} {depth : Nat} :
    Precedes (before ++ [m]) depth p ↔
      (p = m ∧ m.depth = depth) ∨ (depth < m.depth ∧ Precedes before depth p) := by
  constructor
  · rintro ⟨earlier, between, h, hp, hbetween⟩
    rcases append_cons_eq_concat.1 h with ⟨_, _, rfl⟩ | ⟨between', rfl, rfl⟩
    · exact .inl ⟨rfl, hp⟩
    · refine .inr ⟨hbetween m (by simp), earlier, between', rfl, hp, fun x hx => ?_⟩
      exact hbetween x (by simp [hx])
  · rintro (⟨rfl, hp⟩ | ⟨hm, earlier, between, rfl, hp, hbetween⟩)
    · exact ⟨before, [], rfl, hp, by simp⟩
    · refine ⟨earlier, between ++ [m], by simp, hp, fun x hx => ?_⟩
      rcases List.mem_append.1 hx with hx | hx
      · exact hbetween x hx
      · rw [List.mem_singleton.1 hx]; exact hm

theorem hasCase_concat {before : List Entry} {m : Entry} {depth : Nat} {label : String} :
    HasCase (before ++ [m]) depth label ↔
      (m.depth = depth ∧ Directs m.body "case" (some label)) ∨
      ((depth < m.depth ∨ m.depth = depth ∧ m.Says "case") ∧ HasCase before depth label) := by
  constructor
  · rintro ⟨earlier, c, between, h, hc, hlabel, hbetween⟩
    rcases append_cons_eq_concat.1 h with ⟨_, _, rfl⟩ | ⟨between', rfl, rfl⟩
    · exact .inl ⟨hc, hlabel⟩
    · refine .inr ⟨hbetween m (by simp), earlier, c, between', rfl, hc, hlabel, fun x hx => ?_⟩
      exact hbetween x (by simp [hx])
  · rintro (⟨hm, hlabel⟩ | ⟨hm, earlier, c, between, rfl, hc, hlabel, hbetween⟩)
    · exact ⟨before, m, [], rfl, hm, hlabel, by simp⟩
    · refine ⟨earlier, c, between ++ [m], by simp, hc, hlabel, fun x hx => ?_⟩
      rcases List.mem_append.1 hx with hx | hx
      · exact hbetween x hx
      · rw [List.mem_singleton.1 hx]; exact hm

theorem Precedes.unique {before : List Entry} {depth : Nat} {p q : Entry}
    (hp : Precedes before depth p) (hq : Precedes before depth q) : p = q := by
  induction before using List.reverseRecOn with
  | nil => exact absurd hp not_precedes_nil
  | append_singleton before m ih =>
    rcases precedes_concat.1 hp with ⟨rfl, hm⟩ | ⟨hm, hp⟩
    · rcases precedes_concat.1 hq with ⟨rfl, _⟩ | ⟨hm', _⟩
      · rfl
      · omega
    · rcases precedes_concat.1 hq with ⟨rfl, hm'⟩ | ⟨_, hq⟩
      · omega
      · exact ih hp hq

/-- Labels are taken only where a case comes last. -/
theorem HasCase.says_case {before : List Entry} {depth : Nat} {label : String} {p : Entry}
    (h : HasCase before depth label) (hp : Precedes before depth p) : p.Says "case" := by
  induction before using List.reverseRecOn with
  | nil => exact absurd hp not_precedes_nil
  | append_singleton before m ih =>
    rcases precedes_concat.1 hp with ⟨rfl, hm⟩ | ⟨hm, hp⟩
    · rcases hasCase_concat.1 h with ⟨_, hlabel⟩ | ⟨hdeep | ⟨_, hcase⟩, _⟩
      · exact ⟨_, hlabel⟩
      · omega
      · exact hcase
    · rcases hasCase_concat.1 h with ⟨hm', _⟩ | ⟨_, h⟩
      · omega
      · exact ih h hp

/-! ## Open blocks and the statements placed so far -/

/-- The last statement of the block at a depth has left the block as it is. -/
def Level (before : List Entry) (depth : Nat) (b : Block) : Prop :=
  ∃ p node rest slot, Precedes before depth p ∧ b = ⟨node :: rest, slot⟩ ∧
    Leaves p.statement node slot ∧
    ∀ t cases label, node = .switch t cases → slot = .case label →
      ∀ l, HasCase before depth l ↔ l ∈ Cases.labels cases ∨ l = label

def Levels (before : List Entry) : List Block → Prop
  | [] => True
  | b :: outer => Level before outer.length b ∧ Levels before outer

/-- The open blocks are those of the statements placed so far. -/
def Tracks (before : List Entry) (bs : Blocks) : Prop :=
  (before = [] ∧ bs = .start) ∨
    (∃ p ∈ before.getLast?, p.depth = bs.depth) ∧ Levels before (bs.current :: bs.outer)

/-- What a statement that comes next at a depth can see of the statements before it is what it
finds in the block there. -/
structure Meets (before : List Entry) (depth : Nat) (c : Block) : Prop where
  decision : ((∃ t onTrue rest, c.nodes = .decision t onTrue none :: rest) ∧
      c.slot ≠ .elseBranch) ↔ ∃ p, Precedes before depth p ∧ p.Says "if"
  switch : ∀ label, (∃ t cases rest, c.nodes = .switch t cases :: rest ∧
      label ∉ Cases.labels cases) ↔
    (∃ p, Precedes before depth p ∧ (p.Says "switch" ∨ p.Says "case")) ∧
      ¬ HasCase before depth label

theorem says_iff {e : Entry} {c : Command} :
    e.Says c.word ↔ ∃ argument, e.statement = .command c argument := by
  simp only [Entry.Says, directs_iff, Entry.statement]

theorem says_if {e : Entry} : e.Says "if" ↔ ∃ a, e.statement = .command .decision a :=
  says_iff (c := .decision)

theorem says_switch {e : Entry} : e.Says "switch" ↔ ∃ a, e.statement = .command .switch a :=
  says_iff (c := .switch)

theorem says_case {e : Entry} : e.Says "case" ↔ ∃ a, e.statement = .command .case a :=
  says_iff (c := .case)

theorem says_else {e : Entry} : e.Says "else" ↔ ∃ a, e.statement = .command .elseBranch a :=
  says_iff (c := .elseBranch)

theorem says_comment {e : Entry} : e.Says "comment" ↔ ∃ a, e.statement = .command .comment a :=
  says_iff (c := .comment)

theorem says_terminal {e : Entry} :
    e.Says "terminal" ↔ ∃ a, e.statement = .command .terminal a :=
  says_iff (c := .terminal)

theorem directs_case_iff {e : Entry} {label : String} :
    Directs e.body "case" (some label) ↔ e.statement = .command .case (some label) :=
  directs_iff (c := .case)

theorem Entry.wellWritten_iff {e : Entry} :
    WellWritten e.body ↔ (∃ t, e.statement = .process t) ∨
      e.statement = .command .elseBranch none ∨
      ∃ c t, c ≠ .elseBranch ∧ t ≠ "" ∧ e.statement = .command c (some t) :=
  Outline.wellWritten_iff

theorem Meets.of_precedes {before : List Entry} {depth : Nat} {p : Entry} {c : Block}
    (hp : Precedes before depth p)
    (decision : ((∃ t onTrue rest, c.nodes = .decision t onTrue none :: rest) ∧
      c.slot ≠ .elseBranch) ↔ p.Says "if")
    (switch : ∀ label, (∃ t cases rest, c.nodes = .switch t cases :: rest ∧
        label ∉ Cases.labels cases) ↔
      (p.Says "switch" ∨ p.Says "case") ∧ ¬ HasCase before depth label) :
    Meets before depth c := by
  have hunique (P : Entry → Prop) : (∃ q, Precedes before depth q ∧ P q) ↔ P p := by
    constructor
    · rintro ⟨q, hq, h⟩
      rw [hp.unique hq]
      exact h
    · exact fun h => ⟨p, hp, h⟩
  constructor
  · rw [decision, hunique]
  · intro label
    rw [switch, hunique]

/-- Whether or not a body has gone into the last node of a block, the next statement there finds
what the statements before it tell. -/
theorem Level.meets {before : List Entry} {depth : Nat} {b c : Block} (h : Level before depth b)
    (hc : c = b.commit ∨ ∃ body, b.attach body = .ok c) : Meets before depth c := by
  obtain ⟨p, node, rest, slot, hp, rfl, hleaves, hlabels⟩ := h
  generalize hst : p.statement = st at hleaves
  refine .of_precedes hp ?_ ?_
  · rw [says_if, hst]
    cases hleaves with
    | made hmakes =>
      rcases hc with rfl | ⟨body, hc⟩
      · cases hmakes <;> simp [Block.commit]
      · cases hmakes <;> cases hc <;> simp
    | elseBranch t onTrue =>
      rcases hc with rfl | ⟨body, hc⟩
      · simp [Block.commit]
      · cases hc; simp
    | case t hlabel fresh =>
      rcases hc with rfl | ⟨body, hc⟩
      · simp [Block.commit]
      · cases hc; simp
  · intro label
    have hcase : HasCase before depth label → ∃ a, st = .command .case a := by
      intro h
      rw [← hst]
      exact says_case.1 (h.says_case hp)
    rw [says_switch, says_case, hst]
    cases hleaves with
    | made hmakes =>
      have hnone : ¬ HasCase before depth label := by
        intro h
        obtain ⟨a, rfl⟩ := hcase h
        cases hmakes
      rcases hc with rfl | ⟨body, hc⟩
      · cases hmakes <;> simp [Block.commit, hnone, Cases.labels]
      · cases hmakes <;> cases hc <;> simp
    | elseBranch t onTrue =>
      rcases hc with rfl | ⟨body, hc⟩
      · simp [Block.commit]
      · cases hc; simp
    | case t hlabel fresh =>
      rw [hlabels t _ _ rfl rfl]
      rcases hc with rfl | ⟨body, hc⟩
      · simp [Block.commit, mem_labels_insertCase fresh]
      · cases hc; simp [mem_labels_insertCase fresh]

theorem meets_empty {before : List Entry} {depth : Nat} (h : ∀ p, ¬ Precedes before depth p) :
    Meets before depth .empty := by
  constructor
  · simp [Block.empty, h]
  · simp [Block.empty, h]

/-- A block accepts what fits after the statements before. -/
theorem accepted_iff_bodyFits {before : List Entry} {e : Entry} {c : Block}
    (hm : Meets before e.depth c) : (∃ b, Accepted c e.statement b) ↔ BodyFits before e := by
  constructor
  · rintro ⟨b, h⟩
    generalize hst : e.statement = st at h
    cases h with
    | made h =>
      refine ⟨e.wellWritten_iff.2 ?_, ?_, ?_, ?_⟩
      · rw [hst]
        cases h with
        | process t => exact .inl ⟨t, rfl⟩
        | _ => exact .inr (.inr ⟨_, _, by decide, by assumption, rfl⟩)
      · rw [says_else, hst]; rintro ⟨_, rfl⟩; cases h
      · rw [says_case, hst]; rintro ⟨_, rfl⟩; cases h
      · intro label; rw [directs_case_iff, hst]; rintro rfl; cases h
    | elseBranch hnodes hslot =>
      refine ⟨e.wellWritten_iff.2 (.inr (.inl hst)), fun _ => ?_, ?_, ?_⟩
      · exact hm.decision.1 ⟨⟨_, _, _, hnodes⟩, hslot⟩
      · rw [says_case, hst]; rintro ⟨_, h⟩; cases h
      · intro label; rw [directs_case_iff, hst]; intro h; cases h
    | case hlabel hnodes fresh =>
      obtain ⟨hbefore, hnew⟩ := (hm.switch _).1 ⟨_, _, _, hnodes, fresh⟩
      refine ⟨e.wellWritten_iff.2 (.inr (.inr ⟨_, _, by decide, hlabel, hst⟩)), ?_,
        fun _ => hbefore, ?_⟩
      · rw [says_else, hst]; rintro ⟨_, h⟩; cases h
      · intro label; rw [directs_case_iff, hst]; intro h; cases h; exact hnew
  · intro h
    rcases e.wellWritten_iff.1 h.written with ⟨t, hst⟩ | hst | ⟨c, t, hc, ht, hst⟩
    · rw [hst]
      exact ⟨_, .made (.process t)⟩
    · obtain ⟨⟨t, onTrue, rest, hnodes⟩, hslot⟩ :=
        hm.decision.2 (h.afterIf (says_else.2 ⟨_, hst⟩))
      rw [hst]
      exact ⟨_, .elseBranch hnodes hslot⟩
    · rw [hst]
      cases c with
      | elseBranch => exact absurd rfl hc
      | case =>
        obtain ⟨t', cases, rest, hnodes, fresh⟩ := (hm.switch t).2
          ⟨h.afterSwitch (says_case.2 ⟨_, hst⟩), h.newLabel t (directs_case_iff.2 hst)⟩
        exact ⟨_, .case ht hnodes fresh⟩
      | _ => exact ⟨_, .made (by constructor; exact ht)⟩

/-- The block of the statement placed last. -/
theorem Accepted.level {before : List Entry} {e : Entry} {c b : Block}
    (hm : Meets before e.depth c) (h : Accepted c e.statement b) :
    Level (before ++ [e]) e.depth b := by
  have hlast : Precedes (before ++ [e]) e.depth e := precedes_concat.2 (.inl ⟨rfl, rfl⟩)
  generalize hst : e.statement = st at h
  cases h with
  | made hmakes =>
    refine ⟨e, _, _, _, hlast, rfl, hst ▸ .made hmakes, ?_⟩
    intro t cases label _ hslot
    cases hslot
  | @elseBranch t onTrue rest hnodes hslot =>
    refine ⟨e, .decision t onTrue none, rest, .elseBranch, hlast, by rw [hnodes], ?_, ?_⟩
    · rw [hst]; exact .elseBranch t onTrue
    intro t cases label hnode
    cases hnode
  | @case t cases rest label hlabel hnodes fresh =>
    refine ⟨e, .switch t cases, rest, .case label, hlast, by rw [hnodes], ?_, ?_⟩
    · rw [hst]; exact .case t hlabel fresh
    intro t' cases' label' hnode hslot l
    cases hnode
    cases hslot
    have hbefore := ((hm.switch label).1 ⟨t, cases, rest, hnodes, fresh⟩).1
    -- the labels that the switch has are those of the cases before
    have hknown : HasCase before e.depth l ↔ l ∈ Cases.labels cases := by
      constructor
      · intro hl
        by_contra hnew
        exact ((hm.switch l).1 ⟨t, cases, rest, hnodes, hnew⟩).2 hl
      · intro hl
        by_contra hnew
        obtain ⟨_, _, _, hnodes', fresh'⟩ := (hm.switch l).2 ⟨hbefore, hnew⟩
        rw [hnodes] at hnodes'
        cases hnodes'
        exact fresh' hl
    rw [hasCase_concat, directs_case_iff, says_case, hst, hknown]
    constructor
    · rintro (⟨_, h⟩ | ⟨_, h⟩)
      · cases h; exact .inr rfl
      · exact .inl h
    · rintro (h | rfl)
      · exact .inr ⟨.inr ⟨rfl, _, rfl⟩, h⟩
      · exact .inl ⟨rfl, rfl⟩

/-- A deeper statement leaves a block as it is. -/
theorem Level.concat {before : List Entry} {depth : Nat} {b : Block} (h : Level before depth b)
    {e : Entry} (he : depth < e.depth) : Level (before ++ [e]) depth b := by
  obtain ⟨p, node, rest, slot, hp, rfl, hleaves, hlabels⟩ := h
  refine ⟨p, node, rest, slot, precedes_concat.2 (.inr ⟨he, hp⟩), rfl, hleaves, ?_⟩
  intro t cases label hnode hslot l
  rw [hasCase_concat, ← hlabels t cases label hnode hslot l]
  constructor
  · rintro (⟨h, _⟩ | ⟨_, h⟩)
    · omega
    · exact h
  · exact fun h => .inr ⟨.inl he, h⟩

theorem Levels.concat {before : List Entry} {outer : List Block} (h : Levels before outer)
    {e : Entry} (he : outer.length ≤ e.depth) : Levels (before ++ [e]) outer := by
  induction outer with
  | nil => trivial
  | cons b outer ih =>
    rw [List.length_cons] at he
    exact ⟨h.1.concat (by omega), ih h.2 (by omega)⟩

theorem Level.ne_nil {before : List Entry} {depth : Nat} {b : Block} (h : Level before depth b) :
    b.nodes ≠ [] := by
  obtain ⟨_, _, _, _, _, rfl, _⟩ := h
  simp

/-! ## Closing and placing -/

/-- A block closes only into one that can hold it. -/
theorem closeTo_meets {before : List Entry} {d : Nat} {c : Block} {outer : List Block}
    (hc : c.nodes ≠ []) (hm : Meets before outer.length c.commit) (ho : Levels before outer)
    {bs : Blocks} (h : Blocks.closeTo d c outer = .ok bs) :
    bs.current.nodes ≠ [] ∧ Meets before bs.depth bs.current.commit ∧ Levels before bs.outer ∧
      ((∀ b ∈ bs.outer, b.Holds) → ∀ b ∈ outer, b.Holds) := by
  induction outer generalizing c with
  | nil => cases h; exact ⟨hc, hm, ho, id⟩
  | cons parent outer ih =>
    by_cases hd : d ≤ outer.length
    · rw [Blocks.closeTo_cons hd] at h
      obtain ⟨body, _, hclose⟩ := closeInto_of_ne_nil hc parent
      cases hattach : parent.attach body with
      | error e => simp [hclose, hattach] at h
      | ok p =>
        simp only [hclose, hattach] at h
        obtain ⟨hslot, hnodes, hholds⟩ := attach_ok hattach
        have hcommit : p.commit = p := Block.commit_of_ne_case (by simp [hslot])
        obtain ⟨hne, hmeets, hlevels, hall⟩ := ih hnodes
          (hcommit.symm ▸ ho.1.meets (.inr ⟨body, hattach⟩)) ho.2 h
        refine ⟨hne, hmeets, hlevels, fun hb b hmem => ?_⟩
        rcases List.mem_cons.1 hmem with rfl | hmem
        · exact hholds
        · exact hall hb b hmem
    · rw [Blocks.closeTo_of_le (by rw [List.length_cons]; omega)] at h
      cases h
      exact ⟨hc, hm, ho, id⟩

theorem closeTo_of_holds {d : Nat} {c : Block} {outer : List Block} (hc : c.nodes ≠ [])
    (ho : ∀ b ∈ outer, b.Holds) :
    ∃ bs, Blocks.closeTo d c outer = .ok bs ∧ ∀ b ∈ bs.outer, b.Holds := by
  induction outer generalizing c with
  | nil => exact ⟨⟨c, []⟩, rfl, ho⟩
  | cons parent outer ih =>
    by_cases hd : d ≤ outer.length
    · obtain ⟨body, _, hclose⟩ := closeInto_of_ne_nil hc parent
      obtain ⟨p, hattach⟩ := ho parent List.mem_cons_self body
      rw [Blocks.closeTo_cons hd, hclose, hattach]
      exact ih (attach_ok hattach).2.1 fun b hb => ho b (List.mem_cons_of_mem _ hb)
    · rw [Blocks.closeTo_of_le (by rw [List.length_cons]; omega)]
      exact ⟨_, rfl, ho⟩

/-- A block can take a body if its last statement can have one. -/
theorem Level.holds_iff {before : List Entry} {depth : Nat} {b : Block}
    (h : Level before depth b) {p : Entry} (hp : Precedes before depth p) :
    b.Holds ↔ ¬ p.Says "comment" ∧ ¬ p.Says "terminal" ∧ ¬ p.Says "switch" := by
  obtain ⟨q, node, rest, slot, hq, rfl, hleaves, _⟩ := h
  rw [hp.unique hq, says_comment, says_terminal, says_switch]
  generalize q.statement = st at hleaves
  constructor
  · intro h
    obtain ⟨b', hb⟩ := h (.list [])
    cases hleaves with
    | made hmakes =>
      cases hmakes with
      | comment | terminal | switch => cases hb
      | _ => simp
    | elseBranch => simp
    | case => simp
  · rintro ⟨hcomment, hterminal, hswitch⟩ body
    cases hleaves with
    | made hmakes =>
      cases hmakes with
      | comment => exact absurd ⟨_, rfl⟩ hcomment
      | terminal => exact absurd ⟨_, rfl⟩ hterminal
      | switch => exact absurd ⟨_, rfl⟩ hswitch
      | _ => exact ⟨_, rfl⟩
    | elseBranch => exact ⟨_, rfl⟩
    | case => exact ⟨_, rfl⟩

theorem Precedes.le_last {before : List Entry} {depth : Nat} {p q : Entry}
    (h : Precedes before depth q) (hp : p ∈ before.getLast?) : depth ≤ p.depth := by
  induction before using List.reverseRecOn with
  | nil => cases hp
  | append_singleton before m _ =>
    simp only [List.getLast?_append, List.getLast?_singleton, Option.some_or,
      Option.mem_some] at hp
    subst hp
    rcases precedes_concat.1 h with ⟨_, hm⟩ | ⟨hm, _⟩ <;> omega

theorem precedes_last {before : List Entry} {p : Entry} (hp : p ∈ before.getLast?) :
    Precedes before p.depth p := by
  obtain ⟨earlier, rfl⟩ := List.getLast?_eq_some_iff.1 hp
  exact precedes_concat.2 (.inl ⟨rfl, rfl⟩)

/-- Where a statement may move to, and what it finds there. -/
theorem moveTo_meets {before : List Entry} {bs : Blocks} (h : Tracks before bs) {d : Nat}
    {c : Block} {outer : List Block} (hmove : bs.moveTo d = .ok ⟨c, outer⟩) :
    Meets before d c.commit ∧ Levels before outer ∧
      ((∀ b ∈ outer, b.Holds) → (∀ b ∈ bs.outer, b.Holds) ∧ DepthFits before d) := by
  rcases Blocks.moveTo_ok hmove with ⟨rfl, hnodes, _, hopen⟩ | ⟨hd, _, hclose⟩
  · cases hopen
    rcases h with ⟨_, rfl⟩ | ⟨⟨p, hp, hdepth⟩, hlevels⟩
    · exact absurd rfl hnodes
    · have hlast : Precedes before bs.depth p := hdepth ▸ precedes_last hp
      refine ⟨meets_empty fun q hq => ?_, hlevels, fun hholds => ⟨fun b hb => ?_, ?_, ?_, ?_⟩⟩
      · have := hq.le_last hp
        omega
      · exact hholds b (List.mem_cons_of_mem _ hb)
      · rintro rfl; cases hp
      · intro q hq; cases Option.mem_unique hp hq; omega
      · intro q hq _
        cases Option.mem_unique hp hq
        exact (hlevels.1.holds_iff hlast).1 (hholds _ List.mem_cons_self)
  · rcases h with ⟨rfl, rfl⟩ | ⟨⟨p, hp, hdepth⟩, hlevels⟩
    · cases hclose
      have hzero : d = 0 := by simpa [Blocks.depth, Blocks.start] using hd
      refine ⟨meets_empty fun _ => not_precedes_nil, trivial, fun hholds => ⟨hholds, ?_, ?_, ?_⟩⟩
      · exact fun _ => hzero
      · intro q hq; cases hq
      · intro q hq; cases hq
    · obtain ⟨_, hmeets, hlevels', hholds⟩ := closeTo_meets hlevels.1.ne_nil
        (hlevels.1.meets (.inl rfl)) hlevels.2 hclose
      have hlen := Blocks.closeTo_depth hclose
      simp only [Blocks.depth] at hlen hd hdepth
      rw [show Blocks.depth ⟨c, outer⟩ = d by simp only [Blocks.depth]; omega] at hmeets
      refine ⟨hmeets, hlevels', fun h => ⟨hholds h, ?_, ?_, ?_⟩⟩
      · rintro rfl; cases hp
      · intro q hq; cases Option.mem_unique hp hq; omega
      · intro q hq _; cases Option.mem_unique hp hq; omega

theorem moveTo_of_fits {before : List Entry} {bs : Blocks} (h : Tracks before bs)
    (hholds : ∀ b ∈ bs.outer, b.Holds) {d : Nat} (hd : DepthFits before d) :
    ∃ c outer, bs.moveTo d = .ok ⟨c, outer⟩ ∧ ∀ b ∈ outer, b.Holds := by
  rcases h with ⟨rfl, rfl⟩ | ⟨⟨p, hp, hdepth⟩, hlevels⟩
  · rw [hd.first rfl]
    exact ⟨.empty, [], rfl, hholds⟩
  · have hnodes := hlevels.1.ne_nil
    have hstep := hd.step p hp
    by_cases hle : d ≤ bs.depth
    · obtain ⟨⟨c, outer⟩, hclose, ho⟩ := closeTo_of_holds (d := d) hnodes hholds
      exact ⟨c, outer, by rw [Blocks.moveTo_of_le hle (.inl hnodes), hclose], ho⟩
    · have hsucc : d = bs.depth + 1 := by omega
      have hlast : Precedes before bs.depth p := hdepth ▸ precedes_last hp
      have hcurrent : bs.current.Holds :=
        (hlevels.1.holds_iff hlast).2 (hd.nests p hp (by omega))
      refine ⟨.empty, bs.current :: bs.outer, ?_, fun b hb => ?_⟩
      · rw [hsucc, Blocks.moveTo_succ hnodes hcurrent.canNest]
      · rcases List.mem_cons.1 hb with rfl | hb
        · exact hcurrent
        · exact hholds b hb

theorem Tracks.place {before : List Entry} {bs bs' : Blocks} (h : Tracks before bs) {e : Entry}
    (hplace : bs.place e.item = .ok bs') : Tracks (before ++ [e]) bs' := by
  obtain ⟨c, outer, b, hmove, haccept, rfl, hlen⟩ := Blocks.place_ok hplace
  obtain ⟨hmeets, hlevels, _⟩ := moveTo_meets h hmove
  refine .inr ⟨⟨e, by simp, hlen.symm⟩, ?_, hlevels.concat (Nat.le_of_eq hlen)⟩
  rw [hlen]
  exact haccept.level hmeets

theorem tracks_placeAll {es : List Entry} {bs : Blocks}
    (h : Blocks.start.placeAll (es.map Entry.item) = .ok bs) : Tracks es bs := by
  induction es using List.reverseRecOn generalizing bs with
  | nil => cases h; exact .inl ⟨rfl, rfl⟩
  | append_singleton es e ih =>
    rw [List.map_append] at h
    obtain ⟨before, hbefore, hplace⟩ := Blocks.placeAll_concat_eq_ok_iff.1 h
    exact (ih hbefore).place hplace

/-- Statements are grammatical if they can be placed and every block that encloses the current one
can take a body. -/
theorem grammatical_iff {es : List Entry} :
    Grammatical es ↔ ∃ bs, Blocks.start.placeAll (es.map Entry.item) = .ok bs ∧
      ∀ b ∈ bs.outer, b.Holds := by
  induction es using List.reverseRecOn with
  | nil =>
    constructor
    · intro _; exact ⟨.start, rfl, by simp [Blocks.start]⟩
    · intro _ before e after h; cases before <;> cases h
  | append_singleton es e ih =>
    rw [grammatical_concat, ih]
    simp only [List.map_append, List.map_cons, List.map_nil, Blocks.placeAll_concat_eq_ok_iff]
    constructor
    · rintro ⟨⟨bs, hplace, hholds⟩, hdepth, hbody⟩
      have htracks := tracks_placeAll hplace
      obtain ⟨c, outer, hmove, ho⟩ := moveTo_of_fits htracks hholds hdepth
      obtain ⟨b, haccept⟩ := (accepted_iff_bodyFits (moveTo_meets htracks hmove).1).2 hbody
      exact ⟨⟨b, outer⟩, ⟨bs, hplace, Blocks.place_of_moveTo hmove haccept⟩, ho⟩
    · rintro ⟨_, ⟨bs, hplace, hlast⟩, ho⟩
      have htracks := tracks_placeAll hplace
      obtain ⟨c, outer, b, hmove, haccept, rfl, _⟩ := Blocks.place_ok hlast
      obtain ⟨hmeets, _, hholds⟩ := moveTo_meets htracks hmove
      obtain ⟨hbs, hdepth⟩ := hholds ho
      exact ⟨⟨bs, hplace, hbs⟩, hdepth, (accepted_iff_bodyFits hmeets).1 ⟨b, haccept⟩⟩

/-- The end closes all blocks if they can take their bodies. Only without a statement there is no
tree. -/
theorem closeAll_iff {before : List Entry} {bs : Blocks} (h : Tracks before bs) :
    ((∃ tree, bs.closeAll = .ok tree) ↔ ∀ b ∈ bs.outer, b.Holds) ∧
      (bs.closeAll = .ok none ↔ before = []) := by
  rcases h with ⟨rfl, rfl⟩ | ⟨⟨p, hp, _⟩, hlevels⟩
  · exact ⟨⟨by simp [Blocks.start], fun _ => ⟨none, rfl⟩⟩, by simp; rfl⟩
  · have hbefore : before ≠ [] := by rintro rfl; cases hp
    have hnodes := hlevels.1.ne_nil
    cases hclose : Blocks.closeTo 0 bs.current bs.outer with
    | error failure =>
      refine ⟨⟨by simp [Blocks.closeAll, hclose], fun hholds => ?_⟩,
        by simp [Blocks.closeAll, hclose, hbefore]⟩
      obtain ⟨root, hroot, _⟩ := closeTo_of_holds (d := 0) hnodes hholds
      rw [hclose] at hroot
      cases hroot
    | ok root =>
      obtain ⟨hroot, _, _, hholds⟩ := closeTo_meets hnodes (hlevels.1.meets (.inl rfl)) hlevels.2
        hclose
      obtain ⟨houter, _, hsome⟩ := Blocks.closeAll_of_closeTo hclose
      rw [hsome (Block.commit_ne_nil hroot)]
      exact ⟨⟨fun _ => hholds (by simp [houter]), fun _ => ⟨_, rfl⟩⟩, by simp [hbefore]⟩

/-- The sources that have a tree are those with grammatical statements, and the tree is missing
exactly where there is no statement. -/
theorem parse_ok_iff_grammatical (source : String) :
    ((∃ tree, parse source = .ok tree) ↔ Grammatical (entries source)) ∧
      (parse source = .ok none ↔ entries source = []) := by
  rw [parse_eq_placeAll, grammatical_iff]
  cases hplace : Blocks.start.placeAll ((entries source).map Entry.item) with
  | error failure =>
    refine ⟨⟨?_, ?_⟩, ?_, ?_⟩
    · rintro ⟨tree, h⟩; cases h
    · rintro ⟨bs, h, _⟩; cases h
    · intro h; cases h
    · intro h; rw [h] at hplace; cases hplace
  | ok bs =>
    obtain ⟨hok, hnone⟩ := closeAll_iff (tracks_placeAll hplace)
    refine ⟨⟨fun h => ⟨bs, rfl, hok.1 h⟩, ?_⟩, hnone⟩
    rintro ⟨_, h, hholds⟩
    cases h
    exact hok.2 hholds

end ProgramDiagram.Outline
