import ProgramDiagram.Proofs.Outline.Grammar
import ProgramDiagram.Proofs.Text.Lines

/-!
# Reading on after a refused statement

A recovery that skips what is refused goes on with the blocks that the refused statement has moved,
committed or lost, and not with those that it found.

* `FirstRefused`: the lines of the statement that is refused first.
* `LeavesNoTrace`: the refusals after which the open blocks are as before.
* `skippedExactly_iff`: only after these the reading goes on as if the lines were not there.
-/

namespace ProgramDiagram.Outline

/-! ## Lines that end with a statement -/

/-- The statement of the last line does not go on. -/
def Ended (ls : List (List Char)) : Prop := ∀ l ∈ ls.getLast?, continues l = false

theorem ended_cons_cons {line next : List Char} {rest : List (List Char)} :
    Ended (line :: next :: rest) ↔ Ended (next :: rest) := by
  simp only [Ended, List.getLast?_cons_cons]

theorem continuation_append {line : List Char} {rest : List (List Char)}
    (h : Ended (line :: rest)) (tail : List (List Char)) :
    continuation line (rest ++ tail) =
      ((continuation line rest).1, (continuation line rest).2 ++ tail) := by
  induction rest generalizing line with
  | nil =>
    have hline : continues line = false := h line rfl
    simp [continuation_of_not_continues hline, continuation]
  | cons next rest ih =>
    have hnext := ih (ended_cons_cons.1 h)
    by_cases hline : continues line
    · simp [continuation, hline, hnext]
    · simp [continuation, hline]

theorem ended_continuation {line : List Char} {rest : List (List Char)}
    (h : Ended (line :: rest)) : Ended (continuation line rest).2 := by
  induction rest generalizing line with
  | nil => simp [continuation, Ended]
  | cons next rest ih =>
    have hrest := ended_cons_cons.1 h
    simp only [continuation]
    split
    · exact ih hrest
    · exact hrest

/-- A statement that has ended goes on in no other lines. -/
theorem continuation_of_ended {line : List Char} {more after : List (List Char)}
    (h : continuation line (more ++ after) = (more, after)) (hended : Ended (line :: more))
    (after' : List (List Char)) : continuation line (more ++ after') = (more, after') := by
  have hall := continuation_append hended after
  rw [h, Prod.mk.injEq] at hall
  have hnone : (continuation line more).2 = [] := List.append_left_eq_self.1 hall.2.symm
  rw [continuation_append hended after', ← hall.1, hnone, List.nil_append]

theorem Ended.append {xs ys : List (List Char)} (hxs : Ended xs) (hys : Ended ys) :
    Ended (xs ++ ys) := by
  intro l hl
  rw [List.getLast?_append, Option.mem_def, Option.or_eq_some_iff] at hl
  rcases hl with hl | ⟨_, hl⟩
  · exact hys l hl
  · exact hxs l hl

/-- Lines are left over only after the end of a statement. -/
theorem ended_of_continuation {line : List Char} {rest : List (List Char)}
    (h : (continuation line rest).2 ≠ []) : Ended (line :: (continuation line rest).1) := by
  induction rest generalizing line with
  | nil => simp [continuation] at h
  | cons next rest ih =>
    simp only [continuation] at h ⊢
    by_cases hline : continues line
    · rw [if_pos hline] at h ⊢
      exact ended_cons_cons.2 (ih h)
    · rw [if_neg hline]
      intro l hl
      cases hl
      simpa using hline

theorem eq_nil_of_not_ended {line : List Char} {more after : List (List Char)}
    (h : continuation line (more ++ after) = (more, after)) (hended : ¬ Ended (line :: more)) :
    after = [] := by
  induction more generalizing line with
  | nil =>
    cases after with
    | nil => rfl
    | cons next after =>
      have hline : continues line := by simpa [Ended] using hended
      simp [continuation, hline] at h
  | cons next more ih =>
    by_cases hline : continues line
    · have hnext : continuation next (more ++ after) = (more, after) := by
        simpa [continuation, hline, Prod.ext_iff] using h
      exact ih hnext fun hmore => hended (ended_cons_cons.2 hmore)
    · simp [continuation, hline] at h

/-! ## Skipping -/

/-- Goes on after every refusal. -/
def skipAll : Answer := fun _ _ => .skip

/-- What skipping shows apart from line numbers. -/
def skipping (source : String) : Course := (read (fun _ _ => .skip) source).course

theorem skipping_eq_readOn (source : String) :
    skipping source = readOn skipAll [] .start (textLines source) :=
  course_read skipAll source

theorem readOn_skipAll (seen : List Refusal) (bs : Blocks) (ls : List (List Char)) :
    readOn skipAll seen bs ls =
      ⟨seen.reverse ++ (readOn skipAll [] bs ls).refusals, (readOn skipAll [] bs ls).result⟩ := by
  induction hn : ls.length using Nat.strongRecOn generalizing seen bs ls with
  | ind n ih =>
    cases ls with
    | nil => simp [readOn]
    | cons line rest =>
      have hlen := length_turn_le bs line rest
      have next := fun seen bs' => ih _ (by simp at hn; omega) seen bs' (turn bs line rest).2 rfl
      rw [readOn, readOn]
      cases (turn bs line rest).1 with
      | ok bs' => exact next seen bs'
      | error failure =>
        have hseen := next ((String.ofList line, failure.error) :: seen) failure.blocks
        have hnone := next [(String.ofList line, failure.error)] failure.blocks
        refine hseen.trans ?_
        simp only [skipAll] at hnone ⊢
        rw [hnone]
        simp

theorem readOn_cons_error {bs : Blocks} {line : List Char} {rest after : List (List Char)}
    {failure : Failure Blocks} (h : turn bs line rest = (.error failure, after)) :
    readOn skipAll [] bs (line :: rest) =
      ⟨(String.ofList line, failure.error) :: (readOn skipAll [] failure.blocks after).refusals,
        (readOn skipAll [] failure.blocks after).result⟩ := by
  rw [readOn, h]
  exact readOn_skipAll _ failure.blocks after

theorem readOn_cons_ok {bs next : Blocks} {line : List Char} {rest after : List (List Char)}
    (h : turn bs line rest = (.ok next, after)) :
    readOn skipAll [] bs (line :: rest) = readOn skipAll [] next after := by
  rw [readOn, h]

/-- Lines whose statements can be placed are read without a refusal. -/
theorem readOn_placed {bs bs' : Blocks} {before : List (List Char)} (hended : Ended before)
    (h : bs.placeAll ((entriesOf before).map Entry.item) = .ok bs') (rest : List (List Char)) :
    readOn skipAll [] bs (before ++ rest) = readOn skipAll [] bs' rest := by
  induction hn : before.length using Nat.strongRecOn generalizing before bs with
  | ind n ih =>
    cases before with
    | nil => cases h; rfl
    | cons line before =>
      rw [entriesOf_cons, List.map_cons, Blocks.placeAll_cons, ← turn_fst] at h
      cases hturn : (turn bs line before).1 with
      | error failure => rw [hturn] at h; cases h
      | ok next =>
        rw [hturn] at h
        have hlen := length_continuation_le line before
        have hall := continuation_append hended rest
        have hfst : (turn bs line (before ++ rest)).1 = .ok next := by
          rw [turn_fst, hall, ← turn_fst, hturn]
        have hsnd := turn_snd_of_ok hfst
        rw [hall] at hsnd
        rw [List.cons_append, readOn_cons_ok (Prod.ext hfst hsnd)]
        exact ih _ (by simp at hn; omega) (ended_continuation hended) h rfl

/-- Some statement of the lines is refused, or all are placed. -/
theorem exists_refused (bs : Blocks) (ls : List (List Char)) :
    (∃ before line more after bs' failure, ls = before ++ line :: (more ++ after) ∧
      Ended before ∧ bs.placeAll ((entriesOf before).map Entry.item) = .ok bs' ∧
      turn bs' line (more ++ after) = (.error failure, after)) ∨
    (readOn skipAll [] bs ls).refusals = [] := by
  induction hn : ls.length using Nat.strongRecOn generalizing bs ls with
  | ind n ih =>
    cases ls with
    | nil => exact .inr (by simp [readOn])
    | cons line rest =>
      have hrest := append_continuation line rest
      cases hturn : (turn bs line rest).1 with
      | error failure =>
        left
        cases hmove : bs.moveTo (indentation line) with
        | error _ =>
          refine ⟨[], line, [], rest, bs, failure, rfl, by simp [Ended], rfl, ?_⟩
          exact Prod.ext hturn (by simp [turn, hmove])
        | ok _ =>
          refine ⟨[], line, (continuation line rest).1, (continuation line rest).2, bs, failure,
            by simp [hrest], by simp [Ended], rfl, ?_⟩
          rw [hrest]
          exact Prod.ext hturn (by simp [turn, hmove])
      | ok next =>
        have hlen := length_continuation_le line rest
        have hsnd := turn_snd_of_ok hturn
        rw [readOn_cons_ok (Prod.ext hturn hsnd)]
        rcases ih _ (by simp at hn; omega) next (continuation line rest).2 rfl with
          ⟨before, first, more, after, bs', failure, hls, hended, hplace, hrefused⟩ | hnone
        · have hne : (continuation line rest).2 ≠ [] := by simp [hls]
          have hline := ended_of_continuation hne
          have hbefore := continuation_of_ended (by rw [hrest]) hline before
          refine .inl ⟨line :: ((continuation line rest).1 ++ before), first, more, after, bs',
            failure, ?_, hline.append hended, ?_, hrefused⟩
          · rw [List.cons_append, List.append_assoc, ← hls, hrest]
          · rw [entriesOf_cons, hbefore, List.map_cons, Blocks.placeAll_cons, ← turn_fst, hturn]
            exact hplace
        · exact .inr hnone

/-! ## What a refusal leaves -/

/-- The lines `own` are the statement that is refused first, after the lines `before`. -/
def FirstRefused (before own after : List (List Char)) (error : Error) : Prop :=
  ∃ bs line more failure, own = line :: more ∧ Ended before ∧
    Blocks.start.placeAll ((entriesOf before).map Entry.item) = .ok bs ∧
    turn bs line (more ++ after) = (.error failure, after) ∧ failure.error = error

/-- After the refused lines the reading goes on as if they were not there, whatever follows. -/
def SkippedExactly (before own : List (List Char)) (error : Error) : Prop :=
  ∀ after source rest, FirstRefused before own after error →
    textLines source = before ++ own ++ after → textLines rest = before ++ after →
    (skipping source).refusals.tail = (skipping rest).refusals ∧
      (skipping source).result = (skipping rest).result

/-- The statement is refused for its depth, or nothing follows it since the source ends in it, or it
stands at the depth of the last statement, which is no `case`. -/
def LeavesNoTrace (before own : List (List Char)) (error : Error) : Prop :=
  error = .illegalIndentation ∨
  (¬ Ended own ∧ ∀ cause, error ≠ .inconsistent cause) ∨
  ∀ p ∈ (entriesOf before).getLast?, ∀ line ∈ own.head?,
    indentation line = p.depth ∧ ¬ p.Says "case"

theorem Level.attach_error {before : List Entry} {depth : Nat} {b : Block}
    (h : Level before depth b) {body : Node} {e : Error} (he : b.attach body = .error e) :
    ∃ cause, e = .inconsistent cause := by
  obtain ⟨p, node, rest, slot, _, rfl, hleaves, _⟩ := h
  generalize p.statement = st at hleaves
  cases hleaves with
  | made hmakes => cases hmakes <;> cases he <;> exact ⟨_, rfl⟩
  | elseBranch => cases he
  | case => cases he

/-- A block that cannot be closed into its owner is lost, so that the depth gets smaller. -/
theorem Levels.closeTo_error {before : List Entry} {d : Nat} {c : Block} {outer : List Block}
    (ho : Levels before outer) {failure : Failure Blocks}
    (h : Blocks.closeTo d c outer = .error failure) :
    d < outer.length ∧ failure.blocks.depth < outer.length ∧
      ∃ cause, failure.error = .inconsistent cause := by
  refine (Blocks.closeTo_invariant
    (I := fun _ left => Levels before left ∧ left.length ≤ outer.length)
    (E := fun failure => d < outer.length ∧ failure.blocks.depth < outer.length ∧
      ∃ cause, failure.error = .inconsistent cause)
    (fun _ hI _ => ?_) (fun hd hI hinto => ?_) ⟨ho, Nat.le_refl _⟩).2 failure h
  · exact ⟨hI.1.2, Nat.le_of_succ_le hI.2⟩
  · obtain ⟨hlevels, hlength⟩ := hI
    rw [List.length_cons] at hlength
    refine ⟨by omega, hlength, ?_⟩
    unfold Block.closeInto at hinto
    split at hinto
    · cases hinto
    · exact hlevels.1.attach_error hinto

/-- The three ways in which a statement is refused. -/
theorem turn_error {before : List Entry} {bs : Blocks} (htracks : Tracks before bs)
    {line : List Char} {more after : List (List Char)} {failure : Failure Blocks}
    (h : turn bs line (more ++ after) = (.error failure, after)) :
    (failure.error = .illegalIndentation ∧ failure.blocks = bs) ∨
    (bs.moveTo (indentation line) = .error failure ∧ more = [] ∧
      indentation line < bs.depth ∧ failure.blocks.depth < bs.depth ∧
      ∃ cause, failure.error = .inconsistent cause) ∨
    ∃ c outer, bs.moveTo (indentation line) = .ok ⟨c, outer⟩ ∧
      continuation line (more ++ after) = (more, after) ∧
      failure.blocks = ⟨c.commit, outer⟩ ∧ failure.error ≠ .illegalIndentation ∧
      ∀ cause, failure.error ≠ .inconsistent cause := by
  unfold turn at h
  cases hmove : bs.moveTo (indentation line) with
  | error failure' =>
    simp only [hmove, Prod.mk.injEq, Except.error.injEq] at h
    obtain ⟨rfl, hmore⟩ := h
    rcases Blocks.moveTo_error hmove with rfl | hclose
    · exact .inl ⟨rfl, rfl⟩
    · have hlevels : Levels before bs.outer := by
        rcases htracks with ⟨_, rfl⟩ | ⟨_, hlevels⟩
        · trivial
        · exact hlevels.2
      exact .inr (.inl ⟨rfl, List.append_left_eq_self.1 hmore, hlevels.closeTo_error hclose⟩)
  | ok opened =>
    simp only [hmove, Prod.mk.injEq] at h
    obtain ⟨haccept, hafter⟩ := h
    obtain ⟨hblocks, hrefused⟩ := Blocks.accept_error haccept
    have herror := hrefused.ne_moveTo_error
    have hall := append_continuation line (more ++ after)
    rw [hafter] at hall
    have hmore := List.append_cancel_right hall
    exact .inr (.inr ⟨opened.current, opened.outer, rfl, Prod.ext hmore hafter, hblocks, herror⟩)

/-! ## Refusals that leave no trace -/

theorem Block.commit_commit (b : Block) : b.commit.commit = b.commit := by
  obtain ⟨nodes, slot⟩ := b
  cases nodes with
  | nil => rfl
  | cons node rest =>
    cases node with
    | switch t cases => cases slot <;> rfl
    | _ => rfl

theorem Blocks.closeAll_commit (c : Block) (outer : List Block) :
    closeAll ⟨c.commit, outer⟩ = closeAll ⟨c, outer⟩ := by
  cases outer with
  | nil => simp only [closeAll, closeTo, Block.commit_commit]
  | cons parent outer =>
    have hinto : Block.closeInto c.commit parent = Block.closeInto c parent := by
      simp only [Block.closeInto, Block.commit_commit]
    simp only [closeAll, closeTo_cons (Nat.zero_le _), hinto]

/-- Opening or closing blocks makes no difference at the end of a source. -/
theorem Blocks.closeAll_of_moveTo {bs : Blocks} {d : Nat} {c : Block} {outer : List Block}
    (h : bs.moveTo d = .ok ⟨c, outer⟩) : closeAll ⟨c.commit, outer⟩ = closeAll bs := by
  rw [closeAll_commit]
  rcases moveTo_ok h with ⟨_, _, _, hopen⟩ | ⟨_, _, hclose⟩
  · cases hopen
    have hempty : closeTo 0 .empty (bs.current :: bs.outer) = closeTo 0 bs.current bs.outer := by
      rw [closeTo_cons (Nat.zero_le _)]
      rfl
    simp only [closeAll, hempty]
  · have hstage := closeTo_closeTo (Nat.zero_le d) hclose
    simp only at hstage
    simp only [closeAll, hstage]

/-- Only a `case` awaits a body that it may not get. -/
theorem Level.commit_eq {before : List Entry} {depth : Nat} {b : Block}
    (h : Level before depth b) {p : Entry} (hp : Precedes before depth p)
    (hcase : ¬ p.Says "case") : b.commit = b := by
  obtain ⟨q, node, rest, slot, hq, rfl, hleaves, _⟩ := h
  rw [hp.unique hq, says_case] at hcase
  apply Block.commit_of_ne_case
  rintro label rfl
  generalize q.statement = st at hleaves hcase
  cases hleaves
  exact hcase ⟨_, rfl⟩

theorem readOn_of_leavesNoTrace {before own after : List (List Char)} {error : Error}
    (h : LeavesNoTrace before own error) {bs : Blocks} (htracks : Tracks (entriesOf before) bs)
    {line : List Char} {more : List (List Char)} {failure : Failure Blocks}
    (hown : own = line :: more) (hturn : turn bs line (more ++ after) = (.error failure, after))
    (herror : failure.error = error) :
    readOn skipAll [] failure.blocks after = readOn skipAll [] bs after := by
  subst hown herror
  rcases turn_error htracks hturn with ⟨_, hblocks⟩ | ⟨_, _, hlt, _, cause, hcause⟩ |
    ⟨c, outer, hmove, hcont, hblocks, hindent, hcause⟩
  · rw [hblocks]
  · -- a closing error is met only below the depth of the last statement
    exfalso
    rcases h with h | ⟨_, h⟩ | h
    · rw [hcause] at h; cases h
    · exact h cause hcause
    · rcases htracks with ⟨_, rfl⟩ | ⟨⟨p, hp, hdepth⟩, _⟩
      · simp [Blocks.depth, Blocks.start] at hlt
      · have := (h p hp line rfl).1
        omega
  · rw [hblocks]
    rcases h with h | ⟨hended, _⟩ | h
    · exact absurd h hindent
    · rw [eq_nil_of_not_ended hcont hended, readOn, readOn, Blocks.closeAll_of_moveTo hmove]
    · -- the statement has neither opened nor closed a block
      have hsame : (⟨c.commit, outer⟩ : Blocks) = bs := by
        rcases htracks with ⟨hnil, rfl⟩ | ⟨⟨p, hp, hdepth⟩, hlevels⟩
        · rcases Blocks.moveTo_ok hmove with ⟨_, hnodes, _⟩ | ⟨_, _, hclose⟩
          · exact absurd rfl hnodes
          · cases hclose; rfl
        · obtain ⟨hindentation, hcase⟩ := h p hp line rfl
          have hlast : Precedes (entriesOf before) bs.depth p := hdepth ▸ precedes_last hp
          rw [hindentation, hdepth, Blocks.moveTo_depth hlevels.1.ne_nil] at hmove
          cases hmove
          rw [hlevels.1.commit_eq hlast hcase]
      rw [hsame]

/-! ## Refusals that leave a trace -/

/-- A process that tells whether a block can be opened at a depth. -/
def processAt (depth : Nat) : List Char := indented depth ['y']

/-- A refused statement that tells whether a block is open at a depth already. -/
def unknownAt (depth : Nat) : List Char := indented depth [':', '?']

def errorsOn (bs : Blocks) (ls : List (List Char)) : List Error :=
  (readOn skipAll [] bs ls).refusals.map Prod.snd

theorem errorsOn_cons_error {bs : Blocks} {line : List Char} {rest after : List (List Char)}
    {failure : Failure Blocks} (h : turn bs line rest = (.error failure, after)) :
    errorsOn bs (line :: rest) = failure.error :: errorsOn failure.blocks after := by
  rw [errorsOn, readOn_cons_error h]
  rfl

theorem errorsOn_cons_ok {bs next : Blocks} {line : List Char} {rest after : List (List Char)}
    (h : turn bs line rest = (.ok next, after)) :
    errorsOn bs (line :: rest) = errorsOn next after := by
  rw [errorsOn, readOn_cons_ok h]
  rfl

theorem errorsOn_nil (bs : Blocks) : errorsOn bs [] = [] := by
  rw [errorsOn, readOn]
  rfl

theorem errorsOn_refused {body : List Char} (hhead : body.head? ≠ some '\t')
    (hlast : body.getLast? ≠ some marker) {bs : Blocks} {d : Nat} {failure : Failure Blocks}
    (h : bs.moveTo d = .error failure) (rest : List (List Char)) :
    errorsOn bs (indented d body :: rest) = failure.error :: errorsOn failure.blocks rest := by
  have hplace : bs.place (d, .ofBody (unmarked body)) = .error failure :=
    Blocks.place_of_moveTo_error h
  have hturn := turn_indented hhead hlast d bs rest
  rw [hplace] at hturn
  exact errorsOn_cons_error hturn

theorem errorsOn_processAt_refused {bs : Blocks} {d : Nat} {failure : Failure Blocks}
    (h : bs.moveTo d = .error failure) : errorsOn bs [processAt d] = [failure.error] := by
  rw [processAt, errorsOn_refused (by decide) (by decide) h, errorsOn_nil]

theorem errorsOn_processAt {bs : Blocks} {d : Nat} {c : Block} {outer : List Block}
    (h : bs.moveTo d = .ok ⟨c, outer⟩) : errorsOn bs [processAt d] = [] := by
  have hplace : bs.place (d, .process "y") = .ok ⟨c.commit.add (.process "y" none), outer⟩ :=
    Blocks.place_of_moveTo h (.made (.process "y"))
  have hturn : turn bs (processAt d) [] = (bs.place (d, .process "y"), []) :=
    turn_indented (by decide) (by decide) d bs []
  rw [hplace] at hturn
  rw [errorsOn_cons_ok hturn, errorsOn_nil]

theorem errorsOn_unknownAt {bs : Blocks} {d : Nat} {c : Block} {outer : List Block}
    (h : bs.moveTo d = .ok ⟨c, outer⟩) (rest : List (List Char)) :
    errorsOn bs (unknownAt d :: rest) =
      .unknownCommand "?" :: errorsOn ⟨c.commit, outer⟩ rest := by
  have hplace : bs.place (d, .unknown "?") =
      .error ⟨.unknownCommand "?", ⟨c.commit, outer⟩⟩ := by
    rw [Blocks.place, h]
    rfl
  have hturn : turn bs (unknownAt d) rest = (bs.place (d, .unknown "?"), rest) :=
    turn_indented (by decide) (by decide) d bs rest
  rw [hplace] at hturn
  exact errorsOn_cons_error hturn

theorem Blocks.moveTo_empty {outer : List Block} {d : Nat} (hd : 0 < d) :
    Blocks.moveTo ⟨.empty, outer⟩ d = .error ⟨.illegalIndentation, ⟨.empty, outer⟩⟩ := by
  unfold moveTo
  rw [if_pos (by simp [hd, Block.empty])]

/-- Where a block is open, only the unknown command is refused. -/
theorem errorsOn_open {bs : Blocks} (h : bs.current.nodes ≠ []) :
    errorsOn bs [unknownAt bs.depth, processAt bs.depth] = [.unknownCommand "?"] := by
  have hmove : bs.moveTo bs.depth = .ok ⟨bs.current, bs.outer⟩ := Blocks.moveTo_depth h
  have hstay : Blocks.moveTo ⟨bs.current.commit, bs.outer⟩ bs.depth =
      .ok ⟨bs.current.commit, bs.outer⟩ :=
    Blocks.moveTo_depth (Block.commit_ne_nil h)
  rw [errorsOn_unknownAt hmove, errorsOn_processAt hstay]

/-- Where none is open, another statement is refused. -/
theorem errorsOn_shallow {bs : Blocks} {d : Nat} (hd : bs.depth < d) :
    errorsOn bs [unknownAt d, processAt d] ≠ [.unknownCommand "?"] := by
  cases hmove : bs.moveTo d with
  | error failure =>
    rw [unknownAt, errorsOn_refused (by decide) (by decide) hmove]
    rcases Blocks.moveTo_error hmove with rfl | hclose
    · simp
    · rw [Blocks.closeTo_of_le (Nat.le_of_lt hd)] at hclose
      cases hclose
  | ok opened =>
    rcases Blocks.moveTo_ok hmove with ⟨_, _, _, rfl⟩ | ⟨hle, _⟩
    · rw [errorsOn_unknownAt hmove]
      have hrefused : Blocks.moveTo ⟨Block.empty.commit, bs.current :: bs.outer⟩ d = .error _ :=
        Blocks.moveTo_empty (by omega)
      rw [errorsOn_processAt_refused hrefused]
      simp
    · omega

/-- Blocks that are less deep refuse more. -/
theorem errorsOn_ne_of_depth_lt {bs bs' : Blocks} (hnodes : bs.current.nodes ≠ [])
    (h : bs'.depth < bs.depth) :
    errorsOn bs' [unknownAt bs.depth, processAt bs.depth] ≠
      errorsOn bs [unknownAt bs.depth, processAt bs.depth] := by
  rw [errorsOn_open hnodes]
  exact errorsOn_shallow h

/-- So do blocks that open none where one can be opened. -/
theorem errorsOn_ne_of_moveTo_error {bs bs' : Blocks} (hnodes : bs.current.nodes ≠ [])
    (hnest : bs.current.canNest) {failure : Failure Blocks}
    (h : bs'.moveTo (bs.depth + 1) = .error failure) :
    errorsOn bs' [processAt (bs.depth + 1)] ≠ errorsOn bs [processAt (bs.depth + 1)] := by
  rw [errorsOn_processAt (Blocks.moveTo_succ hnodes hnest), errorsOn_processAt_refused h]
  simp

theorem Level.pending {before : List Entry} {depth : Nat} {b : Block} (h : Level before depth b)
    {p : Entry} (hp : Precedes before depth p) (hcase : p.Says "case") :
    ∃ t cases rest label, b = ⟨.switch t cases :: rest, .case label⟩ := by
  obtain ⟨q, node, rest, slot, hq, rfl, hleaves, _⟩ := h
  rw [hp.unique hq, says_case] at hcase
  obtain ⟨argument, hst⟩ := hcase
  rw [hst] at hleaves
  cases hleaves with
  | made hmakes => cases hmakes
  | case t => exact ⟨t, _, rest, _, rfl⟩

/-- A case that is committed takes no body any more. -/
theorem Blocks.moveTo_committed (t : String) (cases : Cases) (rest : List Node) (label : String)
    (outer : List Block) :
    ∃ failure, Blocks.moveTo ⟨Block.commit ⟨.switch t cases :: rest, .case label⟩, outer⟩
      (outer.length + 1) = .error failure := by
  rw [Block.commit_case]
  unfold moveTo
  rw [if_neg (by simp), if_pos (by simp [depth]), if_pos (by simp [Block.canNest])]
  exact ⟨_, rfl⟩

/-- Lines of which a source can consist, none of them a comment. -/
def Plain (ls : List (List Char)) : Prop := ∀ l ∈ ls, '\n' ∉ l ∧ isCommentLine l = false

theorem plain_textLines (source : String) : Plain (textLines source) := by
  intro l hl
  obtain ⟨hmem, hcomment⟩ := List.mem_filter.1 hl
  exact ⟨not_mem_of_mem_lines hmem, by simpa using hcomment⟩

theorem exists_textLines_eq {ls : List (List Char)} (hne : ls ≠ []) (h : Plain ls) :
    ∃ source, textLines source = ls := by
  obtain ⟨source, hsource⟩ := exists_lines_eq hne fun l hl => (h l hl).1
  refine ⟨source, ?_⟩
  rw [textLines, hsource, List.filter_eq_self]
  intro l hl
  simp [(h l hl).2]

theorem plain_processAt (depth : Nat) : Plain [processAt depth] := by
  intro l hl
  rw [List.mem_singleton.1 hl]
  exact ⟨by simp [processAt, indented], isCommentLine_indented depth ['y']⟩

theorem plain_unknownAt (depth : Nat) : Plain [unknownAt depth, processAt depth] := by
  intro l hl
  rcases List.mem_cons.1 hl with rfl | hl
  · exact ⟨by simp [unknownAt, indented], isCommentLine_indented depth [':', '?']⟩
  · exact plain_processAt depth l hl

/-- A refused statement has opened a block, settled a case or closed blocks. -/
theorem exists_errorsOn_ne {bs : Blocks} (hnodes : bs.current.nodes ≠ []) {d : Nat} {c : Block}
    {outer : List Block} (hmove : bs.moveTo d = .ok ⟨c, outer⟩)
    (hpending : d = bs.depth →
      ∃ t cases rest label, bs.current = ⟨.switch t cases :: rest, .case label⟩) :
    ∃ ls, ls ≠ [] ∧ Plain ls ∧ errorsOn ⟨c.commit, outer⟩ ls ≠ errorsOn bs ls := by
  rcases Blocks.moveTo_ok hmove with ⟨_, _, hnest, hopen⟩ | ⟨hd, _, hclose⟩
  · cases hopen
    exact ⟨_, by simp, plain_processAt (bs.depth + 1),
      errorsOn_ne_of_moveTo_error hnodes hnest (Blocks.moveTo_empty (Nat.succ_pos _))⟩
  · by_cases hsame : d = bs.depth
    · obtain ⟨t, cases, rest, label, hcurrent⟩ := hpending hsame
      rw [hsame, Blocks.moveTo_depth hnodes] at hmove
      cases hmove
      simp only at hcurrent
      obtain ⟨failure, hrefused⟩ := Blocks.moveTo_committed t cases rest label outer
      have hnest : c.canNest := by rw [hcurrent]; rfl
      rw [← hcurrent] at hrefused
      exact ⟨_, by simp, plain_processAt (outer.length + 1),
        errorsOn_ne_of_moveTo_error hnodes hnest hrefused⟩
    · have hlen := Blocks.closeTo_depth hclose
      have hshallow : Blocks.depth ⟨c.commit, outer⟩ < bs.depth := by
        simp only [Blocks.depth] at hlen hd hsame ⊢
        omega
      exact ⟨_, by simp, plain_unknownAt bs.depth, errorsOn_ne_of_depth_lt hnodes hshallow⟩

/-- After any other refusal some lines are read in another way than without it. -/
theorem exists_trace {before own after : List (List Char)} {error : Error}
    (h : ¬ LeavesNoTrace before own error) {bs : Blocks}
    (htracks : Tracks (entriesOf before) bs) {line : List Char} {more : List (List Char)}
    {failure : Failure Blocks} (hown : own = line :: more)
    (hturn : turn bs line (more ++ after) = (.error failure, after))
    (herror : failure.error = error) :
    ∃ after', after' ≠ [] ∧ Plain after' ∧
      turn bs line (more ++ after') = (.error failure, after') ∧
      errorsOn failure.blocks after' ≠ errorsOn bs after' := by
  subst hown herror
  simp only [LeavesNoTrace, not_or] at h
  obtain ⟨hindent, hunfinished, hlevel⟩ := h
  push Not at hlevel
  obtain ⟨p, hp, _, hline, hcase⟩ := hlevel
  cases hline
  rcases htracks with ⟨hnil, _⟩ | ⟨⟨q, hq, hdepth⟩, hlevels⟩
  · rw [hnil] at hp; cases hp
  cases Option.mem_unique hp hq
  have hnodes := hlevels.1.ne_nil
  have hlast : Precedes (entriesOf before) bs.depth p := hdepth ▸ precedes_last hp
  rcases turn_error (.inr ⟨⟨p, hp, hdepth⟩, hlevels⟩) hturn with ⟨hillegal, _⟩ |
    ⟨hmove, rfl, _, hshallow, _⟩ | ⟨c, outer, hmove, hcont, hblocks, _, hcause⟩
  · exact absurd hillegal hindent
  · exact ⟨_, by simp, plain_unknownAt bs.depth, by simp [turn, hmove],
      errorsOn_ne_of_depth_lt hnodes hshallow⟩
  · have hended : Ended (line :: more) := by
      by_contra hended
      exact hunfinished ⟨hended, hcause⟩
    have hturn' (after' : List (List Char)) :
        turn bs line (more ++ after') = (.error failure, after') := by
      simp only [turn, hmove, hcont, Prod.mk.injEq] at hturn
      simp only [turn, hmove, continuation_of_ended hcont hended after', hturn.1]
    obtain ⟨after', hne, hplain, hdiffer⟩ := exists_errorsOn_ne hnodes hmove fun hsame =>
      hlevels.1.pending hlast (hcase (hsame.trans hdepth.symm))
    exact ⟨after', hne, hplain, hturn' after', hblocks ▸ hdiffer⟩

/-! ## What skipping skips -/

/-- Up to the refused statement all is placed, and after it the blocks that it leaves go on. -/
theorem skipping_eq_of_refused {before more after : List (List Char)} {line : List Char}
    {bs : Blocks} {failure : Failure Blocks} (hended : Ended before)
    (hplace : Blocks.start.placeAll ((entriesOf before).map Entry.item) = .ok bs)
    (hturn : turn bs line (more ++ after) = (.error failure, after)) {source : String}
    (hsource : textLines source = before ++ line :: more ++ after) :
    skipping source =
      ⟨(String.ofList line, failure.error) :: (readOn skipAll [] failure.blocks after).refusals,
        (readOn skipAll [] failure.blocks after).result⟩ := by
  rw [skipping_eq_readOn, hsource, List.append_assoc, readOn_placed hended hplace,
    List.cons_append, readOn_cons_error hturn]

theorem skipping_eq_of_placed {before after : List (List Char)} {bs : Blocks}
    (hended : Ended before)
    (hplace : Blocks.start.placeAll ((entriesOf before).map Entry.item) = .ok bs)
    {source : String} (hsource : textLines source = before ++ after) :
    skipping source = readOn skipAll [] bs after := by
  rw [skipping_eq_readOn, hsource, readOn_placed hended hplace]

theorem LeavesNoTrace.skippedExactly {before own : List (List Char)} {error : Error}
    (h : LeavesNoTrace before own error) : SkippedExactly before own error := by
  rintro after source rest ⟨bs, line, more, failure, rfl, hended, hplace, hturn, herror⟩
    hsource hrest
  have hsame := readOn_of_leavesNoTrace h (tracks_placeAll hplace) rfl hturn herror
  rw [skipping_eq_of_refused hended hplace hturn hsource,
    skipping_eq_of_placed hended hplace hrest, ← hsame]
  exact ⟨rfl, rfl⟩

theorem FirstRefused.leavesNoTrace {before own after : List (List Char)} {error : Error}
    (h : FirstRefused before own after error) (hplain : Plain (before ++ own))
    (hskip : SkippedExactly before own error) : LeavesNoTrace before own error := by
  obtain ⟨bs, line, more, failure, rfl, hended, hplace, hturn, herror⟩ := h
  by_contra htrace
  obtain ⟨after', hne, hafter, hturn', hdiffer⟩ :=
    exists_trace htrace (tracks_placeAll hplace) rfl hturn herror
  have hown : Plain (before ++ line :: more ++ after') := by
    intro l hl
    rcases List.mem_append.1 hl with hl | hl
    · exact hplain l hl
    · exact hafter l hl
  have hwithout : Plain (before ++ after') := by
    intro l hl
    rcases List.mem_append.1 hl with hl | hl
    · exact hplain l (List.mem_append_left _ hl)
    · exact hafter l hl
  obtain ⟨source, hsource⟩ := exists_textLines_eq (by simp) hown
  obtain ⟨rest, hrest⟩ := exists_textLines_eq (by simp [hne]) hwithout
  obtain ⟨hrefusals, _⟩ := hskip after' source rest
    ⟨bs, line, more, failure, rfl, hended, hplace, hturn', herror⟩ hsource hrest
  rw [skipping_eq_of_refused hended hplace hturn' hsource,
    skipping_eq_of_placed hended hplace hrest] at hrefusals
  exact hdiffer (congrArg (List.map Prod.snd) hrefusals)

/-- In a source with a refusal the first refused statement is skipped exactly if and only if it
leaves no trace. After any other the blocks that it has opened, closed or lost stay so, and a case
that it has settled gets no body any more. -/
theorem skippedExactly_iff {source : String}
    (h : (read (fun _ _ => .skip) source).offers ≠ []) :
    ∃ before own after error, textLines source = before ++ own ++ after ∧
      FirstRefused before own after error ∧
      (skipping source).refusals.head? = some (String.ofList (own.headD []), error) ∧
      (SkippedExactly before own error ↔ LeavesNoTrace before own error) := by
  rcases exists_refused .start (textLines source) with
    ⟨before, line, more, after, bs, failure, hls, hended, hplace, hturn⟩ | hnone
  · have hsource : textLines source = before ++ line :: more ++ after := by simp [hls]
    have hfirst : FirstRefused before (line :: more) after failure.error :=
      ⟨bs, line, more, failure, rfl, hended, hplace, hturn, rfl⟩
    refine ⟨before, line :: more, after, failure.error, hsource, hfirst, ?_, ?_, ?_⟩
    · rw [skipping_eq_of_refused hended hplace hturn hsource]
      rfl
    · refine hfirst.leavesNoTrace fun l hl => plain_textLines source l ?_
      rw [hsource]
      exact List.mem_append_left _ hl
    · exact LeavesNoTrace.skippedExactly
  · rw [← skipping_eq_readOn] at hnone
    exact absurd (List.map_eq_nil_iff.1 hnone) h

/-- An unknown command between two nested statements is offered. -/
theorem skippedExactly_iff_unknown :
    let source := "a\n\tb\n:bogus\n\tc"
    (read (fun _ _ => .skip) source).offers ≠ [] ∧
      ∃ before own after error, textLines source = before ++ own ++ after ∧
        FirstRefused before own after error ∧
        (skipping source).refusals.head? = some (String.ofList (own.headD []), error) ∧
        (SkippedExactly before own error ↔ LeavesNoTrace before own error) := by
  have hoffered : (read (fun _ _ => .skip) "a\n\tb\n:bogus\n\tc").offers ≠ [] := by
    intro h
    have hlength := congrArg List.length h
    revert hlength
    decide
  exact ⟨hoffered, skippedExactly_iff hoffered⟩

/-- Skipping the unknown command loses the statement nested before it. -/
theorem not_skippedExactly_unknown :
    let before := ["a".toList, "\tb".toList]
    let own := [":bogus".toList]
    FirstRefused before own ["\tc".toList] (.unknownCommand "bogus") ∧
      (skipping "a\n\tb\n:bogus\n\tc").result =
        .ok (some (.list [.process "a" (some (.process "c" none))])) ∧
      (skipping "a\n\tb\n\tc").result =
        .ok (some (.list [.process "a" (some (.list [.process "b" none, .process "c" none]))])) ∧
      ¬ SkippedExactly before own (.unknownCommand "bogus") := by
  have hended : Ended ["a".toList, "\tb".toList] := by
    intro l hl
    cases hl
    rfl
  have hfirst : FirstRefused ["a".toList, "\tb".toList] [":bogus".toList] ["\tc".toList]
      (.unknownCommand "bogus") := ⟨_, _, [], _, rfl, hended, rfl, rfl, rfl⟩
  have hwith : (skipping "a\n\tb\n:bogus\n\tc").result =
      .ok (some (.list [.process "a" (some (.process "c" none))])) := rfl
  have hwithout : (skipping "a\n\tb\n\tc").result =
      .ok (some (.list [.process "a" (some (.list [.process "b" none, .process "c" none]))])) := rfl
  refine ⟨hfirst, hwith, hwithout, fun hskip => ?_⟩
  have hsame := (hskip _ "a\n\tb\n:bogus\n\tc" "a\n\tb\n\tc" hfirst rfl rfl).2
  rw [hwith, hwithout] at hsame
  cases hsame

end ProgramDiagram.Outline
