import ProgramDiagram.Proofs.Outline.Grammar
import ProgramDiagram.Proofs.Outline.WellFormed

/-!
# The errors of a reading

* `Blocks.Keep.closeTo_error`: open blocks fail to close only under a terminal.
* `Offered.error`: what the error of an offer can be.
* `errors_read`: all other ways in which blocks could turn out inconsistent are never met, and only
  a recovery interrupts a reading.
-/

namespace ProgramDiagram.Outline

variable {recovery : Recovery} {source : String}

/-- An error that is offered, or that the reading comes to. -/
def Report.Shows (r : Report) (e : Error) : Prop :=
  (∃ offer ∈ r.offers, offer.error = e) ∨ r.result = .error e

/-- A recovery that skips or stops but never interrupts. -/
def Recovery.Calm (recovery : Recovery) : Prop :=
  ∀ before offer reason, recovery before offer ≠ .interrupt reason

/-- The line of an offer and those in which its statement goes on say a command word. -/
def Offer.Says (offer : Offer) (source word : String) : Prop :=
  ∃ before more after, textLines source = before ++ offer.line.toList :: (more ++ after) ∧
    continuation offer.line.toList (more ++ after) = (more, after) ∧
    (Passage.entry ⟨offer.line.toList, more⟩).Says word

/-! ## Closing blocks -/

/-- An `else` that is pending belongs to a decision without a false branch. -/
def Block.ElseFits (b : Block) : Prop :=
  b.slot = .elseBranch → ∃ t onTrue rest, b.nodes = .decision t onTrue none :: rest

theorem kept_elseFits : Kept Block.ElseFits := by
  refine .of_slot (fun b hbody hslot => ?_) fun haccept hslot => ?_
  · rw [hbody] at hslot
    cases hslot
  · cases haccept with
    | made | case => cases hslot
    | elseBranch hnodes => exact ⟨_, _, _, hnodes⟩

/-- An owner refuses a body only if it is a terminal. -/
theorem Block.Owner.attach_error {p : Block} (howner : p.Owner) (hsiblings : Siblings p.nodes)
    (helse : p.ElseFits) {body : Node} {e : Error} (h : p.attach body = .error e) :
    e = .inconsistent (.cannotHold .terminal) := by
  obtain ⟨nodes, slot⟩ := p
  obtain ⟨hnodes, hnest⟩ := howner
  cases nodes with
  | nil => exact absurd rfl hnodes
  | cons node rest =>
    cases node with
    | process | call | loop => cases h
    | terminal => cases h; rfl
    | comment => cases hnest
    | list children => exact absurd rfl (hsiblings _ List.mem_cons_self)
    | switch =>
      cases slot with
      | body | elseBranch => cases hnest
      | case => cases h
    | decision t onTrue onFalse =>
      cases slot with
      | body | case => cases h
      | elseBranch =>
        obtain ⟨_, _, _, hdecision⟩ := helse rfl
        cases hdecision
        cases h

theorem kept_closes : Kept fun b => b.Tidy ∧ b.ElseFits := kept_tidy.and kept_elseFits

theorem Blocks.Keep.closeTo_error {bs : Blocks} (h : bs.Keep fun b => b.Tidy ∧ b.ElseFits) {d : Nat}
    {failure : Failure Blocks} (hclose : closeTo d bs.current bs.outer = .error failure) :
    failure.error = .inconsistent (.cannotHold .terminal) := by
  obtain ⟨_, c, owner, ⟨htidy, helse⟩, howner, hinto⟩ :=
    (kept_closes.closeTo h.1 h.2).2 failure hclose
  unfold Block.closeInto at hinto
  split at hinto
  · cases hinto
  · exact howner.attach_error htidy.siblings helse hinto

theorem Reached.closeTo_error {p : Progress Blocks} {rest : List (List Char)}
    (h : Reached recovery source p rest) {d : Nat} {failure : Failure Blocks}
    (hclose : Blocks.closeTo d p.blocks.current p.blocks.outer = .error failure) :
    failure.error = .inconsistent (.cannotHold .terminal) :=
  (kept_closes.reached h).closeTo_error hclose

/-- Closing open blocks fails, for a statement that may have opened one, or at the end. -/
inductive Stack.FailsToClose (s : Stack) (setback : Setback Stack) : Prop
  | forStatement {depth : Nat} {opened : Stack} (hopen : s.openTo depth = .ok opened)
      (hclose : opened.closeTo depth = .error setback) : FailsToClose s setback
  | atEnd (hclose : s.closeOuter = .error setback) : FailsToClose s setback

/-- Open blocks of a stack fail to close only under a terminal. -/
theorem Blocks.Keep.stack_error {bs : Blocks} (h : bs.Keep fun b => b.Tidy ∧ b.ElseFits)
    {setback : Setback Stack} (hfails : bs.stack.FailsToClose setback) :
    setback.error = .inconsistent (.cannotHold .terminal) := by
  have hto {depth : Nat} (hclose : bs.stack.closeTo depth = .error setback) :
      setback.error = .inconsistent (.cannotHold .terminal) := by
    rw [Stack.closeTo_stack] at hclose
    cases hattempt : Blocks.closeTo depth bs.current bs.outer with
    | ok closed =>
      rw [hattempt] at hclose
      cases hclose
    | error failure =>
      rw [hattempt] at hclose
      cases hclose
      exact h.closeTo_error hattempt
  cases hfails with
  | forStatement hopen hclose =>
    rcases Stack.openTo_stack_ok hopen with rfl | hdone
    · exact hto hclose
    · cases hdone.symm.trans hclose
  | atEnd hclose =>
    rw [Stack.closeOuter_stack] at hclose
    exact hto hclose

/-! ## Offers -/

/-- A statement is refused for its depth, for a block under a terminal, or for what it says. -/
theorem Offered.error {p : Progress Blocks} {offer : Offer} {failure : Failure Blocks}
    (h : Offered recovery source p offer failure) :
    offer.error = .illegalIndentation ∨ offer.error = .inconsistent (.cannotHold .terminal) ∨
      ∃ before more after, textLines source = before ++ offer.line.toList :: (more ++ after) ∧
        continuation offer.line.toList (more ++ after) = (more, after) ∧
        RefusedFor (Passage.entry ⟨offer.line.toList, more⟩).statement offer.error := by
  obtain ⟨line, rest, after, hreached, hturn, hline, herror⟩ := h
  have hplace := congrArg Prod.fst hturn
  rw [turn_fst] at hplace
  rw [hline, herror, String.toList_ofList]
  rcases Blocks.place_error hplace with hmove | ⟨_, _, _, _, hrefused⟩
  · rcases Blocks.moveTo_error hmove with rfl | hclose
    · exact .inl rfl
    · exact .inr (.inl (hreached.closeTo_error hclose))
  · obtain ⟨before, hbefore⟩ := hreached.suffix
    refine .inr (.inr ⟨before, (continuation line rest).1, (continuation line rest).2, ?_, ?_,
      hrefused⟩)
    · rw [append_continuation, hbefore]
    · rw [append_continuation]

theorem Offered.inconsistent {p : Progress Blocks} {offer : Offer} {failure : Failure Blocks}
    (h : Offered recovery source p offer failure) {cause : Inconsistency}
    (herror : offer.error = .inconsistent cause) : cause = .cannotHold .terminal := by
  rcases h.error with hdepth | hclose | ⟨_, _, _, _, _, hrefused⟩
  · rw [hdepth] at herror
    cases herror
  · rw [hclose] at herror
    cases herror
    rfl
  · exact absurd herror (hrefused.ne_moveTo_error.2 cause)

theorem Offered.not_interrupted {p : Progress Blocks} {offer : Offer} {failure : Failure Blocks}
    (h : Offered recovery source p offer failure) (reason : Option String) :
    offer.error ≠ .interrupted reason := by
  intro herror
  rcases h.error with hdepth | hclose | ⟨_, _, _, _, _, hrefused⟩
  · rw [hdepth] at herror
    cases herror
  · rw [hclose] at herror
    cases herror
  · exact hrefused.ne_interrupted reason herror

theorem Offered.says_else {p : Progress Blocks} {offer : Offer} {failure : Failure Blocks}
    (h : Offered recovery source p offer failure) (herror : offer.error = .misplacedElse) :
    offer.Says source "else" := by
  rcases h.error with hdepth | hclose | ⟨before, more, after, hlines, hcontinues, hrefused⟩
  · rw [hdepth] at herror
    cases herror
  · rw [hclose] at herror
    cases herror
  · rw [herror] at hrefused
    exact ⟨before, more, after, hlines, hcontinues, Outline.says_else.2 hrefused.of_misplacedElse⟩

theorem Ends.offered {r : Report} (h : Ends recovery source r) :
    ∀ offer ∈ r.offers, ∃ p failure, Offered recovery source p offer failure := by
  have earlier {p : Progress Blocks} {rest : List (List Char)} (hp : Reached recovery source p rest)
      {offer : Offer} (hoffer : offer ∈ p.offers) :
      ∃ p failure, Offered recovery source p offer failure := by
    obtain ⟨later, before, hsplit⟩ := List.append_of_mem hoffer
    obtain ⟨_, q, failure, _, hoffered⟩ := hp.offer hsplit
    exact ⟨q, failure, hoffered⟩
  intro offer hoffer
  cases h with
  | closed hp => exact earlier hp (List.mem_reverse.1 hoffer)
  | stopped hlast | interrupted hlast =>
    rcases List.mem_cons.1 (List.mem_reverse.1 hoffer) with rfl | hoffer
    · exact ⟨_, _, hlast⟩
    · obtain ⟨_, _, _, hp, _⟩ := hlast
      exact earlier hp hoffer

/-- All offers but the last were answered by going on. -/
theorem Reached.answered {p : Progress Blocks} {rest : List (List Char)}
    (h : Reached recovery source p rest) {last offer : Offer} {earlier later : List Offer}
    (hoffers : (last :: p.offers).reverse = earlier ++ offer :: later) :
    recovery earlier.reverse offer = .skip ∨
      offer = last ∧ earlier.reverse = p.offers ∧ later = [] := by
  have hsplit : last :: p.offers = later.reverse ++ offer :: earlier.reverse := by
    rw [← List.reverse_reverse (last :: p.offers), hoffers]
    simp
  cases hlater : later.reverse with
  | nil =>
    rw [hlater] at hsplit
    obtain ⟨rfl, hbefore⟩ := List.cons.inj hsplit
    exact .inr ⟨rfl, hbefore.symm, List.reverse_eq_nil_iff.1 hlater⟩
  | cons first others =>
    rw [hlater] at hsplit
    have hrest := (List.cons.inj hsplit).2
    exact .inl (h.offer hrest).1

/-- A reading that is interrupted ends there. -/
theorem Ends.of_interrupt {r : Report} (h : Ends recovery source r) {earlier later : List Offer}
    {offer : Offer} {reason : Option String} (hoffers : r.offers = earlier ++ offer :: later)
    (hint : recovery earlier.reverse offer = .interrupt reason) :
    later = [] ∧ r.result = .error (.interrupted reason) := by
  cases h with
  | closed hp =>
    have hsplit := congrArg List.reverse hoffers
    rw [List.reverse_reverse, List.reverse_append, List.reverse_cons, List.append_assoc,
      List.singleton_append] at hsplit
    have hskip := (hp.offer hsplit).1
    rw [hint] at hskip
    cases hskip
  | stopped hlast hstop =>
    obtain ⟨_, _, _, hp, _⟩ := hlast
    rcases hp.answered hoffers with hskip | ⟨rfl, hbefore, _⟩
    · rw [hint] at hskip
      cases hskip
    · rw [hbefore, hstop] at hint
      cases hint
  | interrupted hlast hlastInt =>
    obtain ⟨_, _, _, hp, _⟩ := hlast
    rcases hp.answered hoffers with hskip | ⟨rfl, hbefore, hlater⟩
    · rw [hint] at hskip
      cases hskip
    · rw [hbefore, hlastInt] at hint
      cases hint
      exact ⟨hlater, rfl⟩

/-! ## Errors that are shown -/

theorem Blocks.closeAll_error {bs : Blocks} {e : Error} (h : bs.closeAll = .error e) :
    ∃ failure, closeTo 0 bs.current bs.outer = .error failure ∧ failure.error = e := by
  unfold closeAll at h
  split at h
  · rename_i failure hclose
    cases h
    exact ⟨failure, hclose, rfl⟩
  · split at h <;> cases h

/-- An error that a reading comes to is an offer that was declined, the interruption of one, or a
terminal that cannot hold the last blocks. -/
theorem Ends.result_error {r : Report} (h : Ends recovery source r) {e : Error}
    (he : r.result = .error e) :
    (∃ offer ∈ r.offers, offer.error = e) ∨ e = .inconsistent (.cannotHold .terminal) ∨
      ∃ before offer reason, recovery before offer = .interrupt reason ∧
        e = .interrupted reason := by
  cases h with
  | closed hp =>
    obtain ⟨failure, hclose, rfl⟩ := Blocks.closeAll_error he
    exact .inr (.inl (hp.closeTo_error hclose))
  | @stopped p offer failure hlast hstop =>
    cases he
    obtain ⟨_, _, _, _, _, _, herror⟩ := hlast
    exact .inl ⟨offer, by simp, herror⟩
  | @interrupted p offer failure reason hlast hint =>
    cases he
    exact .inr (.inr ⟨p.offers, offer, reason, hint, rfl⟩)

/-- An error that is shown was offered, or is one that the reading came to otherwise. -/
theorem Ends.shown {r : Report} (h : Ends recovery source r) {e : Error} (hshows : r.Shows e) :
    (∃ offer ∈ r.offers, offer.error = e) ∨ e = .inconsistent (.cannotHold .terminal) ∨
      ∃ before offer reason, recovery before offer = .interrupt reason ∧
        e = .interrupted reason :=
  hshows.elim .inl h.result_error

theorem Ends.shown_inconsistent {r : Report} (h : Ends recovery source r) {cause : Inconsistency}
    (hshows : r.Shows (.inconsistent cause)) : cause = .cannotHold .terminal := by
  rcases h.shown hshows with ⟨offer, hoffer, herror⟩ | hclose | ⟨_, _, _, _, hinterrupted⟩
  · obtain ⟨_, _, hoffered⟩ := h.offered offer hoffer
    exact hoffered.inconsistent herror
  · cases hclose
    rfl
  · cases hinterrupted

theorem Ends.not_shown_interrupted {r : Report} (h : Ends recovery source r)
    (hcalm : recovery.Calm) (reason : Option String) : ¬ r.Shows (.interrupted reason) := by
  intro hshows
  rcases h.shown hshows with ⟨offer, hoffer, herror⟩ | hclose | ⟨before, offer, _, hint, _⟩
  · obtain ⟨_, _, hoffered⟩ := h.offered offer hoffer
    exact hoffered.not_interrupted reason herror
  · cases hclose
  · exact hcalm before offer _ hint

/-- Whatever a recovery decides, blocks turn out inconsistent only where a terminal would have to
hold one. Between two lines and at the end there is always a current block, the depth of every open
block is its place on the stack, every one around another can hold it, and no closing fails in
another way: not for want of a block to close into, and not with an `else`. An `else` is misplaced
only by a statement that says so. A reading is interrupted by its recovery alone, never by a panic
of its own, and then ends with that reason. -/
theorem errors_read (recovery : Recovery) (source : String) :
    (∀ cause, (read recovery source).Shows (.inconsistent cause) →
      cause = .cannotHold .terminal ∧ cause.message = "a terminal node cannot hold children") ∧
    (∀ p : Progress Stack, Visits recovery source p → p.blocks.Levelled ∧
      (∀ context ∈ p.blocks.tail, context.block.Owner) ∧
      ∀ setback, p.blocks.FailsToClose setback →
        setback.error = .inconsistent (.cannotHold .terminal)) ∧
    (∀ offer ∈ (read recovery source).offers, offer.error = .misplacedElse →
      offer.Says source "else") ∧
    ((read recovery source).result = .error .misplacedElse →
      ∃ offer ∈ (read recovery source).offers, offer.error = .misplacedElse) ∧
    (recovery.Calm → ∀ reason, ¬ (read recovery source).Shows (.interrupted reason)) ∧
    (∀ earlier offer later reason, (read recovery source).offers = earlier ++ offer :: later →
      recovery earlier.reverse offer = .interrupt reason →
        later = [] ∧ (read recovery source).result = .error (.interrupted reason) ∧
          (Error.interrupted reason).message =
            "unexpected error: " ++ reason.getD "unknown panic") := by
  have hends := ends_read recovery source
  refine ⟨fun cause hshows => ?inconsistent, fun p hp => ?closing,
    fun offer hoffer => ?misplaced, fun hresult => ?declined,
    fun hcalm reason => hends.not_shown_interrupted hcalm reason,
    fun earlier offer later reason hsplit hint => ?interrupted⟩
  case inconsistent =>
    obtain rfl := hends.shown_inconsistent hshows
    exact ⟨rfl, by decide⟩
  case closing =>
    obtain ⟨q, rfl, hq⟩ := carries_stack.exists_of_visits recovery hp
    have hkeep := kept_closes.visits hq
    exact ⟨q.blocks.levelled_stack, fun context hcontext => (hkeep.of_mem_tail hcontext).2,
      fun setback => hkeep.stack_error⟩
  case misplaced =>
    obtain ⟨_, _, hoffered⟩ := hends.offered offer hoffer
    exact hoffered.says_else
  case declined =>
    rcases hends.result_error hresult with hoffer | hclose | ⟨_, _, _, _, hinterrupted⟩
    · exact hoffer
    · cases hclose
    · cases hinterrupted
  case interrupted =>
    obtain ⟨hlater, hresult⟩ := hends.of_interrupt hsplit hint
    exact ⟨hlater, hresult, rfl⟩

end ProgramDiagram.Outline
