import ProgramDiagram.Proofs.Outline.Placement

/-!
# The states that a reading reaches

A reading with any recovery, told statement by statement:

* `Reached`: the states between two statements;
* `remaining_invariant`: what one statement keeps, a whole reading keeps;
* `ends_read`: the ways in which a reading comes to an end;
* `Kept`: what every part of placing a statement keeps, all blocks of a reached state have, and all
  that are open between two lines or at the end.
-/

namespace ProgramDiagram.Outline

variable {recovery : Recovery} {source : String}

/-- An offer tells the first line of a refused statement and the error. -/
def Offer.Tells (offer : Offer) (line : List Char) (failure : Failure Blocks) : Prop :=
  offer.line = String.ofList line ∧ offer.error = failure.error

/-- The states of a reading between two statements, with the lines that are still to be read. -/
inductive Reached (recovery : Recovery) (source : String) :
    Progress Blocks → List (List Char) → Prop
  | start : Reached recovery source .start (textLines source)
  | placed {p : Progress Blocks} {line : List Char} {rest after : List (List Char)}
      {blocks : Blocks} (h : Reached recovery source p (line :: rest))
      (hturn : turn p.blocks line rest = (.ok blocks, after)) :
      Reached recovery source ⟨blocks, none, p.offers⟩ after
  | skipped {p : Progress Blocks} {line : List Char} {rest after : List (List Char)}
      {failure : Failure Blocks} {offer : Offer} (h : Reached recovery source p (line :: rest))
      (hturn : turn p.blocks line rest = (.error failure, after))
      (htells : offer.Tells line failure) (hskip : recovery p.offers offer = .skip) :
      Reached recovery source ⟨failure.blocks, none, offer :: p.offers⟩ after

/-- In a state that is reached the next statement is refused and offered. -/
def Offered (recovery : Recovery) (source : String) (p : Progress Blocks) (offer : Offer)
    (failure : Failure Blocks) : Prop :=
  ∃ line rest after, Reached recovery source p (line :: rest) ∧
    turn p.blocks line rest = (.error failure, after) ∧ offer.Tells line failure

/-- The reports of a reading: all lines are read, or an offer is declined or interrupted. -/
inductive Ends (recovery : Recovery) (source : String) : Report → Prop
  | closed {p : Progress Blocks} (h : Reached recovery source p []) :
      Ends recovery source ⟨p.offers.reverse, p.blocks.closeAll⟩
  | stopped {p : Progress Blocks} {offer : Offer} {failure : Failure Blocks}
      (h : Offered recovery source p offer failure) (hstop : recovery p.offers offer = .stop) :
      Ends recovery source ⟨(offer :: p.offers).reverse, .error failure.error⟩
  | interrupted {p : Progress Blocks} {offer : Offer} {failure : Failure Blocks}
      {reason : Option String} (h : Offered recovery source p offer failure)
      (hint : recovery p.offers offer = .interrupt reason) :
      Ends recovery source ⟨(offer :: p.offers).reverse, .error (.interrupted reason)⟩

/-- The report of a reading that has come to an end. -/
def reportOf : Except Halt (Progress Blocks) → Report
  | .ok p => ⟨p.offers.reverse, p.blocks.closeAll⟩
  | .error halt => ⟨halt.offers.reverse, .error halt.error⟩

/-- The next statement begins with the line `l` and is refused. It is offered after the lines `more`
are read for it, and the lines `after` are left. -/
structure Refuses (count : Nat) (p : Progress Blocks) (l : List Char × Nat)
    (more after : List (List Char × Nat)) (offer : Offer) (failure : Failure Blocks) : Prop where
  reads : TurnReads p.blocks count l (more ++ after) more offer.number
  turned : turn p.blocks l.1 ((more ++ after).map Prod.fst) = (.error failure, after.map Prod.fst)
  tells : offer.Tells l.1 failure

/-- What placing and skipping a statement keeps holds at the end, whether all lines are read or the
last offer is not answered by going on. -/
theorem remaining_invariant (count : Nat) {I : Progress Blocks → List (List Char × Nat) → Prop}
    (placed : ∀ {p l more after blocks}, I p (l :: (more ++ after)) →
      turn p.blocks l.1 ((more ++ after).map Prod.fst) = (.ok blocks, after.map Prod.fst) →
      I ⟨blocks, none, p.offers⟩ after)
    (skipped : ∀ {p l more after offer failure}, I p (l :: (more ++ after)) →
      Refuses count p l more after offer failure → recovery p.offers offer = .skip →
      I ⟨failure.blocks, none, offer :: p.offers⟩ after)
    (ls : List (List Char × Nat)) (hls : ∀ l ∈ ls, isCommentLine l.1 = false) {p : Progress Blocks}
    (hp : p.unfinished = none) (h : I p ls) :
    (∃ q, I q [] ∧ remaining recovery count ls p = .ok q) ∨
    ∃ q l more after offer failure, I q (l :: (more ++ after)) ∧
      Refuses count q l more after offer failure ∧
      (recovery q.offers offer = .stop ∧
          remaining recovery count ls p = .error ⟨offer :: q.offers, failure.error⟩ ∨
        ∃ reason, recovery q.offers offer = .interrupt reason ∧
          remaining recovery count ls p = .error ⟨offer :: q.offers, .interrupted reason⟩) := by
  induction hn : ls.length using Nat.strongRecOn generalizing ls p with
  | ind n ih =>
    cases ls with
    | nil => exact .inl ⟨p, h, remaining_nil hp recovery count⟩
    | cons l ls =>
      obtain ⟨last, more, after, rfl, hreads, hafter, heq⟩ := remaining_turn recovery count hls hp
      have next := fun q hq => ih after.length (by simp at hn; omega) after
        (fun l h => hls l (by simp [h])) (p := q) hq
      rw [heq]
      cases hattempt : (turn p.blocks l.1 ((more ++ after).map Prod.fst)).1 with
      | ok blocks =>
        exact next ⟨blocks, none, p.offers⟩ rfl (placed h (Prod.ext hattempt hafter)) rfl
      | error failure =>
        have hrefuses : Refuses count p l more after ⟨String.ofList l.1, last, failure.error⟩
            failure := ⟨hreads, Prod.ext hattempt hafter, rfl, rfl⟩
        simp only [settle, Attempt.of_error]
        cases hanswer : recovery p.offers ⟨String.ofList l.1, last, failure.error⟩ with
        | skip => exact next _ rfl (skipped h hrefuses hanswer) rfl
        | stop => exact .inr ⟨p, l, more, after, _, failure, h, hrefuses, .inl ⟨hanswer, rfl⟩⟩
        | interrupt reason =>
          exact .inr ⟨p, l, more, after, _, failure, h, hrefuses, .inr ⟨reason, hanswer, rfl⟩⟩

theorem Reached.offered {count : Nat} {p : Progress Blocks} {l : List Char × Nat}
    {more after : List (List Char × Nat)} {offer : Offer} {failure : Failure Blocks}
    (h : Reached recovery source p ((l :: (more ++ after)).map Prod.fst))
    (hrefuses : Refuses count p l more after offer failure) :
    Offered recovery source p offer failure :=
  ⟨l.1, _, _, h, hrefuses.turned, hrefuses.tells⟩

theorem read_eq_reportOf (recovery : Recovery) (source : String) :
    read recovery source =
      reportOf (remaining recovery (lines source).length (numberedLines source) .start) := by
  rw [← run_eq_remaining, read_eq_readIn, readIn]
  cases (run recovery (lines source) : Except Halt (Progress Blocks)) <;> rfl

theorem ends_read (recovery : Recovery) (source : String) :
    Ends recovery source (read recovery source) := by
  have hstart : Reached recovery source .start ((numberedLines source).map Prod.fst) :=
    map_fst_numberedLines source ▸ .start
  rw [read_eq_reportOf]
  rcases remaining_invariant (lines source).length
      (I := fun p ls => Reached recovery source p (ls.map Prod.fst)) .placed
      (fun h hrefuses => .skipped h hrefuses.turned hrefuses.tells) (numberedLines source)
      (fun l => isCommentLine_of_mem_numberedLines) rfl hstart with
    ⟨q, hq, hend⟩ | ⟨q, l, more, after, offer, failure, hq, hrefuses,
      ⟨hstop, hend⟩ | ⟨reason, hint, hend⟩⟩
  · rw [hend]
    exact .closed hq
  · rw [hend]
    exact .stopped (hq.offered hrefuses) hstop
  · rw [hend]
    exact .interrupted (hq.offered hrefuses) hint

/-! ## Lines and offers of a reached state -/

theorem turn_snd_suffix (bs : Blocks) (line : List Char) (rest : List (List Char)) :
    (turn bs line rest).2 <:+ rest := by
  unfold turn
  cases bs.moveTo (indentation line) with
  | error failure => exact List.suffix_refl rest
  | ok bs => exact ⟨(continuation line rest).1, append_continuation line rest⟩

/-- The lines to be read are the last lines of the source. -/
theorem Reached.suffix {p : Progress Blocks} {rest : List (List Char)}
    (h : Reached recovery source p rest) : rest <:+ textLines source := by
  have step {bs : Blocks} {line : List Char} {rest after : List (List Char)}
      {attempt : Except (Failure Blocks) Blocks} (hturn : turn bs line rest = (attempt, after))
      (h : line :: rest <:+ textLines source) : after <:+ textLines source := by
    have hafter := turn_snd_suffix bs line rest
    rw [hturn] at hafter
    exact (hafter.trans (List.suffix_cons line rest)).trans h
  induction h with
  | start => exact List.suffix_refl _
  | placed _ hturn ih => exact step hturn ih
  | skipped _ hturn _ _ ih => exact step hturn ih

/-- Every offer was made in a state before, and answered by going on. -/
theorem Reached.offer {p : Progress Blocks} {rest : List (List Char)}
    (h : Reached recovery source p rest) {offer : Offer} {later before : List Offer}
    (hoffer : p.offers = later ++ offer :: before) :
    recovery before offer = .skip ∧
      ∃ q failure, q.offers = before ∧ Offered recovery source q offer failure := by
  induction h generalizing later with
  | start => cases later <;> cases hoffer
  | placed _ _ ih => exact ih hoffer
  | @skipped p line rest after failure last h hturn htells hskip ih =>
    cases later with
    | nil =>
      cases hoffer
      exact ⟨hskip, p, failure, rfl, line, rest, after, h, hturn, htells⟩
    | cons first later =>
      have hrest := (List.cons.inj hoffer).2
      exact ih hrest

/-! ## What the blocks of a reached state have -/

/-- A block in which a nested one is open. -/
def Block.Owner (b : Block) : Prop := b.nodes ≠ [] ∧ b.canNest

/-- A property of blocks that every part of placing a statement keeps. -/
structure Kept (P : Block → Prop) : Prop where
  empty : P .empty
  commit {b : Block} : P b → P b.commit
  attach {c p p' : Block} : P c → P p → Block.closeInto c p = .ok p' → P p'
  accept {b b' : Block} (passage : Passage) : P b → Accepted b passage.entry.statement b' → P b'

/-- All open blocks have a property, and the outer ones own a nested block. -/
def Blocks.Keep (P : Block → Prop) (bs : Blocks) : Prop :=
  P bs.current ∧ ∀ b ∈ bs.outer, P b ∧ b.Owner

theorem Blocks.Keep.of_mem_tail {P : Block → Prop} {bs : Blocks} (h : bs.Keep P) {context : Context}
    (hcontext : context ∈ bs.stack.tail) : P context.block ∧ context.block.Owner := by
  have hblock : context.block ∈ (contexts bs.outer).map Context.block :=
    List.mem_map_of_mem hcontext
  rw [map_block_contexts] at hblock
  exact h.2 _ hblock

theorem Blocks.Keep.of_mem {P : Block → Prop} {bs : Blocks} (h : bs.Keep P) {context : Context}
    (hcontext : context ∈ bs.stack) : P context.block := by
  rcases List.mem_cons.1 hcontext with rfl | htail
  · exact h.1
  · exact (h.of_mem_tail htail).1

/-- The blocks that an attempt leaves open have a property, whether it succeeds or not. -/
def KeepAfter (P : Block → Prop) : Except (Failure Blocks) Blocks → Prop
  | .ok bs => bs.Keep P
  | .error failure => failure.blocks.Keep P

namespace Kept

variable {P : Block → Prop}

theorem closeTo (hP : Kept P) {d : Nat} {c : Block} {outer : List Block} (hc : P c)
    (ho : ∀ b ∈ outer, P b ∧ b.Owner) :
    (∀ bs, Blocks.closeTo d c outer = .ok bs → bs.Keep P) ∧
    ∀ failure, Blocks.closeTo d c outer = .error failure → failure.blocks.Keep P ∧
      ∃ c p, P p ∧ p.Owner ∧ Block.closeInto c p = .error failure.error := by
  refine Blocks.closeTo_invariant (I := fun c outer => P c ∧ ∀ b ∈ outer, P b ∧ b.Owner)
    (fun _ hI hinto => ?_) (fun _ hI hinto => ?_) ⟨hc, ho⟩
  · obtain ⟨hc, ho⟩ := hI
    obtain ⟨⟨hparent, _⟩, ho⟩ := List.forall_mem_cons.1 ho
    exact ⟨hP.attach hc hparent hinto, ho⟩
  · obtain ⟨_, ho⟩ := hI
    obtain ⟨⟨hparent, howner⟩, ho⟩ := List.forall_mem_cons.1 ho
    exact ⟨⟨hparent, ho⟩, _, _, hparent, howner, hinto⟩

theorem moveTo (hP : Kept P) {bs bs' : Blocks} {d : Nat} (hbs : bs.Keep P)
    (h : bs.moveTo d = .ok bs') : bs'.Keep P := by
  rcases Blocks.moveTo_ok h with ⟨_, hnodes, hnest, rfl⟩ | ⟨_, _, hclose⟩
  · refine ⟨hP.empty, fun b hb => ?_⟩
    rcases List.mem_cons.1 hb with rfl | hb
    · exact ⟨hbs.1, hnodes, hnest⟩
    · exact hbs.2 b hb
  · exact (hP.closeTo hbs.1 hbs.2).1 bs' hclose

theorem keepAfter_moveTo (hP : Kept P) {bs : Blocks} (hbs : bs.Keep P) (d : Nat) :
    KeepAfter P (bs.moveTo d) := by
  cases hmove : bs.moveTo d with
  | ok moved => exact hP.moveTo hbs hmove
  | error failure =>
    rcases Blocks.moveTo_error hmove with rfl | hclose
    · exact hbs
    · exact ((hP.closeTo hbs.1 hbs.2).2 failure hclose).1

theorem keepAfter_accept (hP : Kept P) {bs : Blocks} (hbs : bs.Keep P) (passage : Passage) :
    KeepAfter P (bs.accept passage.entry.statement) := by
  cases haccepts : bs.accept passage.entry.statement with
  | ok accepted =>
    obtain ⟨b, haccept, rfl⟩ := Blocks.accept_eq_ok_iff.1 haccepts
    exact ⟨hP.accept passage (hP.commit hbs.1) haccept, hbs.2⟩
  | error failure =>
    have hblocks := (Blocks.accept_error haccepts).1
    rw [KeepAfter, hblocks]
    exact ⟨hP.commit hbs.1, hbs.2⟩

theorem keepAfter_place (hP : Kept P) {bs : Blocks} (hbs : bs.Keep P) (passage : Passage) :
    KeepAfter P (bs.place passage.entry.item) := by
  have hmoved := hP.keepAfter_moveTo hbs passage.entry.depth
  rw [Blocks.place, Entry.item]
  cases hmove : bs.moveTo passage.entry.depth with
  | ok moved =>
    rw [hmove] at hmoved
    exact hP.keepAfter_accept hmoved passage
  | error failure =>
    rw [hmove] at hmoved
    exact hmoved

theorem reached (hP : Kept P) {p : Progress Blocks} {rest : List (List Char)}
    (h : Reached recovery source p rest) : p.blocks.Keep P := by
  induction h with
  | start => exact ⟨hP.empty, by simp [Progress.start, Blocks.start]⟩
  | @placed p line rest after blocks _ hturn ih =>
    have hafter := hP.keepAfter_place ih ⟨line, (continuation line rest).1⟩
    rw [← turn_fst, hturn] at hafter
    exact hafter
  | @skipped p line rest after failure offer _ hturn _ _ ih =>
    have hafter := hP.keepAfter_place ih ⟨line, (continuation line rest).1⟩
    rw [← turn_fst, hturn] at hafter
    exact hafter

/-! ### Between two lines and at the end -/

theorem exists_of_bind {α β ε : Type} {x : Except ε α} {f : α → Except ε β} {b : β}
    (h : (x >>= f) = .ok b) : ∃ a, x = .ok a ∧ f a = .ok b := by
  cases x with
  | error e => cases h
  | ok a => exact ⟨a, rfl, h⟩

/-- The open blocks have a property, and the rows of an unfinished statement are those of lines. -/
def Holds (P : Block → Prop) (p : Progress Blocks) : Prop :=
  p.blocks.Keep P ∧
    ∀ g ∈ p.unfinished, ∃ first more, g.rows = ((first :: more : List (List Char)).map row).reverse

theorem holds_settle {attempt : Except (Failure Blocks) Blocks} (hattempt : KeepAfter P attempt)
    {offers : List Offer} {number : Nat} {line : List Char} {p : Progress Blocks}
    (h : settle recovery offers number line (.of attempt) = .ok p) : Holds P p := by
  have hunfinished := unfinished_of_settle h
  refine ⟨?_, by simp [hunfinished]⟩
  cases attempt with
  | ok bs =>
    cases h
    exact hattempt
  | error failure =>
    simp only [settle, Attempt.of_error] at h
    split at h <;> cases h
    exact hattempt

theorem holds_finish (hP : Kept P) {p p' : Progress Blocks} (hp : p.blocks.Keep P)
    {first : List Char} {more : List (List Char)} {g : Gathered}
    (hrows : g.rows = ((first :: more).map row).reverse) {number : Nat}
    (h : finish recovery p number g = .ok p') : Holds P p' := by
  simp only [finish, Blocks.nesting_accept, hrows] at h
  exact holds_settle (hP.keepAfter_accept hp ⟨first, more⟩) h

/-- A row of a line is added to those of other lines. -/
theorem holds_gather (hP : Kept P) {p p' : Progress Blocks} (hp : p.blocks.Keep P)
    {ls : List (List Char)} {g : Gathered} (hrows : g.rows = (ls.map row).reverse) {number : Nat}
    {line : List Char} (h : gather recovery p number g (unindented line) = .ok p') :
    Holds P p' := by
  have hmore : row line :: g.rows = ((ls ++ [line]).map row).reverse := by simp [hrows]
  obtain ⟨first, more, hlines⟩ := List.exists_cons_of_ne_nil
    (List.append_ne_nil_of_right_ne_nil ls (List.cons_ne_nil line []))
  rw [hlines] at hmore
  unfold gather at h
  cases hrow : continued? (unindented line) with
  | some before =>
    have hbefore : row line = before := by simp [row, hrow]
    rw [hrow] at h
    cases h
    refine ⟨hp, fun g' hg' => ⟨first, more, ?_⟩⟩
    cases hg'
    rw [← hmore, hbefore]
  | none =>
    have hbefore : row line = unindented line := by simp [row, hrow]
    rw [hrow] at h
    exact hP.holds_finish hp (hbefore ▸ hmore) h

theorem holds_step (hP : Kept P) {p p' : Progress Blocks} (hp : Holds P p) {l : List Char × Nat}
    (h : step recovery p l = .ok p') : Holds P p' := by
  by_cases hcomment : isCommentLine l.1
  · simp only [step, hcomment, ↓reduceIte] at h
    cases h
    exact hp
  simp only [step, hcomment, Bool.false_eq_true, ↓reduceIte, Blocks.nesting_moveTo] at h
  cases hunfinished : p.unfinished with
  | some g =>
    obtain ⟨first, more, hrows⟩ := hp.2 g hunfinished
    rw [hunfinished] at h
    exact hP.holds_gather hp.1 hrows h
  | none =>
    have hmoved := hP.keepAfter_moveTo hp.1 (indentation l.1)
    rw [hunfinished] at h
    cases hmove : p.blocks.moveTo (indentation l.1) with
    | ok blocks =>
      have hrows : (⟨l.1, []⟩ : Gathered).rows = (([] : List (List Char)).map row).reverse := rfl
      rw [hmove] at h hmoved
      exact hP.holds_gather (p := { p with blocks }) hmoved hrows h
    | error failure =>
      rw [hmove] at h hmoved
      exact holds_settle hmoved h

theorem holds_foldlM (hP : Kept P) {ls : List (List Char × Nat)} {p q : Progress Blocks}
    (hp : Holds P p) (h : ls.foldlM (step recovery) p = .ok q) : Holds P q := by
  induction ls generalizing p with
  | nil =>
    cases h
    exact hp
  | cons l ls ih =>
    rw [List.foldlM_cons] at h
    obtain ⟨next, hstep, hrest⟩ := exists_of_bind h
    exact ih (hP.holds_step hp hstep) hrest

theorem holds_finishLast (hP : Kept P) {p p' : Progress Blocks} (hp : Holds P p) {count : Nat}
    (h : finishLast recovery p count = .ok p') : Holds P p' := by
  unfold finishLast at h
  cases hunfinished : p.unfinished with
  | some g =>
    obtain ⟨first, more, hrows⟩ := hp.2 g hunfinished
    rw [hunfinished] at h
    exact hP.holds_finish hp.1 hrows h
  | none =>
    rw [hunfinished] at h
    cases h
    exact hp

theorem visits (hP : Kept P) {p : Progress Blocks} (h : Visits recovery source p) :
    p.blocks.Keep P := by
  have hstart : Holds P .start := ⟨⟨hP.empty, by simp [Progress.start, Blocks.start]⟩,
    by simp [Progress.start]⟩
  cases h with
  | between _ hstate => exact (hP.holds_foldlM hstart hstate).1
  | atEnd hstate =>
    unfold run at hstate
    obtain ⟨q, hall, hlast⟩ := exists_of_bind hstate
    exact (hP.holds_finishLast (hP.holds_foldlM hstart hall) hlast).1

/-- A property that is about what is pending is kept if accepting a statement leads to it. -/
theorem of_slot (body : ∀ b : Block, b.slot = .body → P b)
    (accept : ∀ {b b' : Block} {st : Statement}, Accepted b st b' → P b') : Kept P where
  empty := body _ rfl
  commit {b} h := by
    unfold Block.commit
    split
    · exact body _ rfl
    · exact h
  attach {c p p'} _ hp h := by
    unfold Block.closeInto at h
    split at h
    · cases h
      exact hp
    · exact body p' (attach_ok h).1
  accept _ _ haccept := accept haccept

/-- Two properties that are kept are kept together. -/
theorem and {Q : Block → Prop} (hP : Kept P) (hQ : Kept Q) : Kept fun b => P b ∧ Q b where
  empty := ⟨hP.empty, hQ.empty⟩
  commit h := ⟨hP.commit h.1, hQ.commit h.2⟩
  attach hc hp h := ⟨hP.attach hc.1 hp.1 h, hQ.attach hc.2 hp.2 h⟩
  accept passage h haccept := ⟨hP.accept passage h.1 haccept, hQ.accept passage h.2 haccept⟩

end Kept

end ProgramDiagram.Outline
