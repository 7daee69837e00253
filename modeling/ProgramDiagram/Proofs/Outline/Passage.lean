import Mathlib.Data.List.Induction
import ProgramDiagram.Proofs.Outline.Blocks

/-!
# The statements of a source

* `passages`: the lines of each statement, where no line is a comment.
* `entries`: the statements of a source, each with its depth and its body.
* `numberedLines`, `lastNumber`: where in the source they stand.
* `readOn`: a reading told statement by statement, for a recovery that does not look at line
  numbers; `course_read` shows that the reader, which goes line by line, does the same.
* `parse_eq_placeAll`: parsing places the statements of a source one after the other.
-/

namespace ProgramDiagram.Outline

/-- Whether the statement of a line goes on in the next line. -/
def continues (line : List Char) : Bool := (continued? (unindented line)).isSome

/-- What a line gives to the body of its statement. -/
def row (line : List Char) : List Char := (continued? (unindented line)).getD (unindented line)

/-- The lines of one statement. -/
structure Passage where
  first : List Char
  more : List (List Char)

/-- The lines of each statement. One ends with its first line that has no marker at its end. -/
def passages : List (List Char) → List Passage
  | [] => []
  | line :: rest =>
    if continues line then
      match passages rest with
      | [] => [⟨line, []⟩]
      | p :: ps => ⟨line, p.first :: p.more⟩ :: ps
    else ⟨line, []⟩ :: passages rest

/-- A statement as it stands in a source. -/
structure Entry where
  depth : Nat
  body : List Char

def Passage.entry (p : Passage) : Entry :=
  ⟨indentation p.first, bodyOf ((p.first :: p.more).map row).reverse⟩

def Entry.statement (e : Entry) : Statement := .ofBody e.body

def Entry.item (e : Entry) : Nat × Statement := (e.depth, e.statement)

/-- The lines of a source that hold parts of statements. -/
def textLines (source : String) : List (List Char) := (lines source).filter (!isCommentLine ·)

/-- The same lines with their numbers, counted from zero in the whole source. -/
def numberedLines (source : String) : List (List Char × Nat) :=
  (lines source).zipIdx.filter (!isCommentLine ·.1)

/-- The number of the last line that is read for a statement, of which the lines after the first are
`more`. If it does not end there, then the source does, and all its lines are read. -/
def lastNumber (count : Nat) : List Char × Nat → List (List Char × Nat) → Nat
  | (line, number), [] => if continues line then count - 1 else number
  | _, next :: more => lastNumber count next more

/-- The statements of lines. -/
def entriesOf (ls : List (List Char)) : List Entry := (passages ls).map Passage.entry

/-- The statements of a source. -/
def entries (source : String) : List Entry := entriesOf (textLines source)

/-! ## Statement by statement -/

/-- Splits off the lines in which the statement of a line goes on. -/
def continuation : List Char → List (List Char) → List (List Char) × List (List Char)
  | _, [] => ([], [])
  | line, next :: rest =>
    if continues line then (next :: (continuation next rest).1, (continuation next rest).2)
    else ([], next :: rest)

theorem continuation_of_not_continues {line : List Char} (h : continues line = false)
    (rest : List (List Char)) : continuation line rest = ([], rest) := by
  cases rest with
  | nil => rfl
  | cons next rest => simp [continuation, h]

theorem length_continuation_le (line : List Char) (rest : List (List Char)) :
    (continuation line rest).2.length ≤ rest.length := by
  induction rest generalizing line with
  | nil => simp [continuation]
  | cons next rest ih =>
    simp only [continuation]
    split
    · exact Nat.le_succ_of_le (ih next)
    · exact Nat.le_refl _

theorem append_continuation (line : List Char) (rest : List (List Char)) :
    (continuation line rest).1 ++ (continuation line rest).2 = rest := by
  induction rest generalizing line with
  | nil => rfl
  | cons next rest ih =>
    simp only [continuation]
    split
    · simp [ih next]
    · rfl

theorem passages_cons (line : List Char) (rest : List (List Char)) :
    passages (line :: rest) =
      ⟨line, (continuation line rest).1⟩ :: passages (continuation line rest).2 := by
  induction rest generalizing line with
  | nil => simp [passages, continuation]
  | cons next rest ih =>
    rw [passages]
    by_cases h : continues line
    · simp [h, continuation, ih next]
    · simp [h, continuation]

theorem entriesOf_cons (line : List Char) (rest : List (List Char)) :
    entriesOf (line :: rest) =
      Passage.entry ⟨line, (continuation line rest).1⟩ :: entriesOf (continuation line rest).2 := by
  rw [entriesOf, passages_cons]
  rfl

/-- What the statement that begins with a line comes to, and the lines after it. A statement that
is refused for its depth leaves the lines after its first to be read as others. -/
def turn (bs : Blocks) (line : List Char) (rest : List (List Char)) :
    Except (Failure Blocks) Blocks × List (List Char) :=
  match bs.moveTo (indentation line) with
  | .error failure => (.error failure, rest)
  | .ok bs =>
    let (more, after) := continuation line rest
    (bs.accept (Passage.entry ⟨line, more⟩).statement, after)

theorem length_turn_le (bs : Blocks) (line : List Char) (rest : List (List Char)) :
    (turn bs line rest).2.length ≤ rest.length := by
  unfold turn
  split
  · exact Nat.le_refl _
  · exact length_continuation_le line rest

/-- A refused statement, its place left out: its first line and the error. -/
abbrev Refusal := String × Error

def Offer.refusal (offer : Offer) : Refusal := (offer.line, offer.error)

/-- A recovery that does not look at line numbers. -/
abbrev Answer := List Refusal → Refusal → Decision

def Answer.recovery (a : Answer) : Recovery :=
  fun before offer => a (before.map Offer.refusal) offer.refusal

/-- What a reading shows apart from line numbers. -/
structure Course where
  refusals : List Refusal
  result : Except Error (Option Node)

def Report.course (r : Report) : Course := ⟨r.offers.map Offer.refusal, r.result⟩

/-- Reads lines that are no comments, after the refusals `seen`, newest first. -/
def readOn (a : Answer) (seen : List Refusal) (bs : Blocks) : List (List Char) → Course
  | [] => ⟨seen.reverse, bs.closeAll⟩
  | line :: rest =>
    match (turn bs line rest).1 with
    | .ok next => readOn a seen next (turn bs line rest).2
    | .error failure =>
      let refusal : Refusal := (String.ofList line, failure.error)
      match a seen refusal with
      | .skip => readOn a (refusal :: seen) failure.blocks (turn bs line rest).2
      | .stop => ⟨(refusal :: seen).reverse, .error failure.error⟩
      | .interrupt reason => ⟨(refusal :: seen).reverse, .error (.interrupted reason)⟩
termination_by ls => ls.length
decreasing_by
  all_goals exact Nat.lt_succ_of_le (length_turn_le bs line rest)

/-! ## The reader goes statement by statement -/

theorem foldlM_step_textLines (recovery : Recovery) (ls : List (List Char × Nat))
    (p : Progress Blocks) :
    ls.foldlM (step recovery) p =
      (ls.filter (!isCommentLine ·.1)).foldlM (step recovery) p := by
  induction ls generalizing p with
  | nil => rfl
  | cons l ls ih =>
    obtain ⟨line, number⟩ := l
    by_cases h : isCommentLine line
    · have hstep : step recovery p (line, number) = .ok p := by simp [step, h]
      simp only [List.foldlM_cons, hstep, List.filter_cons, h, Bool.not_true, Bool.false_eq_true,
        ↓reduceIte]
      exact ih p
    · simp only [List.foldlM_cons, List.filter_cons, h, Bool.not_false, ↓reduceIte]
      congr 1
      funext next
      exact ih next

/-- The lines that are left, then the end. -/
def remaining (recovery : Recovery) (count : Nat) (ls : List (List Char × Nat))
    (p : Progress Blocks) : Except Halt (Progress Blocks) := do
  let p ← ls.foldlM (step recovery) p
  finishLast recovery p count

theorem remaining_cons (recovery : Recovery) (count : Nat) (l : List Char × Nat)
    (ls : List (List Char × Nat)) (p : Progress Blocks) :
    remaining recovery count (l :: ls) p = step recovery p l >>= remaining recovery count ls := by
  simp only [remaining, List.foldlM_cons, bind_assoc]
  rfl

theorem unfinished_of_settle {recovery : Recovery} {offers : List Offer} {number : Nat}
    {line : List Char} {attempt : Attempt Blocks} {p : Progress Blocks}
    (h : settle recovery offers number line attempt = .ok p) : p.unfinished = none := by
  rcases attempt with (failure | message) | blocks
  · simp only [settle] at h
    split at h
    · cases h; rfl
    · cases h
    · cases h
  · cases h
  · cases h; rfl

theorem remaining_nil {p : Progress Blocks} (h : p.unfinished = none) (recovery : Recovery)
    (count : Nat) : remaining recovery count [] p = .ok p := by
  show finishLast recovery p count = .ok p
  simp [finishLast, h]

theorem finish_remaining_nil (recovery : Recovery) (count : Nat) (p : Progress Blocks)
    (number : Nat) (g : Gathered) :
    finish recovery p number g >>= remaining recovery count [] = finish recovery p number g := by
  cases h : finish recovery p number g with
  | error halt => rfl
  | ok q => exact remaining_nil (unfinished_of_settle h) recovery count

/-- An unfinished statement takes the lines of its continuation. -/
theorem remaining_unfinished (recovery : Recovery) (count : Nat) (ls : List (List Char × Nat))
    (hls : ∀ l ∈ ls, isCommentLine l.1 = false) {l : List Char × Nat} (hl : continues l.1)
    {p : Progress Blocks} {g : Gathered} (hp : p.unfinished = some g) :
    ∃ more after, ls = more ++ after ∧
      continuation l.1 (ls.map Prod.fst) = (more.map Prod.fst, after.map Prod.fst) ∧
      remaining recovery count ls p =
        finish recovery p (lastNumber count l more)
          ⟨g.line, ((more.map Prod.fst).map row).reverse ++ g.rows⟩ >>=
            remaining recovery count after := by
  induction ls generalizing l p g with
  | nil =>
    refine ⟨[], [], rfl, rfl, ?_⟩
    rw [finish_remaining_nil]
    show finishLast recovery p count = _
    simp [finishLast, hp, lastNumber, hl]
  | cons next ls ih =>
    have hnext : isCommentLine next.1 = false := hls _ List.mem_cons_self
    have hls' : ∀ l ∈ ls, isCommentLine l.1 = false := fun l h => hls l (List.mem_cons_of_mem _ h)
    simp only [List.map_cons, continuation, hl, ↓reduceIte, remaining_cons]
    have hstep : step recovery p next = gather recovery p next.2 g (unindented next.1) := by
      simp [step, hnext, hp]
    cases hrow : continued? (unindented next.1) with
    | none =>
      have hcont : continues next.1 = false := by simp [continues, hrow]
      refine ⟨[next], ls, rfl, ?_, ?_⟩
      · rw [continuation_of_not_continues hcont]
        rfl
      · simp [hstep, gather, hrow, row, lastNumber, hcont]
    | some before =>
      have hcont : continues next.1 := by simp [continues, hrow]
      obtain ⟨more, after, rfl, hafter, heq⟩ := ih hls' hcont
        (p := { p with unfinished := some ⟨g.line, before :: g.rows⟩ }) rfl
      refine ⟨next :: more, after, rfl, by rw [hafter, List.map_cons], ?_⟩
      have hgather : step recovery p next =
          .ok { p with unfinished := some ⟨g.line, before :: g.rows⟩ } := by
        rw [hstep]
        simp only [gather, hrow]
      have hbefore : row next.1 = before := by simp [row, hrow]
      rw [hgather]
      simp only [List.map_cons, List.reverse_cons, hbefore, List.append_assoc,
        List.singleton_append, lastNumber]
      exact heq

/-- A statement whose depth is accepted is finished with all its lines. -/
theorem remaining_passage (recovery : Recovery) (count : Nat) (ls : List (List Char × Nat))
    (hls : ∀ l ∈ ls, isCommentLine l.1 = false) (l : List Char × Nat) (p : Progress Blocks) :
    ∃ more after, ls = more ++ after ∧
      continuation l.1 (ls.map Prod.fst) = (more.map Prod.fst, after.map Prod.fst) ∧
      gather recovery p l.2 ⟨l.1, []⟩ (unindented l.1) >>= remaining recovery count ls =
        settle recovery p.offers (lastNumber count l more) l.1
          (.of (p.blocks.accept (Passage.entry ⟨l.1, more.map Prod.fst⟩).statement)) >>=
            remaining recovery count after := by
  cases hrow : continued? (unindented l.1) with
  | none =>
    have hcont : continues l.1 = false := by simp [continues, hrow]
    refine ⟨[], ls, rfl, continuation_of_not_continues hcont _, ?_⟩
    simp [gather, hrow, finish, Passage.entry, Entry.statement, row, lastNumber, hcont]
  | some before =>
    have hcont : continues l.1 := by simp [continues, hrow]
    obtain ⟨more, after, hsplit, hafter, heq⟩ := remaining_unfinished recovery count ls hls hcont
      (p := { p with unfinished := some ⟨l.1, [before]⟩ }) rfl
    refine ⟨more, after, hsplit, hafter, ?_⟩
    have hbefore : row l.1 = before := by simp [row, hrow]
    simp only [gather, hrow, Passage.entry, Entry.statement, List.map_cons, List.reverse_cons,
      hbefore]
    exact heq

/-- The lines `more` are read for the statement that begins with a line, and the last line read has
the number `last`. A statement that is refused for where it stands is not read on. -/
inductive TurnReads (bs : Blocks) (count : Nat) (l : List Char × Nat)
    (ls : List (List Char × Nat)) : List (List Char × Nat) → Nat → Prop
  | first {failure : Failure Blocks} (hmove : bs.moveTo (indentation l.1) = .error failure) :
      TurnReads bs count l ls [] l.2
  | all {opened : Blocks} {more : List (List Char × Nat)}
      (hmove : bs.moveTo (indentation l.1) = .ok opened)
      (hmore : (continuation l.1 (ls.map Prod.fst)).1 = more.map Prod.fst) :
      TurnReads bs count l ls more (lastNumber count l more)

/-- The next line begins a statement, which is attempted with all its lines. -/
theorem remaining_turn (recovery : Recovery) (count : Nat) {l : List Char × Nat}
    {ls : List (List Char × Nat)} (hls : ∀ l' ∈ l :: ls, isCommentLine l'.1 = false)
    {p : Progress Blocks} (hp : p.unfinished = none) :
    ∃ last more after, ls = more ++ after ∧ TurnReads p.blocks count l ls more last ∧
      (turn p.blocks l.1 (ls.map Prod.fst)).2 = after.map Prod.fst ∧
      remaining recovery count (l :: ls) p =
        settle recovery p.offers last l.1 (.of (turn p.blocks l.1 (ls.map Prod.fst)).1) >>=
          remaining recovery count after := by
  have hl : isCommentLine l.1 = false := hls _ List.mem_cons_self
  have hls' : ∀ l ∈ ls, isCommentLine l.1 = false := fun l h => hls l (List.mem_cons_of_mem _ h)
  rw [remaining_cons]
  cases hmove : p.blocks.moveTo (indentation l.1) with
  | error failure =>
    have hstep : step recovery p l = settle recovery p.offers l.2 l.1 (.of (.error failure)) := by
      simp [step, hl, hp, hmove]
    refine ⟨l.2, [], ls, rfl, .first hmove, by simp [turn, hmove], ?_⟩
    simp only [hstep, turn, hmove]
  | ok blocks =>
    have hstep : step recovery p l =
        gather recovery { p with blocks } l.2 ⟨l.1, []⟩ (unindented l.1) := by
      simp [step, hl, hp, hmove]
    obtain ⟨more, after, hsplit, hafter, heq⟩ := remaining_passage recovery count ls hls' l
      { p with blocks }
    refine ⟨lastNumber count l more, more, after, hsplit, .all hmove (congrArg Prod.fst hafter),
      by simp [turn, hmove, hafter], ?_⟩
    rw [hstep, heq]
    simp only [turn, hmove, hafter]

/-- The course of a reading that has come to an end. -/
def courseOf : Except Halt (Progress Blocks) → Course
  | .ok p => ⟨(p.offers.map Offer.refusal).reverse, p.blocks.closeAll⟩
  | .error halt => ⟨(halt.offers.map Offer.refusal).reverse, .error halt.error⟩

theorem course_remaining (a : Answer) (count : Nat) (ls : List (List Char × Nat))
    (hls : ∀ l ∈ ls, isCommentLine l.1 = false) {p : Progress Blocks} (hp : p.unfinished = none) :
    courseOf (remaining a.recovery count ls p) =
      readOn a (p.offers.map Offer.refusal) p.blocks (ls.map Prod.fst) := by
  induction hn : ls.length using Nat.strongRecOn generalizing ls p with
  | ind n ih =>
    cases ls with
    | nil =>
      rw [remaining_nil hp, List.map_nil, readOn]
      rfl
    | cons l ls =>
      obtain ⟨_, more, after, rfl, _, hafter, heq⟩ := remaining_turn a.recovery count hls hp
      have next := fun q hq => ih after.length (by simp at hn; omega) after
        (fun l h => hls l (by simp [h])) (p := q) hq rfl
      rw [heq, List.map_cons, readOn, hafter]
      cases (turn p.blocks l.1 ((more ++ after).map Prod.fst)).1 with
      | ok blocks => exact next ⟨blocks, none, p.offers⟩ rfl
      | error failure =>
        simp only [settle, Attempt.of_error, Answer.recovery, Offer.refusal]
        cases a (p.offers.map Offer.refusal) (String.ofList l.1, failure.error) with
        | skip => exact next ⟨failure.blocks, none, _ :: p.offers⟩ rfl
        | stop => rfl
        | interrupt reason => rfl

theorem isCommentLine_of_mem_numberedLines {source : String} {l : List Char × Nat}
    (h : l ∈ numberedLines source) : isCommentLine l.1 = false := by
  simpa using (List.mem_filter.1 h).2

theorem map_fst_numberedLines (source : String) :
    (numberedLines source).map Prod.fst = textLines source := by
  rw [numberedLines, textLines, ← List.zipIdx_map_fst 0 (lines source), List.filter_map]
  simp [Function.comp_def]

/-- A reading takes only the lines that are no comments. -/
theorem run_eq_remaining (recovery : Recovery) (source : String) :
    run recovery (lines source) =
      remaining recovery (lines source).length (numberedLines source) .start := by
  unfold run remaining
  rw [foldlM_step_textLines]
  rfl

/-- What a reading shows apart from line numbers depends on the lines that are no comments. -/
theorem course_read (a : Answer) (source : String) :
    (read a.recovery source).course = readOn a [] .start (textLines source) := by
  have hrun : (read a.recovery source).course = courseOf (run a.recovery (lines source)) := by
    rw [read_eq_readIn, readIn]
    cases (run a.recovery (lines source) : Except Halt (Progress Blocks)) <;>
      simp [Report.course, courseOf]
  rw [hrun, run_eq_remaining, course_remaining a _ _
    (fun l => isCommentLine_of_mem_numberedLines) rfl, map_fst_numberedLines]
  rfl

/-! ## Parsing places the statements -/

/-- Brings the blocks to the depth of a statement, which then takes effect. -/
def Blocks.place (bs : Blocks) (item : Nat × Statement) : Except (Failure Blocks) Blocks := do
  let bs ← bs.moveTo item.1
  bs.accept item.2

def Blocks.placeAll (bs : Blocks) (items : List (Nat × Statement)) :
    Except (Failure Blocks) Blocks :=
  items.foldlM Blocks.place bs

/-- The tree of placed statements, or the error of the first that is refused. -/
def Blocks.treeOf : Except (Failure Blocks) Blocks → Except Error (Option Node)
  | .ok bs => bs.closeAll
  | .error failure => .error failure.error

theorem Blocks.placeAll_cons (bs : Blocks) (item : Nat × Statement)
    (items : List (Nat × Statement)) :
    bs.placeAll (item :: items) = bs.place item >>= (·.placeAll items) := by
  simp only [placeAll, List.foldlM_cons]

theorem Blocks.placeAll_append (bs : Blocks) (items more : List (Nat × Statement)) :
    bs.placeAll (items ++ more) = bs.placeAll items >>= (·.placeAll more) := by
  simp only [placeAll, List.foldlM_append]

theorem Blocks.placeAll_cons_of_ok {bs bs' : Blocks} {item : Nat × Statement}
    (h : bs.place item = .ok bs') (items : List (Nat × Statement)) :
    bs.placeAll (item :: items) = bs'.placeAll items := by
  rw [placeAll_cons, h]
  rfl

theorem Blocks.placeAll_append_of_ok {bs bs' : Blocks} {items : List (Nat × Statement)}
    (h : bs.placeAll items = .ok bs') (more : List (Nat × Statement)) :
    bs.placeAll (items ++ more) = bs'.placeAll more := by
  rw [placeAll_append, h]
  rfl

theorem Blocks.placeAll_concat_eq_ok_iff {bs bs' : Blocks} {items : List (Nat × Statement)}
    {item : Nat × Statement} :
    bs.placeAll (items ++ [item]) = .ok bs' ↔
      ∃ next, bs.placeAll items = .ok next ∧ next.place item = .ok bs' := by
  rw [placeAll_append]
  cases bs.placeAll items with
  | error failure =>
    constructor
    · intro h; cases h
    · rintro ⟨_, h, _⟩; cases h
  | ok next =>
    have hone : next.placeAll [item] = next.place item := by
      rw [placeAll_cons]
      cases next.place item <;> rfl
    constructor
    · intro h; exact ⟨next, rfl, hone.symm.trans h⟩
    · rintro ⟨_, h, hplace⟩; cases h; exact hone.trans hplace

theorem turn_fst (bs : Blocks) (line : List Char) (rest : List (List Char)) :
    (turn bs line rest).1 = bs.place (Passage.entry ⟨line, (continuation line rest).1⟩).item := by
  unfold turn Blocks.place
  simp only [Entry.item, Passage.entry]
  cases bs.moveTo (indentation line) <;> rfl

theorem turn_snd_of_ok {bs next : Blocks} {line : List Char} {rest : List (List Char)}
    (h : (turn bs line rest).1 = .ok next) :
    (turn bs line rest).2 = (continuation line rest).2 := by
  unfold turn at h ⊢
  cases hmove : bs.moveTo (indentation line) with
  | error failure => simp [hmove] at h
  | ok bs => rfl

theorem result_readOn_stop (seen : List Refusal) (bs : Blocks) (ls : List (List Char)) :
    (readOn (fun _ _ => .stop) seen bs ls).result =
      Blocks.treeOf (bs.placeAll ((entriesOf ls).map Entry.item)) := by
  induction hn : ls.length using Nat.strongRecOn generalizing ls bs with
  | ind n ih =>
    cases ls with
    | nil =>
      rw [readOn]
      rfl
    | cons line rest =>
      rw [readOn, entriesOf_cons, List.map_cons, Blocks.placeAll_cons, ← turn_fst]
      cases hturn : (turn bs line rest).1 with
      | error failure => rfl
      | ok next =>
        have hlen := length_continuation_le line rest
        simp only [turn_snd_of_ok hturn]
        exact ih _ (by simp at hn; omega) next _ rfl

/-- Parsing places the statements of a source one after the other and closes all blocks. -/
theorem parse_eq_placeAll (source : String) :
    parse source = Blocks.treeOf (Blocks.start.placeAll ((entries source).map Entry.item)) := by
  have hcourse := course_read (fun _ _ => .stop) source
  exact (congrArg Course.result hcourse).trans (result_readOn_stop [] .start (textLines source))

end ProgramDiagram.Outline
