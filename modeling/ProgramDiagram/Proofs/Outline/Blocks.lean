import ProgramDiagram.Outline.Reader

/-!
# Open blocks by their place

A reading opens blocks so that the depth of each is its place on the stack. Open blocks can
therefore be told without depths, and there is always a current one.

* `Blocks`: open blocks without depths, and what a reading does with them;
* `Carries`: a map that goes along with all that a reading does with open blocks;
* `carries_stack`: giving blocks the depths of their places is such a map;
* `read_eq_readIn`: so reading is the same with and without depths.
-/

namespace ProgramDiagram.Outline

/-- An attempt that does not panic. -/
def Attempt.of {σ : Type} (attempt : Except (Failure σ) σ) : Attempt σ := attempt.mapError .refused

@[simp] theorem Attempt.of_ok {σ : Type} (bs : σ) : Attempt.of (.ok bs) = .ok bs := rfl

@[simp] theorem Attempt.of_error {σ : Type} (failure : Failure σ) :
    Attempt.of (.error failure) = .error (.refused failure) := rfl

/-- The open blocks, from the current one outwards. -/
structure Blocks where
  current : Block
  outer : List Block

namespace Blocks

def start : Blocks := ⟨.empty, []⟩

def depth (bs : Blocks) : Nat := bs.outer.length

/-- Closes blocks until the depth is at most `depth`. A block that cannot be attached is lost. -/
def closeTo (depth : Nat) (current : Block) : List Block → Except (Failure Blocks) Blocks
  | [] => .ok ⟨current, []⟩
  | parent :: outer =>
    if depth < outer.length + 1 then
      match current.closeInto parent with
      | .ok parent => closeTo depth parent outer
      | .error e => .error ⟨e, ⟨parent, outer⟩⟩
    else .ok ⟨current, parent :: outer⟩

/-- Brings the blocks to the depth of the next statement. -/
def moveTo (bs : Blocks) (depth : Nat) : Except (Failure Blocks) Blocks :=
  if 0 < depth && bs.current.nodes.isEmpty then .error ⟨.illegalIndentation, bs⟩
  else if bs.depth < depth then
    if bs.depth + 1 < depth || !bs.current.canNest then .error ⟨.illegalIndentation, bs⟩
    else .ok ⟨.empty, bs.current :: bs.outer⟩
  else closeTo depth bs.current bs.outer

/-- The effect of a statement on the current block. -/
def accept (bs : Blocks) (statement : Statement) : Except (Failure Blocks) Blocks :=
  match bs.current.commit.accept statement with
  | .ok block => .ok ⟨block, bs.outer⟩
  | .error e => .error ⟨e, ⟨bs.current.commit, bs.outer⟩⟩

/-- The list of the outermost nodes, if there are any. -/
def closeAll (bs : Blocks) : Except Error (Option Node) :=
  match closeTo 0 bs.current bs.outer with
  | .error failure => .error failure.error
  | .ok root =>
    match root.current.commit.nodes with
    | [] => .ok none
    | nodes => .ok (some (.list nodes.reverse))

instance : Nesting Blocks where
  start := start
  moveTo bs depth := .of (bs.moveTo depth)
  accept bs statement := .of (bs.accept statement)
  closeAll := closeAll

@[simp] theorem nesting_start : (Nesting.start : Blocks) = start := rfl

@[simp] theorem nesting_moveTo (bs : Blocks) (depth : Nat) :
    Nesting.moveTo bs depth = Attempt.of (bs.moveTo depth) := rfl

@[simp] theorem nesting_accept (bs : Blocks) (statement : Statement) :
    Nesting.accept bs statement = Attempt.of (bs.accept statement) := rfl

@[simp] theorem nesting_closeAll (bs : Blocks) : Nesting.closeAll bs = bs.closeAll := rfl

end Blocks

/-! ## Open blocks kept in two ways -/

section Carried

variable {σ τ : Type} {f : σ → τ}

def Failure.map (f : σ → τ) (failure : Failure σ) : Failure τ := ⟨failure.error, f failure.blocks⟩

def Setback.map (f : σ → τ) : Setback σ → Setback τ
  | refused failure => refused (failure.map f)
  | panicked message => panicked message

/-- An attempt with its blocks kept in another way. -/
def mapAttempt (f : σ → τ) : Attempt σ → Attempt τ
  | .ok bs => .ok (f bs)
  | .error setback => .error (setback.map f)

def Progress.map (f : σ → τ) (p : Progress σ) : Progress τ := ⟨f p.blocks, p.unfinished, p.offers⟩

/-- A map that goes along with all that a reading does with open blocks. -/
structure Carries [Nesting σ] [Nesting τ] (f : σ → τ) : Prop where
  start : Nesting.start = f Nesting.start
  moveTo (bs : σ) (depth : Nat) :
    Nesting.moveTo (f bs) depth = mapAttempt f (Nesting.moveTo bs depth)
  accept (bs : σ) (statement : Statement) :
    Nesting.accept (f bs) statement = mapAttempt f (Nesting.accept bs statement)
  closeAll (bs : σ) : Nesting.closeAll (f bs) = Nesting.closeAll bs

/-- A reading comes to this state between two lines, or at the end. -/
inductive Visits [Nesting σ] (recovery : Recovery) (source : String) (p : Progress σ) : Prop
  | between {before after : List (List Char × Nat)}
      (hlines : (lines source).zipIdx = before ++ after)
      (hstate : before.foldlM (step recovery) .start = .ok p) : Visits recovery source p
  | atEnd (hstate : run recovery (lines source) = .ok p) : Visits recovery source p

theorem settle_map (recovery : Recovery) (offers : List Offer) (number : Nat) (line : List Char)
    (attempt : Attempt σ) :
    settle recovery offers number line (mapAttempt f attempt) =
      (settle recovery offers number line attempt).map (Progress.map f) := by
  rcases attempt with (failure | message) | bs
  · simp only [settle, mapAttempt, Setback.map, Failure.map]
    cases recovery offers ⟨String.ofList line, number, failure.error⟩ <;> rfl
  · rfl
  · rfl

namespace Carries

variable [Nesting σ] [Nesting τ] (hf : Carries f) (recovery : Recovery)

include hf

theorem finish (p : Progress σ) (number : Nat) (g : Gathered) :
    finish recovery (p.map f) number g =
      (Outline.finish recovery p number g).map (Progress.map f) := by
  rw [Outline.finish, Progress.map, hf.accept, settle_map]
  rfl

theorem gather (p : Progress σ) (number : Nat) (g : Gathered) (row : List Char) :
    gather recovery (p.map f) number g row =
      (Outline.gather recovery p number g row).map (Progress.map f) := by
  unfold Outline.gather
  cases continued? row with
  | some before => rfl
  | none => exact hf.finish recovery p number _

theorem step (p : Progress σ) (l : List Char × Nat) :
    step recovery (p.map f) l = (Outline.step recovery p l).map (Progress.map f) := by
  obtain ⟨line, number⟩ := l
  by_cases hcomment : isCommentLine line
  · simp only [Outline.step, hcomment, ↓reduceIte]
    rfl
  simp only [Outline.step, hcomment, Bool.false_eq_true, ↓reduceIte]
  have hunfinished : (p.map f).unfinished = p.unfinished := rfl
  rw [hunfinished]
  cases p.unfinished with
  | some g => exact hf.gather recovery p number g _
  | none =>
    have hmove : Nesting.moveTo (p.map f).blocks (indentation line) = _ := hf.moveTo p.blocks _
    simp only [hmove]
    cases Nesting.moveTo p.blocks (indentation line) with
    | ok blocks => exact hf.gather recovery { p with blocks } number _ _
    | error setback => exact settle_map recovery p.offers number line (.error setback)

theorem finishLast (p : Progress σ) (count : Nat) :
    finishLast recovery (p.map f) count =
      (Outline.finishLast recovery p count).map (Progress.map f) := by
  unfold Outline.finishLast
  have hunfinished : (p.map f).unfinished = p.unfinished := rfl
  rw [hunfinished]
  cases p.unfinished with
  | some g => exact hf.finish recovery p _ g
  | none => rfl

theorem foldlM_step (ls : List (List Char × Nat)) (p : Progress σ) :
    ls.foldlM (Outline.step recovery) (p.map f) =
      (ls.foldlM (Outline.step recovery) p).map (Progress.map f) := by
  induction ls generalizing p with
  | nil => rfl
  | cons l ls ih =>
    rw [List.foldlM_cons, List.foldlM_cons, hf.step]
    cases Outline.step recovery p l with
    | ok next => exact ih next
    | error halt => rfl

theorem progress_start : (Progress.start : Progress τ) = Progress.start.map f := by
  rw [Progress.start, hf.start]
  rfl

theorem run (ls : List (List Char)) :
    (run recovery ls : Except Halt (Progress τ)) = (run recovery ls).map (Progress.map f) := by
  unfold Outline.run
  rw [hf.progress_start, hf.foldlM_step]
  cases ls.zipIdx.foldlM (Outline.step recovery) (Progress.start : Progress σ) with
  | ok p => exact hf.finishLast recovery p _
  | error halt => rfl

theorem exists_of_visits {source : String} {p : Progress τ} (h : Visits recovery source p) :
    ∃ q : Progress σ, p = q.map f ∧ Visits recovery source q := by
  have exists_of_map {attempt : Except Halt (Progress σ)}
      (h : attempt.map (Progress.map f) = .ok p) : ∃ q, p = q.map f ∧ attempt = .ok q := by
    cases attempt with
    | error halt => cases h
    | ok q =>
      cases h
      exact ⟨q, rfl, rfl⟩
  cases h with
  | between hlines hstate =>
    rw [hf.progress_start, hf.foldlM_step] at hstate
    obtain ⟨q, hmap, hq⟩ := exists_of_map hstate
    exact ⟨q, hmap, .between hlines hq⟩
  | atEnd hstate =>
    rw [hf.run] at hstate
    obtain ⟨q, hmap, hq⟩ := exists_of_map hstate
    exact ⟨q, hmap, .atEnd hq⟩

/-- Reading does not depend on how open blocks are kept. -/
theorem readIn (source : String) : readIn τ recovery source = readIn σ recovery source := by
  unfold Outline.readIn
  rw [hf.run]
  cases (Outline.run recovery (lines source) : Except Halt (Progress σ)) with
  | ok p => exact congrArg (Report.mk _) (hf.closeAll p.blocks)
  | error halt => rfl

end Carries

end Carried

/-! ## Depths by place -/

/-- Blocks with the depths of their places. -/
def contexts : List Block → Stack
  | [] => []
  | b :: outer => ⟨outer.length, b⟩ :: contexts outer

/-- The stack of open blocks, each with the depth of its place. -/
def Blocks.stack (bs : Blocks) : Stack := contexts (bs.current :: bs.outer)

theorem map_block_contexts (bs : List Block) : (contexts bs).map Context.block = bs := by
  induction bs with
  | nil => rfl
  | cons b outer ih => rw [contexts, List.map_cons, ih]

theorem map_depth_contexts (bs : List Block) :
    (contexts bs).reverse.map Context.depth = List.range bs.length := by
  induction bs with
  | nil => rfl
  | cons b outer ih =>
    rw [contexts, List.reverse_cons, List.map_append, ih, List.length_cons, List.range_succ]
    rfl

/-- There is a current block, and the depth of every block is its place, counted from the outermost
one. -/
def Stack.Levelled (s : Stack) : Prop :=
  s ≠ [] ∧ s.reverse.map Context.depth = List.range s.length

theorem Blocks.map_block_stack (bs : Blocks) :
    bs.stack.map Context.block = bs.current :: bs.outer :=
  map_block_contexts _

theorem Blocks.levelled_stack (bs : Blocks) : bs.stack.Levelled := by
  refine ⟨List.cons_ne_nil _ _, ?_⟩
  have hlength := congrArg List.length bs.map_block_stack
  rw [List.length_map] at hlength
  rw [hlength]
  exact map_depth_contexts _

namespace Stack

open Blocks (stack)

theorem stack_eq (current : Block) (outer : List Block) :
    stack ⟨current, outer⟩ = ⟨outer.length, current⟩ :: contexts outer := rfl

/-- Closing blocks goes on as long as it has to. -/
theorem closeWhile_eq (more : Context → List Context → Bool) (current : Context)
    (outer : List Context) :
    closeWhile more current outer =
      if more current outer then
        match close (current :: outer) with
        | .ok (current :: outer) => closeWhile more current outer
        | attempt => attempt
      else .ok (current :: outer) := by
  cases outer with
  | nil => rw [closeWhile]; rfl
  | cons parent outer =>
    rw [closeWhile]
    congr 1
    cases hclose : current.block.closeInto parent.block with
    | ok block =>
      simp only [close, hclose]
    | error e =>
      simp only [close, hclose]
      rfl

theorem closeWhile_cons (more : Context → List Context → Bool) (current parent : Context)
    (outer : List Context) (hmore : more current (parent :: outer)) :
    closeWhile more current (parent :: outer) =
      match current.block.closeInto parent.block with
      | .ok block => closeWhile more { parent with block } outer
      | .error e => refuse (parent :: outer) e := by
  rw [closeWhile_eq, if_pos hmore, close]
  cases current.block.closeInto parent.block <;> rfl

/-- No block that a reading has opened is deeper than its place, and so none is left to close. -/
theorem closeTo_stack (depth : Nat) (current : Block) (outer : List Block) :
    closeTo (stack ⟨current, outer⟩) depth =
      mapAttempt stack (.of (Blocks.closeTo depth current outer)) := by
  simp only [stack_eq, closeTo]
  induction outer generalizing current with
  | nil => rfl
  | cons parent outer ih =>
    rw [Blocks.closeTo, contexts]
    by_cases hdeeper : depth < outer.length + 1
    · rw [closeWhile_cons _ _ _ _ (by simpa using hdeeper), if_pos hdeeper]
      cases current.closeInto parent with
      | ok block => exact ih block
      | error e => rfl
    · rw [closeWhile_eq, if_neg (by simpa using hdeeper), if_neg hdeeper]
      rfl

theorem closeOuter_stack (current : Block) (outer : List Block) :
    closeOuter (stack ⟨current, outer⟩) = closeTo (stack ⟨current, outer⟩) 0 := by
  simp only [stack_eq, closeOuter, closeTo]
  induction outer generalizing current with
  | nil => rfl
  | cons parent outer ih =>
    rw [contexts, closeWhile_cons _ _ _ _ rfl, closeWhile_cons _ _ _ _ (by simp)]
    cases current.closeInto parent with
    | ok block => exact ih block
    | error e => rfl

/-- No block is closed for a statement that opens one. -/
theorem closeTo_opened {depth : Nat} {outer : List Block} (h : outer.length < depth)
    (current : Block) :
    closeTo (stack ⟨.empty, current :: outer⟩) depth =
      .ok (stack ⟨.empty, current :: outer⟩) := by
  have hdone : ¬ depth < outer.length + 1 := Nat.not_lt.2 h
  rw [closeTo_stack, Blocks.closeTo, if_neg hdone]
  rfl

theorem openTo_stack_ok {bs : Blocks} {depth : Nat} {opened : Stack}
    (h : openTo (stack bs) depth = .ok opened) :
    opened = stack bs ∨ closeTo opened depth = .ok opened := by
  obtain ⟨current, outer⟩ := bs
  simp only [stack_eq, openTo] at h
  split at h
  · cases h
    exact .inl rfl
  · rename_i hdeeper
    split at h
    · cases h
    · cases h
      exact .inr (closeTo_opened (Nat.not_le.1 hdeeper) current)

theorem moveTo_stack (bs : Blocks) (depth : Nat) :
    moveTo (stack bs) depth = mapAttempt stack (.of (bs.moveTo depth)) := by
  obtain ⟨current, outer⟩ := bs
  have hopened (h : outer.length < depth) := closeTo_opened h current
  have hclosed := closeTo_stack depth current outer
  simp only [stack_eq, moveTo, openTo, Blocks.moveTo] at hopened hclosed ⊢
  delta Blocks.depth
  split
  · rfl
  · by_cases hdeeper : outer.length < depth
    · rw [if_neg (Nat.not_le.2 hdeeper), if_pos hdeeper]
      by_cases hbelow : decide (outer.length + 1 < depth) || !current.canNest
      · rw [if_pos hbelow, if_pos hbelow]
        rfl
      · rw [if_neg hbelow, if_neg hbelow]
        exact hopened hdeeper
    · rw [if_pos (Nat.not_lt.1 hdeeper), if_neg hdeeper]
      exact hclosed

theorem accept_stack (bs : Blocks) (statement : Statement) :
    accept (stack bs) statement = mapAttempt stack (.of (bs.accept statement)) := by
  obtain ⟨current, outer⟩ := bs
  simp only [stack_eq, accept, Blocks.accept]
  cases current.commit.accept statement <;> rfl

theorem closeAll_stack (bs : Blocks) : closeAll (stack bs) = bs.closeAll := by
  obtain ⟨current, outer⟩ := bs
  rw [closeAll, Blocks.closeAll, closeOuter_stack, closeTo_stack]
  cases Blocks.closeTo 0 current outer <;> rfl

end Stack

theorem carries_stack : Carries Blocks.stack where
  start := rfl
  moveTo := Stack.moveTo_stack
  accept := Stack.accept_stack
  closeAll := Stack.closeAll_stack

/-- Reading is the same with and without depths. -/
theorem read_eq_readIn (recovery : Recovery) (source : String) :
    read recovery source = readIn Blocks recovery source :=
  carries_stack.readIn recovery source

end ProgramDiagram.Outline
