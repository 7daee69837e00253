import Mathlib.Data.List.TakeWhile
import ProgramDiagram.Proofs.Outline.Breaks
import ProgramDiagram.Proofs.Outline.Comments
import ProgramDiagram.Proofs.Outline.Embedding
import ProgramDiagram.Proofs.Outline.Recovery
import ProgramDiagram.Proofs.Outline.RoundTrip

/-!
# Outlines put together

* `tabbed`: a text with each of its lines one deeper.
* `parse_nested`: an outline in the body of a loop is parsed as it is alone.
* `parse_append`: so is one that comes after another, whose nodes stay before its own.
-/

namespace ProgramDiagram

/-- A text with a tab before each of its lines. -/
def tabbed (text : String) : String :=
  String.ofList (['\n'].intercalate ((splitAt '\n' text.toList).map ('\t' :: ·)))

theorem lines_tabbed (text : String) : lines (tabbed text) = (lines text).map ('\t' :: ·) := by
  have hfeed : ∀ l ∈ (splitAt '\n' text.toList).map ('\t' :: ·), '\n' ∉ l := by
    intro l hl
    obtain ⟨piece, hpiece, rfl⟩ := List.mem_map.1 hl
    simpa using not_mem_of_mem_splitAt hpiece
  have hreturn (l : List Char) : (dropLast? '\r' ('\t' :: l)).getD ('\t' :: l) =
      '\t' :: (dropLast? '\r' l).getD l :=
    dropLast?_append_cons (by decide) [] l
  rw [tabbed, lines_intercalate (by simp [splitAt_ne_nil]) hfeed, lines]
  simp only [List.map_map, Function.comp_def, hreturn]

/-- The tree of an outline that has another one as the body of a loop. -/
def inLoop (c : String) (tree : Option Node) : Node :=
  .list [.loop c true (tree.bind fun root => Node.ofBlock root.members)]

theorem inLoop_rootOf (c : String) (nodes : List Node) :
    inLoop c (rootOf nodes) = .list [.loop c true (Node.ofBlock nodes)] := by
  cases nodes <;> rfl

namespace Outline

/-! ## Statements of texts put together -/

theorem continues_iff {line : List Char} : continues line ↔ line.getLast? = some marker := by
  have hlast : line.getLast? = some marker ↔ (unindented line).getLast? = some marker := by
    have hsplit := List.takeWhile_append_dropWhile (p := (· = '\t')) (l := line)
    cases hrest : unindented line with
    | nil =>
      rw [unindented] at hrest
      rw [hrest, List.append_nil] at hsplit
      refine ⟨fun h => ?_, by simp⟩
      rw [← hsplit] at h
      have htab := List.mem_takeWhile_imp (List.mem_of_getLast? h)
      exact absurd htab (by decide)
    | cons c rest =>
      rw [unindented] at hrest
      rw [hrest] at hsplit
      rw [← hsplit, List.getLast?_append_of_ne_nil _ (by simp)]
  simp [continues, continued?, dropLast?, hlast]

theorem Entry.ahead_append {line : List Char} {es : List Entry}
    (h : continues line = false ∨ es ≠ []) (more : List Entry) :
    Entry.ahead line (es ++ more) = Entry.ahead line es ++ more := by
  cases hline : continues line with
  | false => simp [Entry.ahead, hline]
  | true =>
    obtain ⟨e, es, rfl⟩ := List.exists_cons_of_ne_nil (h.resolve_left (by simp [hline]))
    simp [Entry.ahead, hline]

theorem Entry.ahead_ne_nil (line : List Char) (es : List Entry) : Entry.ahead line es ≠ [] := by
  unfold Entry.ahead
  split <;> simp

/-- Lines that end with a statement have their own statements. -/
theorem entriesOf_append {xs : List (List Char)} (h : Ended xs) (ys : List (List Char)) :
    entriesOf (xs ++ ys) = entriesOf xs ++ entriesOf ys := by
  induction xs with
  | nil => rfl
  | cons line xs ih =>
    cases xs with
    | nil =>
      have hline : continues line = false := h line rfl
      have halone : entriesOf [line] = Entry.ahead line [] := entriesOf_cons_line line []
      rw [List.singleton_append, entriesOf_cons_line, halone]
      exact @Entry.ahead_append line [] (.inl hline) (entriesOf ys)
    | cons next xs =>
      rw [List.cons_append, entriesOf_cons_line, ih (ended_cons_cons.1 h), entriesOf_cons_line line]
      refine Entry.ahead_append (.inr ?_) _
      rw [entriesOf_cons_line]
      exact Entry.ahead_ne_nil next _

/-- A statement that stands one deeper. -/
def Entry.deeper (e : Entry) : Entry := ⟨e.depth + 1, e.body⟩

theorem Entry.ahead_tab (line : List Char) (es : List Entry) :
    Entry.ahead ('\t' :: line) (es.map Entry.deeper) = (Entry.ahead line es).map Entry.deeper := by
  have hrow : row ('\t' :: line) = row line := rfl
  have hcontinues : continues ('\t' :: line) = continues line := rfl
  have hdepth : indentation ('\t' :: line) = indentation line + 1 := rfl
  simp only [Entry.ahead, hrow, hcontinues, hdepth]
  cases continues line with
  | false => rfl
  | true => cases es <;> rfl

/-- The statements of a text with a tab before each line are one deeper. -/
theorem items_tabbed (source : String) :
    (entries (tabbed source)).map Entry.item = ((entries source).map Entry.item).map (lower 1) := by
  have hlines : textLines (tabbed source) = (textLines source).map ('\t' :: ·) := by
    have hcomment (l : List Char) : isCommentLine ('\t' :: l) = isCommentLine l :=
      isCommentLine_indented 1 l
    simp [textLines, lines_tabbed, List.filter_map, Function.comp_def, hcomment]
  have hentries (ls : List (List Char)) :
      entriesOf (ls.map ('\t' :: ·)) = (entriesOf ls).map Entry.deeper := by
    induction ls with
    | nil => rfl
    | cons line ls ih =>
      rw [List.map_cons, entriesOf_cons_line, ih, Entry.ahead_tab, entriesOf_cons_line]
  rw [entries, hlines, hentries, List.map_map, List.map_map]
  rfl

/-! ## One outline as the body of a loop -/

/-- A loop that is open for its body. -/
def Block.loop (c : String) : Block := ⟨[.loop c true none], .body⟩

/-- The nodes of the outermost block become the body of the loop. -/
theorem Blocks.closeAll_inLoop {bs : Blocks} (hbs : bs.Filled) (c : String) :
    (bs.within [] [Block.loop c]).closeAll = bs.closeAll.map fun tree => some (inLoop c tree) := by
  have houter := (List.forall_mem_cons.1 hbs).2
  have hstand := closeTo_within [] [Block.loop c] (d := 0) (c := bs.current) houter
  rw [Nat.zero_add] at hstand
  cases hclose : closeTo 0 bs.current bs.outer with
  | error failure =>
    rw [hclose] at hstand
    have hall := closeTo_error_of_le (Nat.zero_le _) hstand
    rw [closeAll_of_error hclose, closeAll_of_error hall]
    rfl
  | ok opened =>
    obtain ⟨root, outer⟩ := opened
    obtain ⟨rfl, _⟩ := closeAll_of_closeTo hclose
    rw [hclose] at hstand
    have hinto : closeTo 0 root [Block.loop c] =
        .ok ⟨⟨[.loop c true (Node.ofBlock root.commit.nodes.reverse)], .body⟩, []⟩ := by
      rw [closeTo_cons (Nat.zero_le _), Block.closeInto]
      cases Node.ofBlock root.commit.nodes.reverse <;> rfl
    have hroot : Blocks.within [] [Block.loop c] ⟨root, []⟩ = ⟨root, [Block.loop c]⟩ := by
      simp [within, outerWithin, Block.seat, Block.after]
    have hall : closeTo 0 (bs.within [] [Block.loop c]).current
        (bs.within [] [Block.loop c]).outer = _ := (closeTo_closeTo (Nat.zero_le _) hstand).symm
    rw [hroot, hinto] at hall
    rw [closeAll_of_root hclose, closeAll_of_root hall]
    simp only [Except.map, inLoop_rootOf]
    rfl

/-- The first statement finds an empty block, be it the outermost one or the body of a loop. -/
theorem Blocks.accept_first (owners : List Block) (st : Statement) :
    Blocks.accept ⟨.empty, owners⟩ st = attemptWithin [] owners (start.accept st) := by
  simp only [Blocks.accept, start]
  cases Block.empty.commit.accept st with
  | error e => rfl
  | ok b => simp [attemptWithin, within, outerWithin, Block.seat, Block.after]

/-- Statements in a loop, one deeper, give the tree that they give alone, put into the loop. -/
theorem Blocks.treeOf_inLoop (c : String) (items : List (Nat × Statement)) :
    treeOf (placeAll ⟨Block.loop c, []⟩ (items.map (lower 1))) =
      (treeOf (start.placeAll items)).map fun tree => some (inLoop c tree) := by
  cases items with
  | nil => rfl
  | cons item items =>
    obtain ⟨depth, st⟩ := item
    rw [List.map_cons, placeAll_cons, placeAll_cons]
    cases depth with
    | succ depth => rfl
    | zero =>
      have hplace : Blocks.place ⟨Block.loop c, []⟩ (lower 1 (0, st)) =
          attemptWithin [] [Block.loop c] (start.place (0, st)) :=
        accept_first [Block.loop c] st
      rw [hplace]
      cases hfirst : start.place (0, st) with
      | error failure => rfl
      | ok bs =>
        have hfilled := filled_of_place (by simp [start]) hfirst
        have hrest : placeAll (bs.within [] [Block.loop c]) (items.map (lower 1)) = _ :=
          placeAll_within [] [Block.loop c] hfilled items
        simp only [attemptWithin, bind, Except.bind]
        rw [hrest]
        cases hall : bs.placeAll items with
        | error failure => rfl
        | ok last => exact closeAll_inLoop (filled_of_placeAll hfilled hall) c

/-- The statements of an outline in a loop. -/
theorem items_inLoop {c : String} (hc : ArgumentText c) (source : String) :
    (entries (":while " ++ String.ofList (marked c) ++ "\n" ++ tabbed source)).map Entry.item =
      (0, .command .whileLoop (some c)) :: ((entries source).map Entry.item).map (lower 1) := by
  have hwrites := hc.writes .whileLoop
  have hwritable : ∀ item ∈ [(0, Statement.command .whileLoop (some c))], Writable item.2 := by
    simpa using Writable.command .whileLoop hc
  have htext : ":while " ++ String.ofList (marked c) =
      writtenText [(0, .command .whileLoop (some c))] := by
    rw [← String.toList_inj]
    simp [writtenText, writtenLines, indented, Statement.written, Command.word]
  have hended : Ended (writtenLines [(0, .command .whileLoop (some c))]) := by
    intro l hl
    cases hl
    exact continues_indented hwrites.head hwrites.last 0
  rw [htext, entries, textLines_append, textLines_writtenText (by simp) hwritable,
    entriesOf_append hended, List.map_append, items_writtenLines hwritable, ← entries, items_tabbed]
  rfl

theorem parse_inLoop {c : String} (hc : ArgumentText c) (source : String) :
    parse (":while " ++ String.ofList (marked c) ++ "\n" ++ tabbed source) =
      (parse source).map fun tree => some (inLoop c tree) := by
  have hloop : Blocks.start.place (0, .command .whileLoop (some c)) = .ok ⟨Block.loop c, []⟩ :=
    Blocks.place_of_moveTo (c := .empty) rfl (.made (.whileLoop hc.nonempty))
  rw [parse_eq_placeAll, parse_eq_placeAll, items_inLoop hc, Blocks.placeAll_cons_of_ok hloop,
    Blocks.treeOf_inLoop]

/-- The tree of a source is a list of its outermost nodes, of which there is at least one. -/
theorem exists_rootOf_of_parse {source : String} {tree : Option Node}
    (h : parse source = .ok tree) : ∃ bs nodes,
      Blocks.start.placeAll ((entries source).map Entry.item) = .ok bs ∧
      bs.closeAll = .ok (rootOf nodes) ∧ tree = rootOf nodes := by
  rw [parse_eq_placeAll] at h
  cases hplace : Blocks.start.placeAll ((entries source).map Entry.item) with
  | error failure => rw [hplace] at h; cases h
  | ok bs =>
    rw [hplace] at h
    obtain ⟨root, _, rfl⟩ := Blocks.exists_root_of_closeAll h
    exact ⟨bs, _, rfl, h, rfl⟩

/-- A source with a tab before each line, after a line that begins a loop, is refused with the same
error as without, or has the loop alone in its tree. The body of the loop is the one node of the
tree of the source, or this tree if there are several, or is missing if there is none. -/
theorem parse_nested {c : String} (hc : ArgumentText c) (source : String) :
    let nested := ":while " ++ String.ofList (marked c) ++ "\n" ++ tabbed source
    (∀ e, parse nested = .error e ↔ parse source = .error e) ∧
    (parse source = .ok none → parse nested = .ok (some (.list [.loop c true none]))) ∧
    (∀ tree, parse source = .ok (some tree) → ∃ node rest, tree = .list (node :: rest) ∧
      parse nested = .ok (some (.list
        [.loop c true (some (if rest.isEmpty then node else tree))]))) := by
  intro nested
  have hparse : parse nested = (parse source).map fun tree => some (inLoop c tree) :=
    parse_inLoop hc source
  refine ⟨fun e => ?refused, fun h => ?empty, fun tree h => ?some⟩
  case refused =>
    rw [hparse]
    cases parse source with
    | error e' => exact Iff.rfl
    | ok tree =>
      constructor
      · intro h; cases h
      · intro h; cases h
  case empty =>
    rw [hparse, h]
    rfl
  case some =>
    obtain ⟨_, nodes, _, _, htree⟩ := exists_rootOf_of_parse h
    obtain ⟨node, rest, rfl⟩ : ∃ node rest, nodes = node :: rest :=
      List.exists_cons_of_ne_nil (by rintro rfl; cases htree)
    cases htree
    refine ⟨node, rest, rfl, ?_⟩
    rw [hparse, h]
    cases rest <;> rfl

/-- Two statements that go on in further lines, one of them a terminal that cannot hold the
other. -/
theorem parse_nested_terminal :
    let source := ":terminal a@\n# note\n\t\tb\n\tc@\nd"
    let nested := ":while " ++ String.ofList (marked "x\ny") ++ "\n" ++ tabbed source
    ArgumentText "x\ny" ∧
      nested = ":while x@y\n\t:terminal a@\n\t# note\n\t\t\tb\n\t\tc@\n\td" ∧
      parse source = .error (.inconsistent (.cannotHold .terminal)) ∧
      parse nested = .error (.inconsistent (.cannotHold .terminal)) := by
  intro source nested
  have hc : ArgumentText "x\ny" := by decide
  have hsource : parse source = .error (.inconsistent (.cannotHold .terminal)) := by
    subst source
    rfl
  exact ⟨hc, by decide, hsource, ((parse_nested hc source).1 _).2 hsource⟩

/-! ## One outline after another -/

/-- The first statement of an outline that has a tree comes next at the outermost depth, also where
there are nodes before it. -/
theorem Blocks.place_first {bs bs' : Blocks} {root : Block} {item : Nat × Statement}
    (hclose : closeTo 0 bs.current bs.outer = .ok ⟨root, []⟩)
    (h : start.place item = .ok bs') :
    bs.place item = .ok (bs'.within root.commit.nodes []) := by
  obtain ⟨depth, st⟩ := item
  obtain ⟨c, outer, b, hmove, haccept, rfl, _⟩ := place_ok h
  rcases moveTo_ok hmove with ⟨_, hnodes, _⟩ | ⟨hdepth, _, hstart⟩
  · exact absurd rfl hnodes
  · obtain rfl : depth = 0 := Nat.le_zero.1 hdepth
    cases hstart
    have hmove' : bs.moveTo 0 = .ok ⟨root, []⟩ := by
      rw [moveTo_of_le (Nat.zero_le _) (.inr rfl), hclose]
    -- only a statement that makes a node can be the first
    cases haccept with
    | made hmakes => exact place_of_moveTo hmove' (.made hmakes)
    | elseBranch hnodes => cases hnodes
    | case _ hnodes => cases hnodes

/-- Two sources that have trees can be put together if the last line of the first that is no comment
does not go on. The tree has the outermost nodes of the first and then those of the second. -/
theorem parse_append {before after : String} {first second : Option Node}
    (hfirst : parse before = .ok first) (hsecond : parse after = .ok second)
    (hends : ∀ l ∈ (textLines before).getLast?, l.getLast? ≠ some marker) :
    ∃ xs ys, first = rootOf xs ∧ second = rootOf ys ∧
      parse (before ++ "\n" ++ after) = .ok (rootOf (xs ++ ys)) := by
  obtain ⟨bs, xs, hplace, hclose, rfl⟩ := exists_rootOf_of_parse hfirst
  obtain ⟨bs', ys, hplace', hclose', rfl⟩ := exists_rootOf_of_parse hsecond
  refine ⟨xs, ys, rfl, rfl, ?_⟩
  have hended : Ended (textLines before) := by
    intro l hl
    exact Bool.eq_false_iff.2 fun hline => hends l hl (continues_iff.1 hline)
  have hentries : entries (before ++ "\n" ++ after) = entries before ++ entries after := by
    rw [entries, textLines_append, entriesOf_append hended]
    rfl
  rw [parse_eq_placeAll, hentries, List.map_append, Blocks.placeAll_append_of_ok hplace]
  cases hitems : (entries after).map Entry.item with
  | nil =>
    rw [hitems] at hplace'
    cases hplace'
    obtain rfl : [] = ys := rootOf_injective (Except.ok.inj hclose')
    rw [List.append_nil]
    exact hclose
  | cons item items =>
    rw [hitems, Blocks.placeAll_cons] at hplace'
    cases hone : Blocks.start.place item with
    | error failure => rw [hone] at hplace'; cases hplace'
    | ok next =>
      rw [hone] at hplace'
      obtain ⟨root, hroot, hxs⟩ := Blocks.exists_root_of_closeAll hclose
      have hnext : next.Filled := Blocks.filled_of_place (by simp [Blocks.start]) hone
      have hall := Blocks.placeAll_within root.commit.nodes [] hnext items
      have hlower : items.map (lower 0) = items := List.map_id items
      rw [List.length_nil, hlower, show next.placeAll items = .ok bs' from hplace'] at hall
      rw [Blocks.placeAll_cons_of_ok (Blocks.place_first hroot hone), hall, rootOf_injective hxs]
      exact Blocks.closeAll_after root.commit.nodes (Blocks.filled_of_placeAll hnext hplace')
        hclose'

/-- The first source ends in a switch with a case that is pending, two blocks deep, and the second
begins with another switch. -/
theorem parse_append_pending :
    let before := ":if a\n\t:switch b\n\t:case x@\n\t\ty\n# note @"
    let after := ":switch c\n:case x\n\td"
    let first := Node.decision "a" (some (.switch "b" [("x\ny", none)])) none
    let second := Node.switch "c" [("x", some (.process "d" none))]
    parse before = .ok (some (.list [first])) ∧ parse after = .ok (some (.list [second])) ∧
      (∀ l ∈ (textLines before).getLast?, l.getLast? ≠ some marker) ∧
      parse (before ++ "\n" ++ after) = .ok (some (.list [first, second])) := by
  intro before after first second
  have hfirst : parse before = .ok (rootOf [first]) := by
    subst before first
    rfl
  have hsecond : parse after = .ok (rootOf [second]) := by
    subst after second
    rfl
  have hends : ∀ l ∈ (textLines before).getLast?, l.getLast? ≠ some marker := by
    have hlines : (textLines before).getLast? = some "\t\ty".toList := by decide
    simp [hlines, marker]
  obtain ⟨xs, ys, hxs, hys, hall⟩ := parse_append hfirst hsecond hends
  rw [← rootOf_injective hxs, ← rootOf_injective hys] at hall
  exact ⟨hfirst, hsecond, hends, hall⟩

end Outline

end ProgramDiagram
