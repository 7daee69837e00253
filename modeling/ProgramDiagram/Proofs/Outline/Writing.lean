import ProgramDiagram.Proofs.Outline.Listing
import ProgramDiagram.Proofs.Outline.Wording
import ProgramDiagram.Proofs.Text.Lines

/-!
# Writing a tree as a source

* `Node.written`: a tree as the text that has each of its statements on one line.
* `Node.Canonical`: trees in which lists are needed and texts can be written.
* `items_written`: the statements of that text are those of the tree.
-/

namespace ProgramDiagram

open Outline

namespace Outline

/-- A text with markers for line breaks. -/
def marked (t : String) : List Char := t.toList.map fun c => if c = '\n' then marker else c

/-- The body that writes a statement. -/
def Statement.written : Statement → List Char
  | .process t => marked t
  | .command c none => ':' :: c.word.toList
  | .command c (some t) => ':' :: (c.word.toList ++ ' ' :: marked t)
  | .unknown word => ':' :: word.toList

/-- A text that may stand after a command word. -/
structure ArgumentText (t : String) : Prop where
  nonempty : t ≠ ""
  noMarker : marker ∉ t.toList
  head : ∀ c ∈ t.toList.head?, isBlank c = false
  last : ∀ c ∈ t.toList.getLast?, isBlank c = false

/-- A text that may stand for itself. -/
structure ProcessText (t : String) : Prop where
  noMarker : marker ∉ t.toList
  colon : t.toList.head? ≠ some ':'
  tab : t.toList.head? ≠ some '\t'
  lineFeed : t.toList.getLast? ≠ some '\n'
  carriageReturn : t.toList.getLast? ≠ some '\r'
  comment : isCommentLine (marked t) = false

instance (t : String) : Decidable (ArgumentText t) :=
  decidable_of_iff (t ≠ "" ∧ marker ∉ t.toList ∧ t.toList.head?.any isBlank = false ∧
      t.toList.getLast?.any isBlank = false) <| by
    simp only [Option.any_eq_false]
    exact ⟨fun ⟨h₁, h₂, h₃, h₄⟩ => ⟨h₁, h₂, h₃, h₄⟩, fun ⟨h₁, h₂, h₃, h₄⟩ => ⟨h₁, h₂, h₃, h₄⟩⟩

instance (t : String) : Decidable (ProcessText t) :=
  decidable_of_iff (marker ∉ t.toList ∧ t.toList.head? ≠ some ':' ∧ t.toList.head? ≠ some '\t' ∧
      t.toList.getLast? ≠ some '\n' ∧ t.toList.getLast? ≠ some '\r' ∧
      isCommentLine (marked t) = false)
    ⟨fun ⟨h₁, h₂, h₃, h₄, h₅, h₆⟩ => ⟨h₁, h₂, h₃, h₄, h₅, h₆⟩,
      fun ⟨h₁, h₂, h₃, h₄, h₅, h₆⟩ => ⟨h₁, h₂, h₃, h₄, h₅, h₆⟩⟩

/-- The statements of canonical trees. -/
inductive Writable : Statement → Prop
  | process {t : String} (h : ProcessText t) : Writable (.process t)
  | command (c : Command) {t : String} (h : ArgumentText t) : Writable (.command c (some t))
  | elseBranch : Writable (.command .elseBranch none)

/-- A body that stands on one line and is read as a statement. -/
structure Writes (body : List Char) (st : Statement) : Prop where
  head : body.head? ≠ some '\t'
  last : body.getLast? ≠ some marker
  reads : Statement.ofBody (unmarked body) = st
  lineFeed : '\n' ∉ body
  carriageReturn : body.getLast? ≠ some '\r'
  comment : isCommentLine body = false

theorem unmarked_marked {t : String} (h : marker ∉ t.toList) : unmarked (marked t) = t.toList := by
  rw [unmarked, marked, List.map_map, List.map_congr_left (g := id), List.map_id]
  intro c hc
  have hmarker : c ≠ marker := fun h' => h (h' ▸ hc)
  by_cases hfeed : c = '\n'
  · simp [hfeed]
  · simp [hfeed, hmarker]

theorem lineFeed_not_mem_marked (t : String) : '\n' ∉ marked t := by
  intro h
  obtain ⟨c, _, hc⟩ := List.mem_map.1 h
  split at hc
  · exact absurd hc (by decide)
  · contradiction

theorem head?_marked_ne {t : String} {c : Char} (hc : c ≠ marker) (h : t.toList.head? ≠ some c) :
    (marked t).head? ≠ some c := by
  rw [marked, List.head?_map]
  intro hmap
  obtain ⟨d, hd, hcd⟩ := Option.map_eq_some_iff.1 hmap
  split at hcd
  · exact hc hcd.symm
  · exact h (hcd ▸ hd)

theorem getLast?_marked_ne {t : String} {c : Char} (hc : c ≠ marker)
    (h : t.toList.getLast? ≠ some c) : (marked t).getLast? ≠ some c := by
  rw [marked, List.getLast?_map]
  intro hmap
  obtain ⟨d, hd, hcd⟩ := Option.map_eq_some_iff.1 hmap
  split at hcd
  · exact hc hcd.symm
  · exact h (hcd ▸ hd)

theorem getLast?_marked_ne_marker {t : String} (hmarker : marker ∉ t.toList)
    (h : t.toList.getLast? ≠ some '\n') : (marked t).getLast? ≠ some marker := by
  rw [marked, List.getLast?_map]
  intro hmap
  obtain ⟨d, hd, hcd⟩ := Option.map_eq_some_iff.1 hmap
  split at hcd
  · rename_i hfeed
    exact h (hfeed ▸ hd)
  · exact hmarker (hcd ▸ List.mem_of_getLast? hd)

theorem ProcessText.writes {t : String} (h : ProcessText t) : Writes (marked t) (.process t) where
  head := head?_marked_ne (by decide) h.tab
  last := getLast?_marked_ne_marker h.noMarker h.lineFeed
  reads := by rw [unmarked_marked h.noMarker, ofBody_process h.colon, String.ofList_toList]
  lineFeed := lineFeed_not_mem_marked t
  carriageReturn := getLast?_marked_ne (by decide) h.carriageReturn
  comment := h.comment

theorem trim_cons_space {cs : List Char} (hhead : ∀ c ∈ cs.head?, isBlank c = false)
    (hlast : ∀ c ∈ cs.getLast?, isBlank c = false) : trim (' ' :: cs) = cs := by
  have hspace : isBlank ' ' = true := rfl
  have hstart : trimStart (' ' :: cs) = cs := by
    rw [trimStart, List.dropWhile_cons_of_pos hspace]
    cases cs with
    | nil => rfl
    | cons c cs => rw [List.dropWhile_cons_of_neg (by simp [hhead c rfl])]
  have hend : cs.reverse.dropWhile isBlank = cs.reverse := by
    rcases List.eq_nil_or_concat cs with rfl | ⟨init, c, rfl⟩
    · rfl
    · have hc := hlast c (by simp)
      simp [hc]
  rw [trim, hstart, trimEnd, hend, List.reverse_reverse]

theorem ArgumentText.writes {t : String} (h : ArgumentText t) (c : Command) :
    Writes (':' :: (c.word.toList ++ ' ' :: marked t)) (.command c (some t)) := by
  have hne : marked t ≠ [] := by
    intro hnil
    exact h.nonempty (String.toList_eq_nil_iff.1 (List.map_eq_nil_iff.1 hnil))
  have hlast : (':' :: (c.word.toList ++ ' ' :: marked t)).getLast? = (marked t).getLast? := by
    rw [← List.cons_append, List.getLast?_append_of_ne_nil _ (by simp)]
    exact List.getLast?_append_of_ne_nil [' '] hne
  have hblank {x : Char} (hx : isBlank x = true) : t.toList.getLast? ≠ some x := by
    intro hmem
    rw [h.last x hmem] at hx
    cases hx
  have hword : unmarked c.word.toList = c.word.toList := by cases c <;> rfl
  refine ⟨by simp, ?_, ?_, ?_, ?_, rfl⟩
  · rw [hlast]
    exact getLast?_marked_ne_marker h.noMarker (hblank rfl)
  · have hbody : unmarked (':' :: (c.word.toList ++ ' ' :: marked t)) =
        ':' :: (c.word.toList ++ ' ' :: t.toList) := by
      calc unmarked (':' :: (c.word.toList ++ ' ' :: marked t)) =
          ':' :: (unmarked c.word.toList ++ ' ' :: unmarked (marked t)) := by
            simp [unmarked, marker]
        _ = ':' :: (c.word.toList ++ ' ' :: t.toList) := by
            rw [hword, unmarked_marked h.noMarker]
    rw [hbody, ofBody_append (by simp [endsWord]), argument?, trim_cons_space h.head h.last,
      String.ofList_toList]
    simp
  · have hfeed : '\n' ∉ c.word.toList := by cases c <;> decide
    simp [hfeed, lineFeed_not_mem_marked t]
  · rw [hlast]
    exact getLast?_marked_ne (by decide) (hblank rfl)

theorem writes_else : Writes ":else".toList (.command .elseBranch none) where
  head := by decide
  last := by decide
  reads := by decide
  lineFeed := by decide
  carriageReturn := by decide
  comment := by decide

theorem Writable.writes {st : Statement} (h : Writable st) : Writes st.written st := by
  cases h with
  | process h => exact h.writes
  | command c h => exact h.writes c
  | elseBranch => exact writes_else

/-! ## Texts of statements -/

/-- Statements, each on its line. -/
def writtenLines (items : List (Nat × Statement)) : List (List Char) :=
  items.map fun item => indented item.1 item.2.written

def writtenText (items : List (Nat × Statement)) : String :=
  String.ofList (['\n'].intercalate (writtenLines items))

theorem textLines_writtenText {items : List (Nat × Statement)} (hne : items ≠ [])
    (h : ∀ item ∈ items, Writable item.2) :
    textLines (writtenText items) = writtenLines items := by
  have hlines : lines (writtenText items) = writtenLines items := by
    apply lines_ofList
    · simpa [writtenLines] using hne
    · intro l hl
      obtain ⟨item, hitem, rfl⟩ := List.mem_map.1 hl
      have hfeed := (h item hitem).writes.lineFeed
      simp [indented, hfeed]
    · intro l hl
      obtain ⟨item, hitem, rfl⟩ := List.mem_map.1 hl
      have hreturn := (h item hitem).writes.carriageReturn
      rw [indented, List.getLast?_append]
      intro hlast
      rcases Option.or_eq_some_iff.1 hlast with hlast | ⟨_, hlast⟩
      · exact hreturn hlast
      · have htab := List.eq_of_mem_replicate (List.mem_of_getLast? hlast)
        exact absurd htab (by decide)
  rw [textLines, hlines, List.filter_eq_self]
  intro l hl
  obtain ⟨item, hitem, rfl⟩ := List.mem_map.1 hl
  simp [isCommentLine_indented, (h item hitem).writes.comment]

theorem items_writtenLines {items : List (Nat × Statement)}
    (h : ∀ item ∈ items, Writable item.2) :
    (entriesOf (writtenLines items)).map Entry.item = items := by
  induction items with
  | nil => rfl
  | cons item items ih =>
    obtain ⟨depth, st⟩ := item
    have hwrites := (h (depth, st) List.mem_cons_self).writes
    have hrest := ih fun item hitem => h item (List.mem_cons_of_mem _ hitem)
    have hline := continues_indented hwrites.head hwrites.last depth
    have hlines : writtenLines ((depth, st) :: items) =
      indented depth st.written :: writtenLines items := rfl
    rw [hlines, entriesOf_cons, continuation_of_not_continues hline, List.map_cons, hrest,
      entry_indented hwrites.head hwrites.last]
    simp only [Entry.item, Entry.statement, hwrites.reads]

/-- Statements that can be written are read as they were. -/
theorem items_writtenText {items : List (Nat × Statement)} (hne : items ≠ [])
    (h : ∀ item ∈ items, Writable item.2) :
    (entries (writtenText items)).map Entry.item = items := by
  rw [entries, textLines_writtenText hne h]
  exact items_writtenLines h

end Outline

/-! ## Canonical trees -/

mutual

/-- Lists hold several nodes, none of which is a list, the labels of a switch differ, and every text
can be written. -/
def Node.Canonical : Node → Prop
  | .process t child => ProcessText t ∧ BodyCanonical child
  | .terminal t => ArgumentText t
  | .comment t => ArgumentText t
  | .call t child => ArgumentText t ∧ BodyCanonical child
  | .loop t _ child => ArgumentText t ∧ BodyCanonical child
  | .decision t onTrue onFalse => ArgumentText t ∧ BodyCanonical onTrue ∧ BodyCanonical onFalse
  | .switch t cases => ArgumentText t ∧ (Cases.labels cases).Nodup ∧ CasesCanonical cases
  | .list children => 2 ≤ children.length ∧ NodesCanonical children

def BodyCanonical : Option Node → Prop
  | none => True
  | some body => body.Canonical

def CasesCanonical : List (String × Option Node) → Prop
  | [] => True
  | (label, body) :: rest => ArgumentText label ∧ BodyCanonical body ∧ CasesCanonical rest

def NodesCanonical : List Node → Prop
  | [] => True
  | node :: rest => node.kind ≠ .list ∧ node.Canonical ∧ NodesCanonical rest

end

/-- A canonical list as the root of a tree, where one node is enough. -/
def Node.CanonicalRoot : Node → Prop
  | .list children => children ≠ [] ∧ NodesCanonical children
  | _ => False

/-- The text that writes a tree. -/
def Node.written (root : Node) : String := writtenText (root.listing 0)

mutual

theorem Node.writable {depth : Nat} :
    (node : Node) → node.Canonical → ∀ item ∈ node.listing depth, Writable item.2
  | .process t child, h => by
    obtain ⟨ht, hchild⟩ := h
    simp only [Node.listing, List.forall_mem_cons]
    exact ⟨.process ht, bodyWritable child hchild⟩
  | .terminal t, h => by
    simp only [Node.listing, List.forall_mem_singleton]
    exact .command _ h
  | .comment t, h => by
    simp only [Node.listing, List.forall_mem_singleton]
    exact .command _ h
  | .call t child, h => by
    obtain ⟨ht, hchild⟩ := h
    simp only [Node.listing, List.forall_mem_cons]
    exact ⟨.command _ ht, bodyWritable child hchild⟩
  | .loop t testFirst child, h => by
    obtain ⟨ht, hchild⟩ := h
    simp only [Node.listing, List.forall_mem_cons]
    exact ⟨.command _ ht, bodyWritable child hchild⟩
  | .decision t onTrue onFalse, h => by
    obtain ⟨ht, htrue, hfalse⟩ := h
    simp only [Node.listing, List.forall_mem_cons, List.forall_mem_append]
    exact ⟨.command _ ht, bodyWritable onTrue htrue, elseWritable onFalse hfalse⟩
  | .switch t cases, h => by
    obtain ⟨ht, _, hcases⟩ := h
    simp only [Node.listing, List.forall_mem_cons]
    exact ⟨.command _ ht, casesWritable cases hcases⟩
  | .list children, h => by
    simp only [Node.listing]
    exact nodesWritable children h.2

theorem bodyWritable {depth : Nat} :
    (body : Option Node) → BodyCanonical body → ∀ item ∈ bodyListing depth body, Writable item.2
  | none, _ => by simp [bodyListing]
  | some body, h => body.writable h

theorem elseWritable {depth : Nat} :
    (body : Option Node) → BodyCanonical body → ∀ item ∈ elseListing depth body, Writable item.2
  | none, _ => by simp [elseListing]
  | some body, h => by
    simp only [elseListing, List.forall_mem_cons]
    exact ⟨.elseBranch, body.writable h⟩

theorem casesWritable {depth : Nat} :
    (cases : List (String × Option Node)) → CasesCanonical cases →
      ∀ item ∈ casesListing depth cases, Writable item.2
  | [], _ => by simp [casesListing]
  | (label, body) :: rest, h => by
    obtain ⟨hlabel, hbody, hrest⟩ := h
    simp only [casesListing, List.forall_mem_cons, List.forall_mem_append]
    exact ⟨.command _ hlabel, bodyWritable body hbody, casesWritable rest hrest⟩

theorem nodesWritable {depth : Nat} :
    (nodes : List Node) → NodesCanonical nodes →
      ∀ item ∈ nodesListing depth nodes, Writable item.2
  | [], _ => by simp [nodesListing]
  | node :: rest, h => by
    obtain ⟨_, hnode, hrest⟩ := h
    simp only [nodesListing, List.forall_mem_append]
    exact ⟨node.writable hnode, nodesWritable rest hrest⟩

end

/-- A node begins with a statement of its own. -/
theorem Node.listing_ne_nil {node : Node} (h : node.kind ≠ .list) (depth : Nat) :
    node.listing depth ≠ [] := by
  cases node with
  | list children => exact absurd rfl h
  | _ => simp [Node.listing]

/-- The text that writes a tree has the statements of the tree. -/
theorem Node.CanonicalRoot.items_written {root : Node} (h : root.CanonicalRoot) :
    (entries root.written).map Entry.item = root.listing 0 := by
  cases root with
  | list children =>
    obtain ⟨hne, hchildren⟩ := h
    have hwritable : ∀ item ∈ (Node.list children).listing 0, Writable item.2 := by
      simp only [Node.listing]
      exact nodesWritable children hchildren
    apply items_writtenText _ hwritable
    cases children with
    | nil => exact absurd rfl hne
    | cons node rest => simp [Node.listing, nodesListing, node.listing_ne_nil hchildren.1]
  | _ => exact absurd h id

end ProgramDiagram
