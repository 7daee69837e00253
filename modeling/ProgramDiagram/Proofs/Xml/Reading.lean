import Mathlib.Data.List.TakeWhile
import ProgramDiagram.Proofs.Xml.Tags
import ProgramDiagram.Text.Blank
import ProgramDiagram.Xml.Document

/-!
# Reading written markup

* `Markup.read?`: the tree that is read of markup;
* `readElement?_render`: that tree is what reading the written form gives, inside open elements as
  well as on its own;
* `readDocument?_render`: the same for a written document.
-/

namespace ProgramDiagram.Xml

/-! ## Trees of markup -/

/-- The element that is opened by a written start tag. -/
def readStart? (outer : Scope) (name : String) (attributes : Attributes) : Option OpenElement := do
  let tag ← nameOf? name
  let attributes ← readAttributes? attributes
  openElement? outer tag attributes

/-- The text that is read of a written one. -/
def readText (run : List Char) : String := String.ofList (textAgain false run)

/-- What is read of a run of text between two tags. -/
def readRun? (run : List Char) : Option (List Tree) :=
  if run.isEmpty then some []
  else if run.all isDocumentChar then some [.text (readText run)]
  else none

def Markup.isText : Markup → Bool
  | .text _ => true
  | _ => false

mutual

/-- The tree that is read of markup inside an element with the given prefixes in scope. -/
def Markup.read? (outer : Scope) : Markup → Option Tree
  | .leaf name attributes => (readStart? outer name attributes).map fun e => e.close []
  | .element name attributes content => do
    let e ← readStart? outer name attributes
    let trees ← readContent? e.scope [] content
    some (e.close trees)
  | .text value => some (.text (readText value.toList))

/-- The trees that are read of some content, behind a run of text. Texts side by side are read as
one. -/
def readContent? (scope : Scope) (run : List Char) : List Markup → Option (List Tree)
  | [] => readRun? run
  | m :: rest =>
    match m with
    | .text value => readContent? scope (run ++ value.toList) rest
    | m => do
      let texts ← readRun? run
      let tree ← m.read? scope
      let trees ← readContent? scope [] rest
      some (texts ++ tree :: trees)

end

mutual

/-- Whether all names in markup are names. -/
def Markup.WellNamed : Markup → Prop
  | .leaf name attributes =>
    (nameOf? name).isSome ∧ ∀ pair ∈ attributes, (nameOf? pair.1).isSome
  | .element name attributes content =>
    (nameOf? name).isSome ∧ (∀ pair ∈ attributes, (nameOf? pair.1).isSome) ∧
      WellNamedContent content
  | .text _ => True

def WellNamedContent : List Markup → Prop
  | [] => True
  | m :: rest => m.WellNamed ∧ WellNamedContent rest

end

/-- Two steps of which each is refused on a condition of its own. -/
theorem bind_ite {α β : Type} {p q : Prop} [Decidable p] [Decidable q] {a : α} {b : β}
    {f : α → Option β} (h : f a = if q then some b else none) :
    (if p then some a else none).bind f = if p ∧ q then some b else none := by
  by_cases hp : p
  · rw [if_pos hp, Option.bind_some, h]
    simp only [hp, true_and]
  · rw [if_neg hp, if_neg (mt And.left hp), Option.bind_none]

theorem wellNamedContent_iff {ms : List Markup} :
    WellNamedContent ms ↔ ∀ m ∈ ms, m.WellNamed := by
  induction ms with
  | nil => simp [WellNamedContent]
  | cons m ms ih => rw [WellNamedContent, ih, List.forall_mem_cons]

theorem readContent?_cons {m : Markup} (h : m.isText = false) (scope : Scope) (run : List Char)
    (rest : List Markup) :
    readContent? scope run (m :: rest) = (readRun? run).bind fun texts =>
      (m.read? scope).bind fun tree => (readContent? scope [] rest).map fun trees =>
        texts ++ tree :: trees := by
  have hbind : ∀ {α β γ : Type} (x : Option α) (y : Option β) (z : Option γ)
      (f : α → β → γ → List Tree),
      (do let a ← x; let b ← y; let c ← z; some (f a b c))
        = x.bind fun a => y.bind fun b => z.map fun c => f a b c := by
    intro α β γ x y z f
    cases x <;> cases y <;> cases z <;> rfl
  cases m with
  | leaf | element => rw [readContent?, hbind]; simp
  | text value => cases h

theorem tag_of_openElement? {outer : Scope} {tag : QName} {attributes : List (QName × String)}
    {e : OpenElement} (h : openElement? outer tag attributes = some e) : e.tag = tag := by
  simp only [openElement?, Option.bind_eq_bind, Option.bind_eq_some_iff, Option.some.injEq] at h
  obtain ⟨_, _, _, _, _, _, rfl⟩ := h
  rfl

theorem nameOf?_of_readStart? {outer : Scope} {name : String} {attributes : Attributes}
    {e : OpenElement} (h : readStart? outer name attributes = some e) :
    nameOf? name = some e.tag := by
  simp only [readStart?, Option.bind_eq_bind, Option.bind_eq_some_iff] at h
  obtain ⟨tag, htag, _, _, h⟩ := h
  rw [htag, tag_of_openElement? h]

/-! ## Reading on -/

/-- Reading goes on until the outermost element is complete. -/
def Partial.readOn? (p : Partial) (rest : List Char) : Option (Tree × List Char) :=
  match p with
  | .complete root => some (root, rest)
  | .inside frame outer => readElement? (frame :: outer) rest

theorem readElement?_eq (frames : List Frame) (cs : List Char) :
    readElement? frames cs = (do
      let (t, rest) ← token? cs
      let p ← t.apply? frames
      p.readOn? rest) := by
  rw [readElement?]
  split
  · rename_i htoken
    rw [htoken]
    rfl
  · rename_i t rest htoken
    simp only [htoken, Option.bind_eq_bind, Option.bind_some]
    cases t.apply? frames with
    | none => rfl
    | some p => cases p <;> rfl

theorem startTag_append (name : String) (attributes : Attributes) (ending rest : List Char) :
    startTag name attributes ending ++ rest = startTag name attributes (ending ++ rest) :=
  List.append_assoc ..

/-- A written start tag opens the element that is read of it. -/
theorem readElement?_startTag {name : String} {attributes : Attributes}
    (hname : (nameOf? name).isSome) (h : ∀ pair ∈ attributes, (nameOf? pair.1).isSome)
    (closed : Bool) (frames : List Frame) (rest : List Char) :
    readElement? frames ('<' :: startTag name attributes (tagEnd closed ++ rest))
      = (readStart? (scopeOf frames) name attributes).bind fun e =>
        (if closed then place (e.close []) frames else .inside ⟨e, []⟩ frames).readOn? rest := by
  obtain ⟨tag, htag⟩ := Option.isSome_iff_exists.1 hname
  rw [readElement?_eq, token?_start htag h, readStart?, htag]
  cases readAttributes? attributes with
  | none => rfl
  | some read =>
    simp only [Option.map_some, Option.bind_some, Option.bind_eq_bind, Token.apply?]
    cases openElement? (scopeOf frames) tag read <;> rfl

theorem readElement?_finish {name : String} {frame : Frame}
    (h : nameOf? name = some frame.element.tag) (outer : List Frame) (rest : List Char) :
    readElement? (frame :: outer) ('<' :: '/' :: (name.toList ++ '>' :: rest))
      = (place (frame.element.close frame.content.reverse) outer).readOn? rest := by
  simp [readElement?_eq, token?_finish h, Token.apply?]

/-- A frame with more content. -/
def Frame.add (frame : Frame) (trees : List Tree) : Frame :=
  { frame with content := trees.reverse ++ frame.content }

theorem Frame.element_add (frame : Frame) (trees : List Tree) :
    (frame.add trees).element = frame.element := rfl

theorem Frame.add_add (frame : Frame) (as bs : List Tree) :
    (frame.add as).add bs = frame.add (as ++ bs) := by
  simp [Frame.add]

theorem readElement?_run (run : List Char) (frame : Frame) (outer : List Frame)
    (rest : List Char) :
    readElement? (frame :: outer) (escaped run ++ '<' :: rest)
      = (readRun? run).bind fun texts =>
        readElement? (frame.add texts :: outer) ('<' :: rest) := by
  cases run with
  | nil => rfl
  | cons c cs =>
    rw [readElement?_eq, token?_text (List.cons_ne_nil c cs), readRun?, List.isEmpty_cons,
      if_neg Bool.false_ne_true]
    by_cases hall : (c :: cs).all isDocumentChar
    · rw [if_pos hall, if_pos hall]
      rfl
    · rw [if_neg hall, if_neg hall]
      rfl

theorem exists_render_eq {m : Markup} (h : m.isText = false) :
    ∃ rest, m.render.toList = '<' :: rest := by
  cases m with
  | leaf name attributes => exact ⟨_, toList_render_leaf name attributes⟩
  | element name attributes content => exact ⟨_, toList_render_element name attributes content⟩
  | text value => cases h

mutual

/-- Of written markup just its tree is read. -/
theorem readElement?_render : (m : Markup) → m.WellNamed → m.isText = false →
    ∀ (frames : List Frame) (rest : List Char),
      readElement? frames (m.render.toList ++ rest)
        = (m.read? (scopeOf frames)).bind fun tree => (place tree frames).readOn? rest
  | .leaf name attributes, hnamed, _, frames, rest => by
    rw [toList_render_leaf, List.cons_append, startTag_append, Markup.read?,
      show (['/', '>'] : List Char) = tagEnd true from rfl,
      readElement?_startTag hnamed.1 hnamed.2]
    cases readStart? (scopeOf frames) name attributes <;> rfl
  | .element name attributes content, hnamed, _, frames, rest => by
    have hending : '>' :: (renderAll content).toList ++ ('<' :: '/' :: name.toList ++ ['>'] ++ rest)
        = tagEnd false ++ (escaped [] ++ (renderAll content).toList
          ++ '<' :: '/' :: (name.toList ++ '>' :: rest)) := by
      simp [tagEnd, escaped]
    rw [toList_render_element, List.append_assoc, List.cons_append, startTag_append, hending,
      readElement?_startTag hnamed.1 hnamed.2.1, Markup.read?]
    cases hstart : readStart? (scopeOf frames) name attributes with
    | none => rfl
    | some e =>
      have hcontent := readElement?_renderAll content hnamed.2.2 ⟨e, []⟩ frames []
        ('/' :: (name.toList ++ '>' :: rest))
      have hinside : ∀ cs, (Partial.inside ⟨e, []⟩ frames).readOn? cs
          = readElement? (⟨e, []⟩ :: frames) cs := fun _ => rfl
      simp only [Option.bind_some, Bool.false_eq_true, if_false, hinside, hcontent,
        Option.bind_eq_bind]
      cases readContent? e.scope [] content with
      | none => rfl
      | some trees =>
        rw [Option.bind_some, Option.bind_some, Option.bind_some,
          readElement?_finish (nameOf?_of_readStart? hstart)]
        simp [Frame.add]
  | .text _, _, htext, _, _ => by cases htext

theorem readElement?_renderAll : (ms : List Markup) → WellNamedContent ms →
    ∀ (frame : Frame) (outer : List Frame) (run rest : List Char),
      readElement? (frame :: outer) (escaped run ++ (renderAll ms).toList ++ '<' :: rest)
        = (readContent? frame.element.scope run ms).bind fun trees =>
          readElement? (frame.add trees :: outer) ('<' :: rest)
  | [], _, frame, outer, run, rest => by
    rw [toList_renderAll_nil, List.append_nil, readContent?]
    exact readElement?_run run frame outer rest
  | m :: ms, hnamed, frame, outer, run, rest => by
    by_cases htext : m.isText
    · cases m with
      | leaf | element => cases htext
      | text value =>
        -- the text joins the run before it, as nothing written stands between them
        rw [toList_renderAll_cons, toList_render_text, ← List.append_assoc, ← escaped_append,
          readContent?]
        exact readElement?_renderAll ms hnamed.2 frame outer (run ++ value.toList) rest
    · rw [Bool.not_eq_true] at htext
      obtain ⟨inside, hrender⟩ := exists_render_eq htext
      have hfirst : ∀ texts after, readElement? (frame.add texts :: outer)
          ('<' :: (inside ++ after)) = (m.read? frame.element.scope).bind fun tree =>
            readElement? (frame.add (texts ++ [tree]) :: outer) after := by
        intro texts after
        rw [← List.cons_append, ← hrender, readElement?_render m hnamed.1 htext]
        simp [scopeOf, place, Partial.readOn?, Frame.add]
      have hrest : ∀ texts, readElement? (frame.add texts :: outer)
          ((renderAll ms).toList ++ '<' :: rest)
          = (readContent? frame.element.scope [] ms).bind fun trees =>
            readElement? (frame.add (texts ++ trees) :: outer) ('<' :: rest) := by
        intro texts
        have h := readElement?_renderAll ms hnamed.2 (frame.add texts) outer [] rest
        simpa only [escaped, List.flatMap_nil, List.nil_append, Frame.element_add,
          Frame.add_add] using h
      rw [toList_renderAll_cons, hrender, readContent?_cons htext, List.append_assoc,
        List.append_assoc, List.cons_append, readElement?_run]
      cases readRun? run with
      | none => rfl
      | some texts =>
        rw [Option.bind_some, Option.bind_some, hfirst]
        cases m.read? frame.element.scope with
        | none => rfl
        | some tree =>
          rw [Option.bind_some, Option.bind_some, hrest]
          cases readContent? frame.element.scope [] ms <;> simp

end

/-! ## Documents -/

theorem startsName_of_render {m : Markup} (hnamed : m.WellNamed) (htext : m.isText = false) :
    ∃ rest, m.render.toList = '<' :: rest ∧ startsName rest := by
  have hname : ∀ {name : String}, (nameOf? name).isSome → startsName name.toList := by
    intro name h
    obtain ⟨tag, htag⟩ := Option.isSome_iff_exists.1 h
    exact startsName_of_nameOf? htag
  cases m with
  | leaf name attributes =>
    rw [toList_render_leaf, startTag, List.append_assoc]
    exact ⟨_, rfl, startsName_append (hname hnamed.1) _⟩
  | element name attributes content =>
    rw [toList_render_element, startTag, List.append_assoc, List.cons_append, List.append_assoc]
    exact ⟨_, rfl, startsName_append (hname hnamed.1) _⟩
  | text value => cases htext

theorem afterNotes?_eq {cs rest : List Char} (h : skipSpaces cs = rest)
    (hnote : startsNote rest = false) : afterNotes? cs = some rest := by
  subst h
  rw [afterNotes?, if_neg (by simp [hnote])]

/-- Of a written document just its tree is read. Spaces may follow it. -/
theorem readDocument?_render {m : Markup} (hnamed : m.WellNamed) (htext : m.isText = false)
    {spaces : String} (hspaces : spaces.toList.all isSpace) :
    readDocument? (m.render ++ spaces) = m.read? [] := by
  obtain ⟨rest, hrender, hstart⟩ := startsName_of_render hnamed htext
  have hlist : (m.render ++ spaces).toList = '<' :: (rest ++ spaces.toList) := by
    rw [String.toList_append, hrender, List.cons_append]
  have hfirst := startsName_append hstart spaces.toList
  have hread : readElement? [] (m.render.toList ++ spaces.toList)
      = (m.read? []).bind fun tree => some (tree, spaces.toList) :=
    readElement?_render m hnamed htext [] spaces.toList
  have hend : afterNotes? spaces.toList = some [] :=
    afterNotes?_eq (List.dropWhile_eq_nil_iff.2 (List.all_eq_true.1 hspaces)) rfl
  rw [hrender, List.cons_append] at hread
  cases hcs : rest ++ spaces.toList with
  | nil => rw [hcs] at hfirst; cases hfirst
  | cons c cs =>
    rw [hcs] at hlist hread hfirst
    have hbang : c ≠ '!' := ne_of_isNameStart hfirst (by decide)
    have hquestion : c ≠ '?' := ne_of_isNameStart hfirst (by decide)
    have hmark : afterOrderMark ('<' :: c :: cs) = '<' :: c :: cs := rfl
    have hdeclaration : afterDeclaration? ('<' :: c :: cs) = some ('<' :: c :: cs) := by
      simp [afterDeclaration?, List.isPrefixOf, hquestion.symm]
    have hnotes : afterNotes? ('<' :: c :: cs) = some ('<' :: c :: cs) :=
      afterNotes?_eq (skipSpaces_cons (by decide) _)
        (by simp [startsNote, List.isPrefixOf, hbang.symm, hquestion.symm])
    simp only [readDocument?, hlist, hmark, hdeclaration, hnotes, hread, Option.bind_eq_bind,
      Option.bind_some]
    cases m.read? [] with
    | none => rfl
    | some root => simp [hend]

theorem isPrefixOf_of_not_mem {c : Char} {run cs : List Char} (h : c ∉ cs) :
    (c :: run).isPrefixOf cs = false := by
  cases cs with
  | nil => rfl
  | cons d cs =>
    have hne : c ≠ d := fun heq => h (heq ▸ List.mem_cons_self)
    simp [List.isPrefixOf, hne]

theorem readElement?_of_not_mem {cs : List Char} (h : '<' ∉ cs) : readElement? [] cs = none := by
  have hhead : cs.head? ≠ some '<' := fun hsome => h (List.mem_of_mem_head? hsome)
  rw [readElement?_eq, token?_eq_text? hhead, text?]
  simp only
  split
  · rfl
  · cases pieces? (cs.takeWhile (· ≠ '<')) <;> rfl

/-- A document has a tag. -/
theorem mem_of_readDocument? {text : String} {root : Tree} (h : readDocument? text = some root) :
    '<' ∈ text.toList := by
  by_contra hnone
  have hmark : '<' ∉ afterOrderMark text.toList := by
    unfold afterOrderMark
    split
    · rename_i htext
      exact fun hmem => hnone (htext ▸ List.mem_cons_of_mem _ hmem)
    · exact hnone
  have hspaces : '<' ∉ skipSpaces (afterOrderMark text.toList) :=
    fun hmem => hmark ((List.dropWhile_sublist _).subset hmem)
  have hdeclaration : afterDeclaration? (afterOrderMark text.toList)
      = some (afterOrderMark text.toList) :=
    if_neg (Bool.eq_false_iff.1 (isPrefixOf_of_not_mem hmark))
  have hnotes : startsNote (skipSpaces (afterOrderMark text.toList)) = false := by
    have hother : ∀ run,
        ('<' :: run).isPrefixOf (skipSpaces (afterOrderMark text.toList)) = false :=
      fun _ => isPrefixOf_of_not_mem hspaces
    exact Bool.or_eq_false_iff.2 ⟨hother _, hother _⟩
  rw [readDocument?, hdeclaration, Option.bind_eq_bind, Option.bind_some,
    afterNotes?_eq rfl hnotes, Option.bind_eq_bind, Option.bind_some,
    readElement?_of_not_mem hspaces] at h
  cases h

theorem allBlank_of_readDocument? {text : String} {root : Tree}
    (h : readDocument? text = some root) : allBlank text = false := by
  rw [← Bool.not_eq_true, allBlank, List.all_eq_true]
  intro hblank
  have := hblank '<' (mem_of_readDocument? h)
  contradiction

end ProgramDiagram.Xml
