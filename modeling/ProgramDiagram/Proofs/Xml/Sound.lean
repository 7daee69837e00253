import ProgramDiagram.Proofs.Xml.Elements
import ProgramDiagram.Proofs.Xml.Scope
import ProgramDiagram.Xml.Document

/-!
# What is read

The reader resolves names and checks characters, so that a tree can be written without looking at
either again.

* `Tree.Sound`: names are names, namespaces are declared, attributes differ and all characters are
  allowed;
* `sound_of_token?`: what a token has of this;
* `sound_of_readDocument?`: all trees that are read are sound.
-/

namespace ProgramDiagram.Xml

/-! ## Characters -/

def Piece.char : Piece → Char
  | .plain c => c
  | .reference c => c

theorem isDocumentChar_of_ofCode? {n : Nat} {c : Char} (h : ofCode? n = some c) :
    isDocumentChar c := by
  unfold ofCode? at h
  split at h
  · simp only [Option.ite_none_right_eq_some, Option.some.injEq] at h
    obtain ⟨hallowed, rfl⟩ := h
    exact hallowed
  · cases h

theorem isDocumentChar_of_referenced? {name : List Char} {c : Char}
    (h : referenced? name = some c) : isDocumentChar c := by
  unfold referenced? at h
  split at h
  · obtain ⟨n, _, hn⟩ := Option.bind_eq_some_iff.1 h
    exact isDocumentChar_of_ofCode? hn
  · obtain ⟨n, _, hn⟩ := Option.bind_eq_some_iff.1 h
    exact isDocumentChar_of_ofCode? hn
  · split_ifs at h <;> (obtain rfl := Option.some.inj h; decide)

theorem allowed_pieces? {raw : List Char} {ps : List Piece} (h : pieces? raw = some ps)
    (hraw : raw.all isDocumentChar) : ∀ p ∈ ps, isDocumentChar p.char := by
  fun_induction pieces? raw generalizing ps with
  | case1 =>
    obtain rfl := Option.some.inj h
    exact List.forall_mem_nil _
  | case2 => cases h
  | case3 cs d rest hdrop ih =>
    simp only [Option.bind_eq_bind, Option.bind_eq_some_iff, Option.some.injEq] at h
    obtain ⟨c, hc, ps', hps, rfl⟩ := h
    have hrest : rest.all isDocumentChar := by
      have hmem : ∀ e ∈ rest, e ∈ cs := fun e he =>
        (List.dropWhile_sublist _).subset (hdrop ▸ List.mem_cons_of_mem _ he)
      rw [List.all_eq_true] at hraw ⊢
      exact fun e he => hraw e (List.mem_cons_of_mem _ (hmem e he))
    exact List.forall_mem_cons.2 ⟨isDocumentChar_of_referenced? hc, ih hps hrest⟩
  | case4 c cs hc ih =>
    simp only [Option.bind_eq_bind, Option.bind_eq_some_iff, Option.some.injEq] at h
    obtain ⟨ps', hps, rfl⟩ := h
    rw [List.all_cons, Bool.and_eq_true] at hraw
    exact List.forall_mem_cons.2 ⟨hraw.1, ih hps hraw.2⟩

theorem allowed_textValue {ps : List Piece} (h : ∀ p ∈ ps, isDocumentChar p.char)
    (afterReference : Bool) : (textValue afterReference ps).all isDocumentChar := by
  have hends : isDocumentChar '\r' ∧ isDocumentChar '\n' := by decide
  fun_induction textValue afterReference ps <;>
    simp_all [Piece.char]

theorem allowed_attributeValue {ps : List Piece} (h : ∀ p ∈ ps, isDocumentChar p.char) :
    (attributeValue ps).all isDocumentChar := by
  have hspace : isDocumentChar ' ' := by decide
  fun_induction attributeValue ps with
  | case1 => rfl
  | case2 => simp_all [Piece.char]
  | case3 => simp_all
  | case4 c rest _ ih =>
    obtain ⟨hc, hrest⟩ := List.forall_mem_cons.1 h
    rw [List.all_cons, ih hrest, Bool.and_true]
    split
    · exact hspace
    · exact hc

theorem allowed_splitBefore? {stop cs before after : List Char}
    (h : splitBefore? stop cs = some (before, after)) : before.all isDocumentChar := by
  induction cs generalizing before with
  | nil => cases h
  | cons c cs ih =>
    simp only [splitBefore?] at h
    split at h
    · obtain ⟨rfl, -⟩ := Prod.mk.inj (Option.some.inj h)
      rfl
    · split at h
      · rename_i hc
        simp only [Option.map_eq_some_iff, Prod.mk.injEq] at h
        obtain ⟨⟨b, a⟩, hrest, rfl, rfl⟩ := h
        rw [List.all_cons, hc, ih hrest]
        rfl
      · cases h

/-! ## Names -/

/-- A name whose parts have no colons. -/
structure QName.Sound (name : QName) : Prop where
  qualifier : name.qualifier = "" ∨ isPart name.qualifier
  localPart : isPart name.localPart

theorem isPart_ofList {cs : List Char} (hstart : startsName cs) (hall : cs.all isNameChar)
    (hcolon : ':' ∉ cs) : isPart (String.ofList cs) := by
  rw [isPart_iff, String.toList_ofList]
  exact ⟨hstart, hall, hcolon⟩

theorem sound_of_ofRun? {run : List Char} {name : QName} (h : QName.ofRun? run = some name)
    (hrun : run.all isNameChar) : name.Sound := by
  have hmem : ∀ c ∈ run.takeWhile (· ≠ ':'), isNameChar c ∧ c ≠ ':' := by
    intro c hc
    have hne := List.mem_takeWhile_imp hc
    exact ⟨List.all_eq_true.1 hrun c ((List.takeWhile_sublist _).subset hc), by simpa using hne⟩
  have hall : (run.takeWhile (· ≠ ':')).all isNameChar :=
    List.all_eq_true.2 fun c hc => (hmem c hc).1
  have hcolon : ':' ∉ run.takeWhile (· ≠ ':') := fun hc => (hmem _ hc).2 rfl
  unfold QName.ofRun? at h
  simp only at h
  split at h
  · split at h
    · rename_i hstart
      obtain rfl := Option.some.inj h
      exact ⟨.inl rfl, isPart_ofList hstart hall hcolon⟩
    · cases h
  · rename_i d localPart hdrop
    split at h
    · rename_i hparts
      simp only [Bool.and_eq_true, Bool.or_eq_true, Bool.not_eq_true', List.contains_eq_mem,
        decide_eq_false_iff_not] at hparts
      obtain ⟨⟨hqualifier, hlocal⟩, hlocalColon⟩ := hparts
      have hlocalAll : localPart.all isNameChar := by
        rw [List.all_eq_true] at hrun ⊢
        exact fun c hc => hrun c
          ((List.dropWhile_sublist _).subset (hdrop ▸ List.mem_cons_of_mem _ hc))
      obtain rfl := Option.some.inj h
      refine ⟨?_, isPart_ofList hlocal hlocalAll hlocalColon⟩
      rcases hqualifier with hempty | hstart
      · rw [List.isEmpty_iff.1 hempty]
        exact .inl rfl
      · exact .inr (isPart_ofList hstart hall hcolon)
    · cases h

theorem sound_of_qname? {cs rest : List Char} {name : QName} (h : qname? cs = some (name, rest)) :
    name.Sound := by
  simp only [qname?, Option.map_eq_some_iff, Prod.mk.injEq] at h
  obtain ⟨_, hrun, rfl, -⟩ := h
  exact sound_of_ofRun? hrun (List.all_eq_true.2 fun c hc => List.mem_takeWhile_imp hc)

/-! ## Tokens -/

/-- An attribute with a name and an allowed value. -/
def SoundAttribute (a : QName × String) : Prop := a.1.Sound ∧ isAllowed a.2

def Token.Sound : Token → Prop
  | .start name attributes _ => name.Sound ∧ ∀ a ∈ attributes, SoundAttribute a
  | .finish _ => True
  | .text value => isAllowed value
  | .note => True

theorem sound_of_rawAttribute? {cs value rest : List Char} {name : QName}
    (h : rawAttribute? cs = some (name, value, rest)) :
    name.Sound ∧ value.all isDocumentChar := by
  simp only [rawAttribute?, Option.bind_eq_bind, Option.bind_eq_some_iff] at h
  obtain ⟨⟨n, afterName⟩, hn, h⟩ := h
  split at h
  case h_2 => cases h
  split at h
  case h_2 => cases h
  split at h
  · cases h
  · split at h
    · cases h
    · split at h
      · rename_i hvalue
        simp only [Option.some.injEq, Prod.mk.injEq] at h
        obtain ⟨rfl, rfl, -⟩ := h
        exact ⟨sound_of_qname? hn, hvalue.2⟩
      · cases h

theorem sound_of_attributes? {cs rest : List Char} {attributes : List (QName × String)}
    {closed : Bool} (h : attributes? cs = some (attributes, closed, rest)) :
    ∀ a ∈ attributes, SoundAttribute a := by
  fun_induction attributes? cs generalizing attributes closed rest with
  | case1 | case2 =>
    obtain ⟨rfl, -⟩ := Prod.mk.inj (Option.some.inj h)
    exact List.forall_mem_nil _
  | case3 | case4 => cases h
  | case5 cs _ _ raw after hraw _ _ ih =>
    simp only [Option.bind_eq_bind, Option.bind_eq_some_iff] at h
    obtain ⟨ps, hps, ⟨others, c, a⟩, hrest, h⟩ := h
    simp only [Option.some.injEq, Prod.mk.injEq] at h
    obtain ⟨rfl, -⟩ := h
    obtain ⟨hname, hvalue⟩ := sound_of_rawAttribute? hraw
    have hallowed := allowed_attributeValue (allowed_pieces? hps hvalue)
    exact List.forall_mem_cons.2 ⟨⟨hname, isAllowed_ofList _ ▸ hallowed⟩, ih hrest⟩

theorem sound_of_text? {cs rest : List Char} {t : Token} (h : text? cs = some (t, rest)) :
    t.Sound := by
  simp only [text?] at h
  split at h
  · cases h
  · rename_i hraw
    simp only [Bool.or_eq_true, not_or, Bool.not_eq_true', Bool.not_eq_false] at hraw
    simp only [Option.bind_eq_bind, Option.bind_eq_some_iff, Option.some.injEq,
      Prod.mk.injEq] at h
    obtain ⟨ps, hps, rfl, -⟩ := h
    rw [Token.Sound, isAllowed_ofList]
    exact allowed_textValue (allowed_pieces? hps hraw.1.2) false

/-- Every token that is read is sound. -/
theorem sound_of_token? {cs rest : List Char} {t : Token} (h : token? cs = some (t, rest)) :
    t.Sound := by
  unfold token? at h
  split at h
  · obtain ⟨_, -, h⟩ := Option.map_eq_some_iff.1 h
    obtain ⟨rfl, -⟩ := Prod.mk.inj h
    trivial
  · split at h
    · simp only [Option.bind_eq_bind, Option.bind_eq_some_iff, Option.some.injEq,
        Prod.mk.injEq] at h
      obtain ⟨⟨data, after⟩, hs, rfl, -⟩ := h
      have hdata : ∀ p ∈ data.map Piece.plain, isDocumentChar p.char :=
        List.forall_mem_map.2 (List.all_eq_true.1 (allowed_splitBefore? hs))
      rw [Token.Sound, isAllowed_ofList]
      exact allowed_textValue hdata false
    · cases h
  · obtain ⟨_, -, h⟩ := Option.map_eq_some_iff.1 h
    obtain ⟨rfl, -⟩ := Prod.mk.inj h
    trivial
  · simp only [Option.bind_eq_bind, Option.bind_eq_some_iff] at h
    obtain ⟨_, -, h⟩ := h
    split at h
    · obtain ⟨rfl, -⟩ := Prod.mk.inj (Option.some.inj h)
      trivial
    · cases h
  · simp only [Option.bind_eq_bind, Option.bind_eq_some_iff, Option.some.injEq,
      Prod.mk.injEq] at h
    obtain ⟨⟨name, afterName⟩, hn, ⟨attributes, closed, after⟩, ha, rfl, -⟩ := h
    exact ⟨sound_of_qname? hn, sound_of_attributes? ha⟩
  · exact sound_of_text? h

/-! ## Start tags -/

/-- A declaration that may be in scope. -/
structure SoundDeclaration (d : Option String × String) : Prop where
  key : ∀ key ∈ d.1, isPart key ∧ key ≠ "xml"
  free : d.2 ≠ xmlSpace ∧ d.2 ≠ xmlnsSpace
  allowed : isAllowed d.2

theorem sound_of_declarePrefix? {declared declared' : Scope} {key space : String}
    (h : declarePrefix? declared key space = some declared')
    (hdeclared : ∀ d ∈ declared, SoundDeclaration d) (hkey : isPart key)
    (hspace : isAllowed space) : ∀ d ∈ declared', SoundDeclaration d := by
  unfold declarePrefix? at h
  split at h
  · cases h
  · rename_i hfixed
    simp only [Bool.or_eq_true, not_or, Bool.not_eq_true, bne_eq_false_iff_eq,
      decide_eq_true_eq] at hfixed
    obtain rfl := Option.some.inj h
    split
    · exact hdeclared
    · rename_i hxml
      have hne : key ≠ "xml" := by
        intro heq
        simp [heq, hxml] at hfixed
      refine List.forall_mem_append.2 ⟨hdeclared, List.forall_mem_singleton.2 ⟨?_, ?_, hspace⟩⟩
      · rintro key' hkey'
        obtain rfl := Option.some.inj hkey'
        exact ⟨hkey, hne⟩
      · exact ⟨hxml, hfixed.1.1⟩

theorem sound_of_declareDefault? {declared declared' : Scope} {space : String}
    (h : declareDefault? declared space = some declared')
    (hdeclared : ∀ d ∈ declared, SoundDeclaration d) (hspace : isAllowed space) :
    ∀ d ∈ declared', SoundDeclaration d := by
  unfold declareDefault? at h
  split at h
  · cases h
  · rename_i hfixed
    simp only [Bool.or_eq_true, not_or, decide_eq_true_eq] at hfixed
    obtain rfl := Option.some.inj h
    refine List.forall_mem_append.2 ⟨hdeclared, List.forall_mem_singleton.2 ⟨?_, hfixed, hspace⟩⟩
    intro key hkey
    cases hkey

/-- Separating attributes gives sound declarations, and other sound attributes. -/
theorem sound_of_separate? {attributes : List (QName × String)}
    (h : ∀ a ∈ attributes, SoundAttribute a) {declared declared' : Scope}
    {kept kept' : List (QName × String)}
    (hresult : separate? declared kept attributes = some (declared', kept'))
    (hdeclared : ∀ d ∈ declared, SoundDeclaration d)
    (hkept : ∀ a ∈ kept, SoundAttribute a ∧ IsKept a.1) :
    (∀ d ∈ declared', SoundDeclaration d) ∧ ∀ a ∈ kept', SoundAttribute a ∧ IsKept a.1 := by
  induction attributes generalizing declared kept with
  | nil =>
    obtain ⟨rfl, rfl⟩ := Prod.mk.inj (Option.some.inj hresult)
    exact ⟨hdeclared, fun a ha => hkept a (List.mem_reverse.1 ha)⟩
  | cons a attributes ih =>
    obtain ⟨name, value⟩ := a
    obtain ⟨⟨hname, hvalue⟩, hrest⟩ := List.forall_mem_cons.1 h
    rw [separate?] at hresult
    split at hresult
    · obtain ⟨declared'', hdeclare, hresult⟩ := Option.bind_eq_some_iff.1 hresult
      exact ih hrest hresult
        (sound_of_declarePrefix? hdeclare hdeclared hname.localPart hvalue) hkept
    · rename_i hqualifier
      split at hresult
      · obtain ⟨declared'', hdeclare, hresult⟩ := Option.bind_eq_some_iff.1 hresult
        exact ih hrest hresult (sound_of_declareDefault? hdeclare hdeclared hvalue) hkept
      · rename_i hlocal
        exact ih hrest hresult hdeclared
          (List.forall_mem_cons.2 ⟨⟨⟨hname, hvalue⟩, hqualifier, hlocal⟩, hkept⟩)

theorem mem_enter {declared outer : Scope} {d : Option String × String}
    (h : d ∈ Scope.enter declared outer) : d ∈ declared ∨ d ∈ outer := by
  have hfold : ∀ {scope : Scope}, d ∈ outer.foldl
      (fun scope d => if scope.any (·.1 = d.1) then scope else scope ++ [d]) scope →
      d ∈ scope ∨ d ∈ outer := by
    clear h
    induction outer with
    | nil => exact fun h => .inl h
    | cons e outer ih =>
      intro scope h
      rw [List.foldl_cons] at h
      rcases ih h with h | h
      · split at h
        · exact .inl h
        · rcases List.mem_append.1 h with h | h
          · exact .inl h
          · exact .inr (List.mem_singleton.1 h ▸ List.mem_cons_self)
      · exact .inr (List.mem_cons_of_mem _ h)
  rw [Scope.enter] at h
  split at h
  · exact .inr h
  · exact hfold h

theorem mem_of_lookup {scope : Scope} {key : Option String} {space : String}
    (h : scope.lookup key = some space) : (key, space) ∈ scope := by
  obtain ⟨before, after, heq, -⟩ := List.lookup_eq_some_iff.1 h
  rw [heq]
  simp

theorem of_attributeNames? {scope : Scope} {attributes : List (QName × String)}
    {names : List (Name × String)} (h : attributeNames? scope attributes = some names) :
    (names.map Prod.fst).Nodup ∧
      ∀ a ∈ names, ∃ name, (name, a.2) ∈ attributes ∧ attributeName? scope name = some a.1 := by
  induction attributes generalizing names with
  | nil =>
    obtain rfl := Option.some.inj h
    exact ⟨List.nodup_nil, List.forall_mem_nil _⟩
  | cons a attributes ih =>
    obtain ⟨written, value⟩ := a
    simp only [attributeNames?, Option.bind_eq_bind, Option.bind_eq_some_iff] at h
    obtain ⟨name, hname, others, hothers, h⟩ := h
    split at h
    · cases h
    · rename_i hnew
      obtain rfl := Option.some.inj h
      obtain ⟨hnodup, hnames⟩ := ih hothers
      constructor
      · rw [List.map_cons, List.nodup_cons]
        refine ⟨fun hmem => hnew ?_, hnodup⟩
        obtain ⟨a, ha, hsame⟩ := List.mem_map.1 hmem
        exact List.any_eq_true.2 ⟨a, ha, decide_eq_true hsame⟩
      · refine List.forall_mem_cons.2 ⟨⟨written, List.mem_cons_self, hname⟩, fun a ha => ?_⟩
        obtain ⟨name', hmem, hname'⟩ := hnames a ha
        exact ⟨name', List.mem_cons_of_mem _ hmem, hname'⟩

/-- The name of an attribute in an element with the given prefixes in scope. -/
structure SoundKey (scope : Scope) (name : Name) : Prop where
  localPart : isPart name.localPart
  kept : name.localPart ≠ "xmlns"
  known : ∀ space ∈ name.space, space = xmlSpace ∨ ∃ key, (key, space) ∈ scope

/-- An element inside another with the given prefixes in scope: what is in scope around it stays in
scope, and all namespaces are. -/
structure Element.Sound (outer : Scope) (e : Element) : Prop where
  declared : ∀ d ∈ e.scope, SoundDeclaration d
  inherits : ∀ key, e.scope.lookup key = none → outer.lookup key = none
  localPart : isPart e.name.localPart
  unknown : e.name.space = none → e.scope.lookup none = none
  known : ∀ space ∈ e.name.space, ∃ key, (key, space) ∈ e.scope
  keys : ∀ a ∈ e.attributes, SoundKey e.scope a.1
  values : ∀ a ∈ e.attributes, isAllowed a.2
  nodup : (e.attributes.map Prod.fst).Nodup

theorem soundKey_of_attributeName? {scope : Scope} {written : QName} {name : Name}
    (h : attributeName? scope written = some name) (hwritten : written.Sound)
    (hkept : IsKept written) : SoundKey scope name := by
  unfold attributeName? at h
  split at h
  · obtain rfl := Option.some.inj h
    exact ⟨hwritten.localPart, hkept.2, fun space hspace => .inl (Option.some.inj hspace).symm⟩
  · split at h
    · obtain rfl := Option.some.inj h
      exact ⟨hwritten.localPart, hkept.2, fun space hspace => by cases hspace⟩
    · obtain ⟨space, hspace, rfl⟩ := Option.map_eq_some_iff.1 h
      refine ⟨hwritten.localPart, hkept.2, fun space' hspace' => ?_⟩
      obtain rfl := Option.some.inj hspace'
      exact .inr ⟨_, mem_of_lookup hspace⟩

/-- An element that is opened by a sound tag is sound. -/
theorem sound_of_openElement? {outer : Scope} {tag : QName} {attributes : List (QName × String)}
    {e : OpenElement} (h : openElement? outer tag attributes = some e)
    (houter : ∀ d ∈ outer, SoundDeclaration d) (htag : tag.Sound)
    (hattributes : ∀ a ∈ attributes, SoundAttribute a) (content : List Tree) :
    Element.Sound outer ⟨e.name, e.scope, e.attributes, content⟩ := by
  simp only [openElement?, Option.bind_eq_bind, Option.bind_eq_some_iff, Option.some.injEq] at h
  obtain ⟨⟨declared, kept⟩, hseparate, names, hnames, name, hname, rfl⟩ := h
  obtain ⟨hdeclared, hkept⟩ := sound_of_separate? hattributes hseparate
    (List.forall_mem_nil _) (List.forall_mem_nil _)
  obtain ⟨hnodup, hresolved⟩ := of_attributeNames? hnames
  have htagged : name.localPart = tag.localPart ∧
      (name.space = none → (Scope.enter declared outer).lookup none = none) ∧
      ∀ space ∈ name.space, ∃ key, (key, space) ∈ Scope.enter declared outer := by
    unfold elementName? at hname
    split at hname
    · cases hname
    · split at hname
      · obtain rfl := Option.some.inj hname
        exact ⟨rfl, id, fun space hspace => ⟨none, mem_of_lookup hspace⟩⟩
      · obtain ⟨space, hspace, rfl⟩ := Option.map_eq_some_iff.1 hname
        refine ⟨rfl, (nomatch ·), fun space' hspace' => ?_⟩
        obtain rfl := Option.some.inj hspace'
        exact ⟨_, mem_of_lookup hspace⟩
  obtain ⟨hlocal, hunknown, hknown⟩ := htagged
  exact {
    declared := fun d hd => (mem_enter hd).elim (hdeclared d) (houter d)
    inherits := by
      intro key hkey
      rw [lookup_enter, Option.or_eq_none_iff] at hkey
      exact hkey.2
    localPart := hlocal ▸ htag.localPart
    unknown := hunknown
    known := hknown
    keys := by
      intro a ha
      obtain ⟨written, hmem, hwritten⟩ := hresolved a ha
      obtain ⟨hsound, hown⟩ := hkept _ hmem
      exact soundKey_of_attributeName? hwritten hsound.1 hown
    values := by
      intro a ha
      obtain ⟨written, hmem, -⟩ := hresolved a ha
      exact (hkept _ hmem).1.2
    nodup := hnodup }

/-! ## Trees -/

/-- A tree inside an element with the given prefixes in scope: all its elements are sound and the
characters of its texts allowed. -/
def Tree.Sound (outer : Scope) (tree : Tree) : Prop :=
  tree.Every Element.Sound (fun value => isAllowed value) outer

def SoundContent (scope : Scope) (content : List Tree) : Prop :=
  ContentEvery Element.Sound (fun value => isAllowed value) scope content

/-- Open elements, innermost first, that are sound with what they hold so far. -/
def SoundFrames : List Frame → Prop
  | [] => True
  | frame :: outer =>
    (∀ content, Element.Sound (scopeOf outer)
      ⟨frame.element.name, frame.element.scope, frame.element.attributes, content⟩) ∧
      (∀ tree ∈ frame.content, tree.Sound frame.element.scope) ∧ SoundFrames outer

def Partial.Sound : Partial → Prop
  | .complete root => root.Sound [] ∧ root.isElement
  | .inside frame outer => SoundFrames (frame :: outer)

theorem SoundFrames.scope {frames : List Frame} (h : SoundFrames frames) :
    ∀ d ∈ scopeOf frames, SoundDeclaration d := by
  cases frames with
  | nil => exact List.forall_mem_nil _
  | cons frame outer => exact (h.1 []).declared

theorem SoundFrames.place {frames : List Frame} (h : SoundFrames frames) {tree : Tree}
    (htree : tree.Sound (scopeOf frames)) (helement : frames = [] → tree.isElement) :
    (place tree frames).Sound := by
  cases frames with
  | nil => exact ⟨htree, helement rfl⟩
  | cons frame outer => exact ⟨h.1, List.forall_mem_cons.2 ⟨htree, h.2.1⟩, h.2.2⟩

/-- A token keeps what is read so far sound. -/
theorem SoundFrames.after {frames : List Frame} (h : SoundFrames frames) {t : Token} (ht : t.Sound)
    {p : Partial} (hp : t.apply? frames = some p) : p.Sound := by
  cases t with
  | start tag attributes closed =>
    obtain ⟨e, he, hp⟩ := Option.bind_eq_some_iff.1 hp
    have hopen := sound_of_openElement? he h.scope ht.1 ht.2
    obtain rfl := Option.some.inj hp
    split
    · exact h.place ⟨hopen [], trivial⟩ fun _ => rfl
    · exact ⟨hopen, List.forall_mem_nil _, h⟩
  | finish tag =>
    cases frames with
    | nil => cases hp
    | cons frame outer =>
      simp only [ Token.apply?, Option.ite_none_right_eq_some, Option.some.injEq] at hp
      obtain ⟨-, rfl⟩ := hp
      refine SoundFrames.place h.2.2 ⟨h.1 _, contentEvery_iff.2 fun tree htree => ?_⟩ fun _ => rfl
      exact h.2.1 tree (List.mem_reverse.1 htree)
  | text value =>
    cases frames with
    | nil => cases hp
    | cons frame outer =>
      obtain rfl := Option.some.inj hp
      exact h.place ht (nomatch ·)
  | note =>
    cases frames with
    | nil => cases hp
    | cons frame outer =>
      obtain rfl := Option.some.inj hp
      exact h

theorem sound_of_readElement? {frames : List Frame} (h : SoundFrames frames) {cs rest : List Char}
    {root : Tree} (hroot : readElement? frames cs = some (root, rest)) :
    root.Sound [] ∧ root.isElement := by
  fun_induction readElement? frames cs generalizing rest root with
  | case1 | case2 => cases hroot
  | case3 frames cs t after htoken _ root' happly =>
    obtain ⟨rfl, -⟩ := Prod.mk.inj (Option.some.inj hroot)
    exact h.after (sound_of_token? htoken) happly
  | case4 frames cs t after htoken _ frame outer happly ih =>
    exact ih (h.after (sound_of_token? htoken) happly) hroot

/-- All trees that are read are sound, and they are elements. -/
theorem sound_of_readDocument? {text : String} {root : Tree}
    (h : readDocument? text = some root) : root.Sound [] ∧ root.isElement := by
  simp only [readDocument?, Option.bind_eq_bind, Option.bind_eq_some_iff,
    Option.ite_none_right_eq_some, Option.some.injEq] at h
  obtain ⟨_, -, _, -, ⟨root', _⟩, hroot, _, -, -, rfl⟩ := h
  exact sound_of_readElement? (show SoundFrames [] from trivial) hroot

end ProgramDiagram.Xml
