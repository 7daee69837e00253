import Mathlib.Data.List.Nodup
import Mathlib.Data.List.TakeWhile
import ProgramDiagram.Proofs.Xml.Tags
import ProgramDiagram.Xml.Tree

/-!
# Names and scopes

* `nameOf?_local`, `nameOf?_qualified`: the names without and with a qualifier;
* `lookup_enter`: what a prefix stands for inside an element;
* `separate?_declarations`, `separate?_kept`: declarations are told apart from other attributes;
* `attributeNames?_map`: attributes are refused for two equal names only, if all prefixes are known.
-/

namespace ProgramDiagram.Xml

/-! ## Parts of names -/

/-- Whether a word can stand before or after the colon of a name. -/
def isPart (word : String) : Bool :=
  startsName word.toList && word.toList.all fun c => isNameChar c && c != ':'

theorem isPart_iff {word : String} :
    isPart word ↔ startsName word.toList ∧ word.toList.all isNameChar ∧ ':' ∉ word.toList := by
  have hall : (word.toList.all fun c => isNameChar c && c != ':') ↔
      word.toList.all isNameChar ∧ ':' ∉ word.toList := by
    simp only [List.all_eq_true, Bool.and_eq_true, bne_iff_ne]
    exact ⟨fun h => ⟨fun c hc => (h c hc).1, fun hcolon => (h ':' hcolon).2 rfl⟩,
      fun h c hc => ⟨h.1 c hc, fun heq => h.2 (heq ▸ hc)⟩⟩
  rw [isPart, Bool.and_eq_true, hall]

theorem ne_empty_of_isPart {word : String} (h : isPart word) : word ≠ "" := by
  rintro rfl
  cases h

theorem span_colon {word : List Char} (h : ':' ∉ word) (rest : List Char) :
    (word ++ ':' :: rest).takeWhile (· ≠ ':') = word ∧
      (word ++ ':' :: rest).dropWhile (· ≠ ':') = ':' :: rest := by
  have hword := ne_of_not_mem h
  exact ⟨takeWhile_append_stop hword (by decide) rest, dropWhile_append_stop hword (by decide) rest⟩

theorem nameOf?_local {word : String} (h : isPart word) : nameOf? word = some ⟨"", word⟩ := by
  obtain ⟨hstart, hall, hcolon⟩ := isPart_iff.1 h
  have hword := ne_of_not_mem hcolon
  have htake : word.toList.takeWhile (· ≠ ':') = word.toList := List.takeWhile_eq_self_iff.2 hword
  have hdrop : word.toList.dropWhile (· ≠ ':') = [] := List.dropWhile_eq_nil_iff.2 hword
  rw [nameOf?, if_pos hall, QName.ofRun?, hdrop, htake]
  simp [hstart]

theorem nameOf?_qualified {key word : String} (hkey : isPart key) (h : isPart word) :
    nameOf? (key ++ ":" ++ word) = some ⟨key, word⟩ := by
  obtain ⟨hkeyStart, hkeyAll, hkeyColon⟩ := isPart_iff.1 hkey
  obtain ⟨hstart, hall, hcolon⟩ := isPart_iff.1 h
  obtain ⟨htake, hdrop⟩ := span_colon hkeyColon word.toList
  have hlist : (key ++ ":" ++ word).toList = key.toList ++ ':' :: word.toList := by
    simp [String.toList_append]
  have hnames : (key.toList ++ ':' :: word.toList).all isNameChar := by
    rw [List.all_append, List.all_cons, hkeyAll, hall]
    decide
  rw [nameOf?, hlist, if_pos hnames, QName.ofRun?, htake, hdrop]
  simp [hkeyStart, hstart, hcolon]

/-! ## Scopes -/

theorem lookup_append (as bs : Scope) (key : Option String) :
    (as ++ bs).lookup key = (as.lookup key).or (bs.lookup key) :=
  List.lookup_append

theorem lookup_eq_none_iff {scope : Scope} {key : Option String} :
    scope.lookup key = none ↔ ∀ d ∈ scope, d.1 ≠ key := by
  rw [Scope.lookup, List.lookup_eq_none_iff]
  simp only [bne_iff_ne, ne_comm]

theorem any_key_iff {scope : Scope} {key : Option String} :
    scope.any (·.1 = key) ↔ scope.lookup key ≠ none := by
  rw [ne_eq, lookup_eq_none_iff, List.any_eq_true]
  push Not
  simp only [decide_eq_true_eq]

/-- A declaration that is added unless its prefix is declared already. -/
theorem lookup_addNew (scope : Scope) (d : Option String × String) (key : Option String) :
    (if scope.any (·.1 = d.1) then scope else scope ++ [d]).lookup key
      = (scope.lookup key).or (Scope.lookup [d] key) := by
  by_cases hknown : scope.any (·.1 = d.1)
  · rw [if_pos hknown]
    by_cases hkey : key = d.1
    · obtain ⟨space, hspace⟩ := Option.ne_none_iff_exists'.1 (any_key_iff.1 hknown)
      rw [hkey, hspace, Option.some_or]
    · have hother : Scope.lookup [d] key = none :=
        lookup_eq_none_iff.2 (List.forall_mem_singleton.2 (Ne.symm hkey))
      rw [hother, Option.or_none]
  · rw [if_neg hknown, lookup_append]

/-- Inside an element its own declarations come before those around it. -/
theorem lookup_enter (declared outer : Scope) (key : Option String) :
    (Scope.enter declared outer).lookup key = (declared.lookup key).or (outer.lookup key) := by
  have hfold : (outer.foldl (fun scope d => if scope.any (·.1 = d.1) then scope else scope ++ [d])
      declared).lookup key = (declared.lookup key).or (outer.lookup key) := by
    induction outer generalizing declared with
    | nil => simp [Scope.lookup]
    | cons d outer ih =>
      rw [List.foldl_cons, ih, lookup_addNew, Option.or_assoc, ← lookup_append]
      rfl
  rw [Scope.enter]
  split
  · rename_i hempty
    rw [List.isEmpty_iff.1 hempty]
    rfl
  · exact hfold

/-! ## Declarations and other attributes -/

/-- Whether an attribute is no declaration. -/
def IsKept (name : QName) : Prop := name.qualifier ≠ "xmlns" ∧ name.localPart ≠ "xmlns"

theorem separate?_kept {attributes : List (QName × String)}
    (h : ∀ a ∈ attributes, IsKept a.1) (declared : Scope) (kept rest : List (QName × String)) :
    separate? declared kept (attributes ++ rest)
      = separate? declared (attributes.reverse ++ kept) rest := by
  induction attributes generalizing kept with
  | nil => rfl
  | cons a attributes ih =>
    obtain ⟨name, value⟩ := a
    obtain ⟨⟨hqualifier, hlocal⟩, hrest⟩ := List.forall_mem_cons.1 h
    rw [List.cons_append, separate?, if_neg hqualifier, if_neg hlocal, ih hrest,
      List.reverse_cons, List.append_assoc, List.singleton_append]

theorem separate?_of_kept {attributes : List (QName × String)} (h : ∀ a ∈ attributes, IsKept a.1)
    (declared : Scope) : separate? declared [] attributes = some (declared, attributes) := by
  have hkept := separate?_kept h declared [] []
  rw [List.append_nil, List.append_nil] at hkept
  rw [hkept, separate?, List.reverse_reverse]

/-- A declaration as an attribute. -/
def declarationName (key : Option String) : QName :=
  match key with
  | some key => ⟨"xmlns", key⟩
  | none => ⟨"", "xmlns"⟩

/-- Declarations that may be made: no prefix is declared twice or fixed. -/
structure Declarable (declarations : Scope) : Prop where
  nodup : (declarations.map Prod.fst).Nodup
  notFixed : ∀ d ∈ declarations, d.1 ≠ some "xml"
  free : ∀ d ∈ declarations, d.2 ≠ xmlSpace ∧ d.2 ≠ xmlnsSpace

theorem separate?_declarations {declarations : Scope} (declared : Scope)
    (h : Declarable (declared ++ declarations)) (others : List (QName × String)) :
    separate? declared [] (declarations.map (fun d => (declarationName d.1, d.2)) ++ others)
      = separate? (declared ++ declarations) [] others := by
  induction declarations generalizing declared with
  | nil => simp
  | cons d declarations ih =>
    have hmem : d ∈ declared ++ d :: declarations := by simp
    obtain ⟨key, space⟩ := d
    obtain ⟨hxml, hxmlns⟩ := h.free _ hmem
    have hmove : declared ++ (key, space) :: declarations
        = (declared ++ [(key, space)]) ++ declarations := by simp
    rw [hmove] at h
    rw [List.map_cons, List.cons_append, hmove, ← ih _ h]
    cases key with
    | some key =>
      have hfixed : key ≠ "xml" := fun heq => h.notFixed _ (hmove ▸ hmem) (congrArg some heq)
      have hnew : declared.any (·.1 = some key) = false := by
        rw [← Bool.not_eq_true]
        intro hany
        obtain ⟨d, hd, hdk⟩ := List.any_eq_true.1 hany
        have hnodup := h.nodup
        rw [List.map_append, List.map_append, List.append_assoc] at hnodup
        exact (List.nodup_append.1 hnodup).2.2 _ (List.mem_map_of_mem hd) _ (by simp)
          (of_decide_eq_true hdk)
      have hdeclare :
          declarePrefix? declared key space = some (declared ++ [(some key, space)]) := by
        rw [declarePrefix?, hnew]
        simp [show space ≠ xmlSpace from hxml, show space ≠ xmlnsSpace from hxmlns, hfixed]
      rw [declarationName, separate?, if_pos rfl, hdeclare]
      rfl
    | none => simp [declarationName, separate?, declareDefault?, hxml, hxmlns]

/-- Attributes are refused for two equal names only, if their prefixes are known. -/
theorem attributeNames?_map {ι : Type} {scope : Scope} {xs : List ι} {written : ι → QName}
    {value : ι → String} {name : ι → Name}
    (h : ∀ x ∈ xs, attributeName? scope (written x) = some (name x)) :
    attributeNames? scope (xs.map fun x => (written x, value x)) =
      if (xs.map name).Nodup then some (xs.map fun x => (name x, value x)) else none := by
  induction xs with
  | nil => simp [attributeNames?]
  | cons x xs ih =>
    obtain ⟨hname, hrest⟩ := List.forall_mem_cons.1 h
    simp only [List.map_cons, attributeNames?, hname, ih hrest, Option.bind_eq_bind,
      Option.bind_some, List.nodup_cons]
    by_cases hnodup : (xs.map name).Nodup
    · have hany :
          (xs.map fun x => (name x, value x)).any (·.1 = name x) ↔ name x ∈ xs.map name := by
        simp [List.any_eq_true]
      by_cases hknown : name x ∈ xs.map name
      · rw [if_pos hnodup, Option.bind_some, if_pos (hany.2 hknown), if_neg fun h => h.1 hknown]
      · rw [if_pos hnodup, Option.bind_some, if_neg (mt hany.1 hknown), if_pos ⟨hknown, hnodup⟩]
    · rw [if_neg hnodup, if_neg fun h => hnodup h.2]
      rfl

end ProgramDiagram.Xml
