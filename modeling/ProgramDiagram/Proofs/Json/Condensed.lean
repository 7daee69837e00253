import ProgramDiagram.Proofs.Json.ReadBack
import ProgramDiagram.Text.Blank

/-!
# JSON texts without layout

* `condense`: a text without the blanks that stand outside its strings.
* `condense_indented`: an indented value condenses to the compact one.
* `indented_injective`: so the indented text determines the value too.
-/

namespace ProgramDiagram.Json

mutual

/-- A text without the blanks outside its strings. -/
def condense : List Char → List Char
  | [] => []
  | '"' :: rest => '"' :: condenseString rest
  | c :: rest => if isBlank c then condense rest else c :: condense rest

/-- The same for a text that starts inside a string. A backslash takes the next character with
it. -/
def condenseString : List Char → List Char
  | [] => []
  | '"' :: rest => '"' :: condense rest
  | '\\' :: c :: rest => '\\' :: c :: condenseString rest
  | c :: rest => c :: condenseString rest

end

/-! ## Pieces of a text -/

theorem condense_blank {c : Char} (h : isBlank c) (rest : List Char) :
    condense (c :: rest) = condense rest := by
  rw [condense, if_pos h]
  rintro rfl
  exact absurd h (by decide)

theorem condense_mark {c : Char} (hquote : c ≠ '"') (h : isBlank c = false) (rest : List Char) :
    condense (c :: rest) = c :: condense rest := by
  rw [condense, if_neg (by simp [h])]
  exact hquote

theorem condense_blanks {blanks : List Char} (h : ∀ c ∈ blanks, isBlank c) (rest : List Char) :
    condense (blanks ++ rest) = condense rest := by
  induction blanks with
  | nil => rfl
  | cons c blanks ih =>
    simp only [List.forall_mem_cons] at h
    rw [List.cons_append, condense_blank h.1, ih h.2]

theorem condense_lineStart (depth : Nat) (rest : List Char) :
    condense ((lineStart depth).toList ++ rest) = condense rest := by
  apply condense_blanks
  intro c hc
  simp only [lineStart, String.toList_append, String.toList_ofList, List.mem_append,
    List.mem_replicate] at hc
  rcases hc with hfeed | ⟨-, rfl⟩
  · have hc : c = '\n' := List.mem_singleton.mp hfeed
    rw [hc]
    decide
  · decide

/-- A written character keeps the reader inside the string. -/
theorem condenseString_spelling {c : Char} {written : List Char} {part : StringPart}
    (h : Spelling c written part) (rest : List Char) :
    condenseString (written ++ rest) = written ++ condenseString rest := by
  cases h with
  | short => rfl
  | unit _ hx hy => simp_all [condenseString]
  | itself hquote hslash =>
    rw [List.singleton_append, List.singleton_append, condenseString]
    · exact hquote
    · exact fun _ _ h => absurd h hslash

theorem condense_stringText (text : String) (rest : List Char) :
    condense ((stringText text).toList ++ rest) = (stringText text).toList ++ condense rest := by
  have hinside : ∀ cs : List Char, condenseString (cs.flatMap stringChar ++ '"' :: rest) =
      cs.flatMap stringChar ++ '"' :: condense rest := by
    intro cs
    induction cs with
    | nil => rfl
    | cons c cs ih =>
      rw [List.flatMap_cons, List.append_assoc, condenseString_spelling (spelling_stringChar c), ih,
        List.append_assoc]
  rw [toList_stringText, List.cons_append, List.append_assoc, List.singleton_append, condense,
    hinside]
  simp

/-! ## Values -/

mutual

/-- Condensing an indented value gives the compact one and goes on behind it. -/
theorem condense_indented_append : (rest : List Char) → (depth : Nat) → (v : Value) →
    condense ((v.indented depth).toList ++ rest) = v.compact.toList ++ condense rest
  | rest, _, .null => by
    rw [Value.indented, Value.compact]
    rfl
  | rest, _, .bool b => by
    rw [Value.indented, Value.compact]
    cases b <;> rfl
  | rest, _, .string s => condense_stringText s rest
  | rest, _, .array [] => by
    rw [Value.indented, Value.compact]
    rfl
  | rest, depth, .array (item :: items) => by
    have hitems := condense_indentedItems ((lineStart depth).toList ++ ']' :: rest) (depth + 1)
      (item :: items)
    rw [condense_lineStart] at hitems
    have htext : ((Value.array (item :: items)).indented depth).toList ++ rest =
        '[' :: ((indentedItems (depth + 1) (item :: items)).toList ++
          ((lineStart depth).toList ++ ']' :: rest)) := by
      simp [Value.indented]
    rw [htext, condense_mark (by decide) (by decide), hitems,
      condense_mark (by decide) (by decide), toList_compact_array]
    simp
  | rest, _, .object [] => by
    rw [Value.indented, Value.compact]
    exact (condense_mark (by decide) (by decide) _).trans
      (congrArg _ (condense_mark (by decide) (by decide) rest))
  | rest, depth, .object (field :: fields) => by
    have hfields := condense_indentedFields ((lineStart depth).toList ++ '\x7d' :: rest) (depth + 1)
      (field :: fields)
    rw [condense_lineStart] at hfields
    have htext : ((Value.object (field :: fields)).indented depth).toList ++ rest =
        '\x7b' :: ((indentedFields (depth + 1) (field :: fields)).toList ++
          ((lineStart depth).toList ++ '\x7d' :: rest)) := by
      simp [Value.indented]
    rw [htext, condense_mark (by decide) (by decide), hfields,
      condense_mark (by decide) (by decide), toList_compact_object]
    simp

theorem condense_indentedItems : (rest : List Char) → (depth : Nat) → (items : List Value) →
    condense ((indentedItems depth items).toList ++ rest) =
      (compactItems items).toList ++ condense rest
  | _, _, [] => rfl
  | rest, depth, [item] => by
    rw [indentedItems, String.toList_append, List.append_assoc, condense_lineStart,
      condense_indented_append rest depth item, compactItems]
  | rest, depth, item :: next :: items => by
    have htext : (indentedItems depth (item :: next :: items)).toList ++ rest =
        (lineStart depth).toList ++ ((item.indented depth).toList ++
          ',' :: ((indentedItems depth (next :: items)).toList ++ rest)) := by
      simp [indentedItems]
    rw [htext, condense_lineStart, condense_indented_append _ depth item,
      condense_mark (by decide) (by decide), condense_indentedItems rest depth (next :: items),
      toList_compactItems_more]
    simp

theorem condense_indentedFields : (rest : List Char) → (depth : Nat) →
    (fields : List (String × Value)) →
    condense ((indentedFields depth fields).toList ++ rest) =
      (compactFields fields).toList ++ condense rest
  | _, _, [] => rfl
  | rest, depth, [(key, value)] => by
    have htext : (indentedFields depth [(key, value)]).toList ++ rest =
        (lineStart depth).toList ++ ((stringText key).toList ++
          ':' :: ' ' :: ((value.indented depth).toList ++ rest)) := by
      simp [indentedFields]
    rw [htext, condense_lineStart, condense_stringText, condense_mark (by decide) (by decide),
      condense_blank (by decide), condense_indented_append rest depth value,
      toList_compactFields_last]
    simp
  | rest, depth, (key, value) :: next :: fields => by
    have htext : (indentedFields depth ((key, value) :: next :: fields)).toList ++ rest =
        (lineStart depth).toList ++ ((stringText key).toList ++
          ':' :: ' ' :: ((value.indented depth).toList ++
            ',' :: ((indentedFields depth (next :: fields)).toList ++ rest))) := by
      simp [indentedFields]
    rw [htext, condense_lineStart, condense_stringText, condense_mark (by decide) (by decide),
      condense_blank (by decide), condense_indented_append _ depth value,
      condense_mark (by decide) (by decide), condense_indentedFields rest depth (next :: fields),
      toList_compactFields_more]
    simp

end

/-- An indented value without the blanks outside its strings is the compact one. -/
theorem condense_indented (depth : Nat) (v : Value) :
    condense (v.indented depth).toList = v.compact.toList := by
  have hv := condense_indented_append [] depth v
  rwa [List.append_nil, condense, List.append_nil] at hv

/-- A value is determined by its indented text. -/
theorem indented_injective (depth : Nat) : Function.Injective (Value.indented depth) := by
  intro v w h
  have hcondensed := congrArg (condense ∘ String.toList) h
  simp only [Function.comp_apply, condense_indented] at hcondensed
  exact compact_injective (String.toList_inj.mp hcondensed)

end ProgramDiagram.Json
