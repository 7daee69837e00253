import ProgramDiagram.Json.Source
import ProgramDiagram.Json.Value

/-!
# Reading written JSON back

* `Spelling`: how a character is written in a string and what is read there.
* `readString?_written`: what stands between the quotes of a written string is read to its end.
* `read?_compact`: the text of a value has the structure of the value.
* `compact_injective`: so it determines the value.
-/

namespace ProgramDiagram.Json

/-! ## Strings -/

/-- How a character of a written string is read: a control character without a short escape is given
by its code. -/
def partOf (c : Char) : StringPart :=
  if c.toNat < 0x20 ∧ c ∉ ['\x08', '\x0c', '\n', '\r', '\t'] then .unit c.toNat else .char c

/-- The code of a control character has two digits that are read back, and no digit is a quote or a
backslash. -/
theorem controlEscape_digits {c : Char} (h : c.toNat < 0x20) :
    ∃ x y, controlEscape c = ['\\', 'u', '0', '0', x, y] ∧ unit? '0' '0' x y = some c.toNat ∧
      x ∉ ['"', '\\'] ∧ y ∉ ['"', '\\'] := by
  have hall : ∀ n : Fin 0x20, ∃ i j : Fin 16,
      controlEscape (Char.ofNat n) = ['\\', 'u', '0', '0', i.val.digitChar, j.val.digitChar] ∧
      unit? '0' '0' i.val.digitChar j.val.digitChar = some n.val := by decide
  have hmarks : ∀ i : Fin 16, i.val.digitChar ∉ ['"', '\\'] := by decide
  obtain ⟨i, j, hdigits, hunit⟩ := hall ⟨c.toNat, h⟩
  rw [Char.ofNat_toNat] at hdigits
  exact ⟨_, _, hdigits, hunit, hmarks i, hmarks j⟩

/-- The ways to write a character in a string, with what is read there. -/
inductive Spelling (c : Char) : List Char → StringPart → Prop where
  | short {e : Char} (h : shortEscape? e = some c) : Spelling c ['\\', e] (.char c)
  | unit {x y : Char} (h : unit? '0' '0' x y = some c.toNat) (hx : x ∉ ['"', '\\'])
      (hy : y ∉ ['"', '\\']) : Spelling c ['\\', 'u', '0', '0', x, y] (.unit c.toNat)
  | itself (hquote : c ≠ '"') (hslash : c ≠ '\\') (hcontrol : ¬ c.toNat < 0x20) :
      Spelling c [c] (.char c)

theorem spelling_stringChar (c : Char) : Spelling c (stringChar c) (partOf c) := by
  by_cases hshort : c ∈ ['"', '\\', '\x08', '\x0c', '\n', '\r', '\t']
  · simp only [List.mem_cons, List.not_mem_nil, or_false] at hshort
    rcases hshort with rfl | rfl | rfl | rfl | rfl | rfl | rfl <;> exact .short rfl
  · simp only [List.mem_cons, List.not_mem_nil, or_false, not_or] at hshort
    by_cases hcontrol : c.toNat < 0x20
    · obtain ⟨x, y, hdigits, hunit, hx, hy⟩ := controlEscape_digits hcontrol
      have hwritten : stringChar c = controlEscape c := by simp [stringChar, hshort, hcontrol]
      have hpart : partOf c = .unit c.toNat := by simp [partOf, hshort, hcontrol]
      rw [hwritten, hpart, hdigits]
      exact .unit hunit hx hy
    · have hwritten : stringChar c = [c] := by simp [stringChar, hshort, hcontrol]
      have hpart : partOf c = .char c := by simp [partOf, hcontrol]
      rw [hwritten, hpart]
      exact .itself hshort.1 hshort.2.1 hcontrol

theorem readString?_spelling {c : Char} {written : List Char} {part : StringPart}
    (h : Spelling c written part) (cs : List Char) :
    readString? (written ++ cs) =
      (readString? cs).map fun (parts, rest) => (part :: parts, rest) := by
  cases h with
  | @short e he =>
    have hu : e ≠ 'u' := by
      rintro rfl
      cases he
    show readString? ('\\' :: e :: cs) = _
    rw [readString?]
    · cases readString? cs <;> simp [he]
    · exact fun _ _ _ _ _ h => absurd h hu
  | unit hunit => cases hread : readString? cs <;> simp [readString?, hunit, hread]
  | itself hquote hslash hcontrol =>
    show readString? (c :: cs) = _
    rw [readString?]
    · cases readString? cs <;> simp [hslash, hcontrol]
    · exact hquote
    · exact fun _ _ _ _ _ h => absurd h hslash
    · exact fun _ _ h => absurd h hslash

/-- What stands between the quotes of a written string is read to its end. -/
theorem readString?_written (text rest : List Char) :
    readString? (text.flatMap stringChar ++ '"' :: rest) = some (text.map partOf, rest) := by
  induction text with
  | nil => rfl
  | cons c text ih =>
    rw [List.flatMap_cons, List.append_assoc, readString?_spelling (spelling_stringChar c), ih]
    rfl

theorem textOf?_partOf (c : Char) (parts : List StringPart) :
    textOf? (partOf c :: parts) = (textOf? parts).map (c :: ·) := by
  by_cases h : c.toNat < 0x20 ∧ c ∉ ['\x08', '\x0c', '\n', '\r', '\t']
  · -- a code below the surrogates stands alone
    have hlow : ¬ 0xD800 ≤ c.toNat ∧ ¬ 0xDC00 ≤ c.toNat := by omega
    rw [partOf, if_pos h]
    rcases parts with _ | ⟨_ | n, parts⟩
    · simp [textOf?, hlow, Char.ofNat_toNat]
    · simp [textOf?, hlow, Char.ofNat_toNat]
    · simp [textOf?, hlow, Char.ofNat_toNat]
  · rw [partOf, if_neg h, textOf?]

theorem textOf?_written (text : List Char) : textOf? (text.map partOf) = some text := by
  induction text with
  | nil => rfl
  | cons c text ih =>
    rw [List.map_cons, textOf?_partOf, ih]
    rfl

/-! ## Values -/

mutual

/-- The structure of the text of a value. -/
def Value.source : Value → Source
  | .null => .null
  | .bool b => .bool b
  | .string s => .string (s.toList.map partOf)
  | .array items => .array (itemSources items)
  | .object fields => .object (fieldSources fields)

def itemSources : List Value → List Source
  | [] => []
  | item :: rest => item.source :: itemSources rest

def fieldSources : List (String × Value) → List (List StringPart × Source)
  | [] => []
  | (key, value) :: rest => (key.toList.map partOf, value.source) :: fieldSources rest

end

theorem toList_stringText (text : String) :
    (stringText text).toList = '"' :: (text.toList.flatMap stringChar ++ ['"']) := by
  rw [stringText, String.toList_ofList]
  rfl

/-- A written value starts with none of the characters that stand between or behind values. -/
theorem exists_compact_eq (v : Value) :
    ∃ c cs, v.compact.toList = c :: cs ∧ c ∉ [' ', '\t', '\n', '\r', ',', ']', '\x7d'] := by
  cases v with
  | null => exact ⟨'n', _, rfl, by decide⟩
  | bool b => cases b <;> exact ⟨_, _, rfl, by decide⟩
  | string s => exact ⟨'"', _, by rw [Value.compact, toList_stringText], by decide⟩
  | array items =>
    exact ⟨'[', _, by rw [Value.compact, String.toList_append, String.toList_append]; rfl,
      by decide⟩
  | object fields =>
    exact ⟨'\x7b', _, by rw [Value.compact, String.toList_append, String.toList_append]; rfl,
      by decide⟩

theorem skipBlanks_of_first {c : Char} (h : c ∉ [' ', '\t', '\n', '\r', ',', ']', '\x7d'])
    (cs : List Char) : skipBlanks (c :: cs) = c :: cs := by
  simp only [List.mem_cons, not_or] at h
  rw [skipBlanks, List.dropWhile_cons_of_neg]
  simp [h]

section Steps

variable {fuel : Nat} {rest : List Char}

theorem readValue?_string (text : String) :
    readValue? (fuel + 1) ((stringText text).toList ++ rest) =
      some (.string (text.toList.map partOf), rest) := by
  have htext : (stringText text).toList ++ rest =
      '"' :: (text.toList.flatMap stringChar ++ '"' :: rest) := by
    simp [toList_stringText]
  rw [htext, readValue?]
  show (readString? (text.toList.flatMap stringChar ++ '"' :: rest)).map _ = _
  rw [readString?_written]
  rfl

theorem readValue?_array {c : Char} {cs : List Char} (h : skipBlanks (c :: cs) = c :: cs)
    (hc : c ≠ ']') :
    readValue? (fuel + 1) ('[' :: c :: cs) =
      (readItems? fuel (c :: cs)).map fun (items, rest) => (.array items, rest) := by
  have hopen : skipBlanks ('[' :: c :: cs) = '[' :: c :: cs := rfl
  rw [readValue?, hopen]
  simp only [h]
  split <;> simp_all

theorem readValue?_object {c : Char} {cs : List Char} (h : skipBlanks (c :: cs) = c :: cs)
    (hc : c ≠ '\x7d') :
    readValue? (fuel + 1) ('\x7b' :: c :: cs) =
      (readFields? fuel (c :: cs)).map fun (fields, rest) => (.object fields, rest) := by
  have hopen : skipBlanks ('\x7b' :: c :: cs) = '\x7b' :: c :: cs := rfl
  rw [readValue?, hopen]
  simp only [h]
  split <;> simp_all

theorem readItems?_last {cs : List Char} {item : Source}
    (h : readValue? fuel cs = some (item, ']' :: rest)) :
    readItems? (fuel + 1) cs = some ([item], rest) := by
  rw [readItems?, h]
  rfl

theorem readItems?_more {cs next : List Char} {item : Source}
    (h : readValue? fuel cs = some (item, ',' :: next)) :
    readItems? (fuel + 1) cs =
      (readItems? fuel next).map fun (items, rest) => (item :: items, rest) := by
  rw [readItems?, h]
  rfl

theorem readFields?_key (key : String) (cs : List Char) :
    readFields? (fuel + 1) ((stringText key).toList ++ ':' :: cs) =
      (readValue? fuel cs).bind fun (value, cs) =>
        match skipBlanks cs with
        | '\x7d' :: rest => some ([(key.toList.map partOf, value)], rest)
        | ',' :: rest => (readFields? fuel rest).map fun (fields, rest) =>
          ((key.toList.map partOf, value) :: fields, rest)
        | _ => none := by
  have htext : (stringText key).toList ++ ':' :: cs =
      '"' :: (key.toList.flatMap stringChar ++ '"' :: ':' :: cs) := by
    simp [toList_stringText]
  rw [htext, readFields?]
  show ((readString? (key.toList.flatMap stringChar ++ '"' :: ':' :: cs)).bind _) = _
  rw [readString?_written]
  rfl

end Steps

theorem exists_succ {v : Value} {fuel : Nat} (h : 2 * v.compact.toList.length ≤ fuel) :
    ∃ n, fuel = n + 1 := by
  obtain ⟨c, cs, hc, -⟩ := exists_compact_eq v
  rw [hc, List.length_cons] at h
  exact ⟨fuel - 1, by omega⟩

/-! ### The texts in pieces -/

theorem toList_compactItems_more (item next : Value) (items : List Value) :
    (compactItems (item :: next :: items)).toList =
      item.compact.toList ++ ',' :: (compactItems (next :: items)).toList := by
  simp [compactItems]

theorem toList_compactFields_last (key : String) (value : Value) :
    (compactFields [(key, value)]).toList =
      (stringText key).toList ++ ':' :: value.compact.toList := by
  simp [compactFields]

theorem toList_compactFields_more (key : String) (value : Value) (next : String × Value)
    (fields : List (String × Value)) :
    (compactFields ((key, value) :: next :: fields)).toList =
      (stringText key).toList ++
        ':' :: (value.compact.toList ++ ',' :: (compactFields (next :: fields)).toList) := by
  simp [compactFields]

theorem toList_compact_array (items : List Value) :
    (Value.array items).compact.toList = '[' :: ((compactItems items).toList ++ [']']) := by
  simp [Value.compact]

theorem toList_compact_object (fields : List (String × Value)) :
    (Value.object fields).compact.toList =
      '\x7b' :: ((compactFields fields).toList ++ ['\x7d']) := by
  simp [Value.compact]

/-- The text of items starts like that of the first one. -/
theorem exists_compactItems_eq (item : Value) (items : List Value) :
    ∃ c cs, (compactItems (item :: items)).toList = c :: cs ∧
      c ∉ [' ', '\t', '\n', '\r', ',', ']', '\x7d'] := by
  obtain ⟨c, cs, hc, hfirst⟩ := exists_compact_eq item
  cases items with
  | nil => exact ⟨c, cs, hc, hfirst⟩
  | cons next items =>
    rw [toList_compactItems_more, hc, List.cons_append]
    exact ⟨c, _, rfl, hfirst⟩

/-- The text of fields starts with a quote. -/
theorem exists_compactFields_eq (key : String) (value : Value) (fields : List (String × Value)) :
    ∃ cs, (compactFields ((key, value) :: fields)).toList = '"' :: cs := by
  cases fields with
  | nil => exact ⟨_, by rw [toList_compactFields_last, toList_stringText, List.cons_append]⟩
  | cons next fields =>
    exact ⟨_, by rw [toList_compactFields_more, toList_stringText, List.cons_append]⟩

/-! ### Reading the texts -/

mutual

/-- The text of a value is read to its end. Reading takes no more fuel than two for each
character. -/
theorem readValue?_compact : (v : Value) → ∀ fuel rest, 2 * v.compact.toList.length ≤ fuel →
    readValue? fuel (v.compact.toList ++ rest) = some (v.source, rest)
  | .null => by
    intro fuel rest h
    obtain ⟨fuel, rfl⟩ := exists_succ h
    rw [Value.compact, readValue?]
    rfl
  | .bool b => by
    intro fuel rest h
    obtain ⟨fuel, rfl⟩ := exists_succ h
    cases b <;> (rw [Value.compact, readValue?]; rfl)
  | .string s => by
    intro fuel rest h
    obtain ⟨fuel, rfl⟩ := exists_succ h
    exact readValue?_string s
  | .array [] => by
    intro fuel rest h
    obtain ⟨fuel, rfl⟩ := exists_succ h
    rw [Value.compact, readValue?]
    rfl
  | .array (item :: items) => by
    intro fuel rest h
    obtain ⟨fuel, rfl⟩ := exists_succ h
    rw [toList_compact_array] at h ⊢
    obtain ⟨c, cs, hc, hfirst⟩ := exists_compactItems_eq item items
    have hclose : c ≠ ']' := by
      rintro rfl
      exact hfirst (by decide)
    have hread := readItems?_compact (item :: items) (List.cons_ne_nil _ _) fuel rest
      (by simp at h; omega)
    rw [hc, List.cons_append] at hread
    have htext : '[' :: ((compactItems (item :: items)).toList ++ [']']) ++ rest =
        '[' :: c :: (cs ++ ']' :: rest) := by simp [hc]
    rw [htext, readValue?_array (skipBlanks_of_first hfirst _) hclose, hread]
    rfl
  | .object [] => by
    intro fuel rest h
    obtain ⟨fuel, rfl⟩ := exists_succ h
    rw [Value.compact, readValue?]
    rfl
  | .object ((key, value) :: fields) => by
    intro fuel rest h
    obtain ⟨fuel, rfl⟩ := exists_succ h
    rw [toList_compact_object] at h ⊢
    obtain ⟨cs, hc⟩ := exists_compactFields_eq key value fields
    have hread := readFields?_compact ((key, value) :: fields) (List.cons_ne_nil _ _) fuel rest
      (by simp at h; omega)
    rw [hc, List.cons_append] at hread
    have htext : '\x7b' :: ((compactFields ((key, value) :: fields)).toList ++ ['\x7d']) ++ rest =
        '\x7b' :: '"' :: (cs ++ '\x7d' :: rest) := by simp [hc]
    rw [htext, readValue?_object rfl (by decide), hread]
    rfl

theorem readItems?_compact : (items : List Value) → items ≠ [] → ∀ fuel rest,
    2 * (compactItems items).toList.length + 1 ≤ fuel →
    readItems? fuel ((compactItems items).toList ++ ']' :: rest) = some (itemSources items, rest)
  | [] => by
    intro h
    exact absurd rfl h
  | [item] => by
    intro _ fuel rest h
    obtain ⟨fuel, rfl⟩ : ∃ n, fuel = n + 1 := ⟨fuel - 1, by omega⟩
    rw [compactItems] at h ⊢
    exact readItems?_last (readValue?_compact item fuel (']' :: rest) (by omega))
  | item :: next :: items => by
    intro _ fuel rest h
    obtain ⟨fuel, rfl⟩ : ∃ n, fuel = n + 1 := ⟨fuel - 1, by omega⟩
    rw [toList_compactItems_more] at h ⊢
    simp only [List.length_append, List.length_cons] at h
    rw [List.append_assoc, List.cons_append,
      readItems?_more (readValue?_compact item fuel _ (by omega)),
      readItems?_compact (next :: items) (List.cons_ne_nil _ _) fuel rest (by omega)]
    rfl

theorem readFields?_compact : (fields : List (String × Value)) → fields ≠ [] → ∀ fuel rest,
    2 * (compactFields fields).toList.length + 1 ≤ fuel →
    readFields? fuel ((compactFields fields).toList ++ '\x7d' :: rest) =
      some (fieldSources fields, rest)
  | [] => by
    intro h
    exact absurd rfl h
  | [(key, value)] => by
    intro _ fuel rest h
    obtain ⟨fuel, rfl⟩ : ∃ n, fuel = n + 1 := ⟨fuel - 1, by omega⟩
    rw [toList_compactFields_last] at h ⊢
    simp only [List.length_append, List.length_cons] at h
    rw [List.append_assoc, List.cons_append, readFields?_key,
      readValue?_compact value fuel ('\x7d' :: rest) (by omega)]
    rfl
  | (key, value) :: next :: fields => by
    intro _ fuel rest h
    obtain ⟨fuel, rfl⟩ : ∃ n, fuel = n + 1 := ⟨fuel - 1, by omega⟩
    rw [toList_compactFields_more] at h ⊢
    simp only [List.length_append, List.length_cons] at h
    have hread := readFields?_compact (next :: fields) (List.cons_ne_nil _ _) fuel rest (by omega)
    rw [List.append_assoc, List.cons_append, List.append_assoc, List.cons_append, readFields?_key,
      readValue?_compact value fuel _ (by omega)]
    show (readFields? fuel ((compactFields (next :: fields)).toList ++ _)).map _ = _
    rw [hread]
    rfl

end

/-- The text of a value has the structure of the value. -/
theorem read?_compact (v : Value) : Source.read? v.compact = some v.source := by
  have hread := readValue?_compact v (2 * v.compact.length + 2) [] (by simp [String.length])
  rw [List.append_nil] at hread
  rw [Source.read?, hread]
  rfl

/-! ## The value of a structure -/

mutual

/-- No two values have the same structure. -/
theorem Value.source_inj : (v w : Value) → v.source = w.source → v = w
  | .null, w => by
    intro h
    cases w <;> first | rfl | cases h
  | .bool b, w => by
    intro h
    cases w <;> cases h
    rfl
  | .string s, w => by
    intro h
    cases w with
    | string t =>
      simp only [Value.source, Source.string.injEq] at h
      have htext := congrArg textOf? h
      simp only [textOf?_written, Option.some.injEq] at htext
      rw [String.toList_inj.mp htext]
    | _ => cases h
  | .array items, w => by
    intro h
    cases w with
    | array items' =>
      simp only [Value.source, Source.array.injEq] at h
      rw [itemSources_inj items items' h]
    | _ => cases h
  | .object fields, w => by
    intro h
    cases w with
    | object fields' =>
      simp only [Value.source, Source.object.injEq] at h
      rw [fieldSources_inj fields fields' h]
    | _ => cases h

theorem itemSources_inj : (vs ws : List Value) → itemSources vs = itemSources ws → vs = ws
  | [], [] => fun _ => rfl
  | [], _ :: _ => fun h => nomatch h
  | _ :: _, [] => fun h => nomatch h
  | v :: vs, w :: ws => by
    intro h
    simp only [itemSources, List.cons.injEq] at h
    rw [v.source_inj w h.1, itemSources_inj vs ws h.2]

theorem fieldSources_inj : (fs gs : List (String × Value)) →
    fieldSources fs = fieldSources gs → fs = gs
  | [], [] => fun _ => rfl
  | [], _ :: _ => fun h => nomatch h
  | _ :: _, [] => fun h => nomatch h
  | (key, v) :: fs, (key', w) :: gs => by
    intro h
    simp only [fieldSources, List.cons.injEq, Prod.mk.injEq] at h
    obtain ⟨⟨hkey, hvalue⟩, hrest⟩ := h
    have htext := congrArg textOf? hkey
    simp only [textOf?_written, Option.some.injEq] at htext
    rw [String.toList_inj.mp htext, v.source_inj w hvalue, fieldSources_inj fs gs hrest]

end

/-- A value is determined by its text. -/
theorem compact_injective : Function.Injective Value.compact := by
  intro v w h
  have hsource := congrArg Source.read? h
  rw [read?_compact, read?_compact, Option.some.injEq] at hsource
  exact v.source_inj w hsource

end ProgramDiagram.Json
