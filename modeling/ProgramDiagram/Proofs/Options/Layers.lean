import ProgramDiagram.Options.Reader
import ProgramDiagram.Proofs.Json.ReadBack

/-!
# Stacked option layers

* `Setting`: the options one by one, with what a layer gives for each.
* `get_merged_stack`: the last layer that gives a setting decides it.
* `Grouping.layer_eq`: layers may be put together in any grouping.
* `get?_of_read?`: what the JSON text of a layer gives for a setting.
-/

namespace ProgramDiagram

/-- What can be set for a drawing. -/
inductive Setting where
  | fontSize
  | fontFamily
  | margin
  | boxPadding
  | branchPadding
  | strokeWidth
  | strokeColor
  | backgroundColor
  | baseBackgroundColor
  | textColor
  | lineHeight
  | doubleLineWidth
  | caseNotchWidth
  | nodeListSpacing
  | childOffsetWidth
  | listLayout
deriving DecidableEq

namespace Setting

/-- The values of a setting. -/
def Value (α : Type) : Setting → Type
  | fontSize | strokeWidth | lineHeight | doubleLineWidth | caseNotchWidth | nodeListSpacing
  | childOffsetWidth => α
  | fontFamily | strokeColor | textColor => String
  | margin | boxPadding | branchPadding => Spacing α
  | backgroundColor | baseBackgroundColor => Option String
  | listLayout => ListLayout

end Setting

variable {α : Type}

/-- The value of a setting. -/
def Options.get (o : Options α) : (s : Setting) → s.Value α
  | .fontSize => o.fontSize
  | .fontFamily => o.fontFamily
  | .margin => o.margin
  | .boxPadding => o.boxPadding
  | .branchPadding => o.branchPadding
  | .strokeWidth => o.strokeWidth
  | .strokeColor => o.strokeColor
  | .backgroundColor => o.backgroundColor
  | .baseBackgroundColor => o.baseBackgroundColor
  | .textColor => o.textColor
  | .lineHeight => o.lineHeight
  | .doubleLineWidth => o.doubleLineWidth
  | .caseNotchWidth => o.caseNotchWidth
  | .nodeListSpacing => o.nodeListSpacing
  | .childOffsetWidth => o.childOffsetWidth
  | .listLayout => o.listLayout

/-- The value that a layer gives for a setting. -/
def Layer.get? (l : Layer α) : (s : Setting) → Option (s.Value α)
  | .fontSize => l.fontSize
  | .fontFamily => l.fontFamily
  | .margin => l.margin
  | .boxPadding => l.boxPadding
  | .branchPadding => l.branchPadding
  | .strokeWidth => l.strokeWidth
  | .strokeColor => l.strokeColor
  | .backgroundColor => l.backgroundColor
  | .baseBackgroundColor => l.baseBackgroundColor
  | .textColor => l.textColor
  | .lineHeight => l.lineHeight
  | .doubleLineWidth => l.doubleLineWidth
  | .caseNotchWidth => l.caseNotchWidth
  | .nodeListSpacing => l.nodeListSpacing
  | .childOffsetWidth => l.childOffsetWidth
  | .listLayout => l.listLayout

/-! ## Setting by setting -/

theorem Options.ext_get {a b : Options α} (h : ∀ s, a.get s = b.get s) : a = b := by
  obtain ⟨_, _, _, _, _, _, _, _, _, _, _, _, _, _, _, _⟩ := a
  obtain ⟨_, _, _, _, _, _, _, _, _, _, _, _, _, _, _, _⟩ := b
  rw [Options.mk.injEq]
  exact ⟨h .fontSize, h .fontFamily, h .margin, h .boxPadding, h .branchPadding, h .strokeWidth,
    h .strokeColor, h .backgroundColor, h .baseBackgroundColor, h .textColor, h .lineHeight,
    h .doubleLineWidth, h .caseNotchWidth, h .nodeListSpacing, h .childOffsetWidth, h .listLayout⟩

theorem Layer.ext_get? {a b : Layer α} (h : ∀ s, a.get? s = b.get? s) : a = b := by
  obtain ⟨_, _, _, _, _, _, _, _, _, _, _, _, _, _, _, _⟩ := a
  obtain ⟨_, _, _, _, _, _, _, _, _, _, _, _, _, _, _, _⟩ := b
  rw [Layer.mk.injEq]
  exact ⟨h .fontSize, h .fontFamily, h .margin, h .boxPadding, h .branchPadding, h .strokeWidth,
    h .strokeColor, h .backgroundColor, h .baseBackgroundColor, h .textColor, h .lineHeight,
    h .doubleLineWidth, h .caseNotchWidth, h .nodeListSpacing, h .childOffsetWidth, h .listLayout⟩

@[simp] theorem Options.get_merged (base : Options α) (l : Layer α) (s : Setting) :
    (base.merged l).get s = (l.get? s).getD (base.get s) := by
  cases s <;> rfl

@[simp] theorem Layer.get?_onto (upper lower : Layer α) (s : Setting) :
    (upper.onto lower).get? s = (upper.get? s).or (lower.get? s) := by
  cases s <;> rfl

@[simp] theorem Layer.get?_empty (s : Setting) : (Layer.empty : Layer α).get? s = none := by
  cases s <;> rfl

/-! ## Stacks -/

theorem Options.merged_onto (base : Options α) (upper lower : Layer α) :
    base.merged (upper.onto lower) = (base.merged lower).merged upper :=
  ext_get fun s => by simp [Option.getD_or]

namespace Layer

theorem get?_foldl_onto (layers : List (Layer α)) (lowest : Layer α) (s : Setting) :
    (layers.foldl (fun below above => above.onto below) lowest).get? s =
      (layers.filterMap (·.get? s)).getLast?.or (lowest.get? s) := by
  induction layers generalizing lowest with
  | nil => rfl
  | cons l layers ih =>
    rw [List.foldl_cons, ih, get?_onto, List.filterMap_cons]
    cases l.get? s with
    | none => rfl
    | some v =>
      cases hlast : (layers.filterMap (·.get? s)).getLast? <;> simp [List.getLast?_cons, hlast]

/-- A stack gives a setting the value of the last layer that gives it one. -/
theorem get?_stack (layers : List (Layer α)) (s : Setting) :
    (stack layers).get? s = (layers.filterMap (·.get? s)).getLast? := by
  rw [stack, get?_foldl_onto, get?_empty, Option.or_none]

theorem stack_append (lower upper : List (Layer α)) :
    stack (lower ++ upper) = (stack upper).onto (stack lower) :=
  ext_get? fun s => by
    rw [get?_onto, get?_stack, get?_stack, get?_stack, List.filterMap_append, List.getLast?_append]

end Layer

namespace Options

theorem get_foldl_merged (base : Options α) (layers : List (Layer α)) (s : Setting) :
    (layers.foldl Options.merged base).get s =
      (layers.filterMap (·.get? s)).getLast?.getD (base.get s) := by
  induction layers generalizing base with
  | nil => rfl
  | cons l layers ih =>
    rw [List.foldl_cons, ih, get_merged, List.filterMap_cons]
    cases l.get? s with
    | none => rfl
    | some v => simp [List.getLast?_cons]

/-- The last layer that gives a setting decides it. -/
theorem get_merged_stack (base : Options α) (layers : List (Layer α)) (s : Setting) :
    (base.merged (.stack layers)).get s =
      (layers.filterMap (·.get? s)).getLast?.getD (base.get s) := by
  rw [get_merged, Layer.get?_stack]

/-- Options change layer by layer as they do by the whole stack. -/
theorem merged_stack (base : Options α) (layers : List (Layer α)) :
    base.merged (.stack layers) = layers.foldl Options.merged base :=
  ext_get fun s => (get_merged_stack base layers s).trans (get_foldl_merged base layers s).symm

end Options

/-- A way to put layers together, two at a time. -/
inductive Grouping (α : Type) where
  | one (l : Layer α)
  | two (below above : Grouping α)

namespace Grouping

/-- The layers, the lowest first. -/
def layers : Grouping α → List (Layer α)
  | one l => [l]
  | two below above => below.layers ++ above.layers

/-- What they make as one. -/
def layer : Grouping α → Layer α
  | one l => l
  | two below above => above.layer.onto below.layer

theorem layer_eq (g : Grouping α) : g.layer = .stack g.layers := by
  induction g with
  | one l => exact Layer.ext_get? fun s => by simp [layer, layers, Layer.stack]
  | two below above hbelow habove => rw [layer, layers, Layer.stack_append, hbelow, habove]

end Grouping

/-! ## Layers in JSON -/

namespace Json

/-- What a record has for one of its known fields: in an object the value of that name, in an array
the item of that place. -/
def Source.given? (known : List String) (key : String) : Source → Option Source
  | .object fields => (named? fields).bind (·.lookup key)
  | .array items => items[known.idxOf key]?
  | _ => none

theorem record?_eq {known : List String} (hknown : known.Nodup) {others : Bool} {source : Source}
    {values : List (Option Source)} (h : source.record? known others = some values) :
    values = known.map (source.given? known) := by
  cases source with
  | object fields =>
    simp only [Source.record?, Option.bind_eq_bind, Option.bind_eq_some_iff] at h
    obtain ⟨named, hnamed, h⟩ := h
    split at h
    · cases h
    · split at h
      · cases h
      · cases h
        simp [Source.given?, hnamed]
  | array items =>
    simp only [Source.record?] at h
    split at h
    · cases h
    · cases h
      refine List.ext_getElem (by simp; omega) fun i hi hi' => ?_
      have hlt : i < known.length := by simpa using hi'
      simp only [List.getElem_append, List.getElem_map, List.getElem_replicate, List.length_map,
        Source.given?, hknown.idxOf_getElem i hlt]
      split <;> simp [*]
  | null | bool | number | string => cases h

end Json

open Json (Source)

namespace Setting

def name : Setting → String
  | fontSize => "fontSize"
  | fontFamily => "fontFamily"
  | margin => "margin"
  | boxPadding => "boxPadding"
  | branchPadding => "branchPadding"
  | strokeWidth => "strokeWidth"
  | strokeColor => "strokeColor"
  | backgroundColor => "backgroundColor"
  | baseBackgroundColor => "baseBackgroundColor"
  | textColor => "textColor"
  | lineHeight => "lineHeight"
  | doubleLineWidth => "doubleLineWidth"
  | caseNotchWidth => "caseNotchWidth"
  | nodeListSpacing => "nodeListSpacing"
  | childOffsetWidth => "childOffsetWidth"
  | listLayout => "listLayout"

/-- The settings that null gives a value, which is none. -/
def isBackground (s : Setting) : Bool := s = backgroundColor || s = baseBackgroundColor

/-- The value that JSON spells. -/
def read? : (s : Setting) → Source → Option (s.Value Binary64)
  | fontSize | strokeWidth | lineHeight | doubleLineWidth | caseNotchWidth | nodeListSpacing
  | childOffsetWidth => Source.number?
  | fontFamily | strokeColor | textColor => Source.text?
  | margin | boxPadding | branchPadding => Spacing.read?
  | backgroundColor | baseBackgroundColor => nullableText?
  | listLayout => ListLayout.read?

end Setting

namespace Layer

theorem get?_of_ofFields? {given? : String → Option Source} {l : Layer Binary64}
    (h : ofFields? true (optionNames.map given?) = some l) (s : Setting) :
    optional? (!s.isBackground) s.read? (given? s.name) = some (l.get? s) := by
  simp only [optionNames, List.map_cons, List.map_nil] at h
  dsimp only [ofFields?, Option.bind_eq_bind] at h
  -- each bind is opened before what follows it
  simp only [↓Option.bind_eq_some_iff, Option.some.injEq] at h
  obtain ⟨_, fontSize, _, fontFamily, _, margin, _, boxPadding, _, branchPadding, _, strokeWidth, _,
    strokeColor, _, background, _, baseBackground, _, textColor, _, lineHeight, _, doubleLine, _,
    caseNotch, _, listSpacing, _, childOffset, _, listLayout, rfl⟩ := h
  cases s <;> assumption

theorem get?_of_read? {text : String} {l : Layer Binary64} (h : read? text = some l) :
    ∃ source, Source.read? text = some source ∧ ∀ s : Setting,
      optional? (!s.isBackground) s.read? (source.given? optionNames s.name) = some (l.get? s) := by
  simp only [read?, Option.bind_eq_bind, Option.bind_eq_some_iff] at h
  obtain ⟨source, hsource, values, hvalues, hfields⟩ := h
  rw [Json.record?_eq (by decide) hvalues] at hfields
  exact ⟨source, hsource, get?_of_ofFields? hfields⟩

end Layer

theorem optional?_eq_none_iff {β : Type} {nullable : Bool} {read? : Source → Option β}
    {given? : Option Source} {value? : Option β}
    (h : optional? nullable read? given? = some value?) :
    value? = none ↔ given? = none ∨ nullable ∧ given? = some .null := by
  cases given? with
  | none => cases h; simp
  | some source =>
    by_cases hnull : nullable ∧ source = .null
    · obtain ⟨rfl, rfl⟩ := hnull
      cases h
      simp
    · have hread : (read? source).map some = some value? := by
        cases source <;> simp_all [optional?]
      obtain ⟨v, _, rfl⟩ := Option.map_eq_some_iff.1 hread
      simpa using hnull

/-- A background colour that is given as none is null in JSON. -/
theorem optional?_eq_some_none_iff {given? : Option Source} {color? : Option (Option String)}
    (h : optional? false nullableText? given? = some color?) :
    color? = some none ↔ given? = some .null := by
  cases given? with
  | none => cases h; simp
  | some source =>
    cases source with
    | null => cases h; simp
    | string | bool | number | array | object =>
      simp only [optional?, nullableText?, Option.map_map, Option.map_eq_some_iff] at h
      obtain ⟨text, _, rfl⟩ := h
      simp

/-- Options change layer by layer as they do by all layers put together, in whatever grouping, and
the last layer that gives a setting decides it. A layer in JSON gives what it has a value for, and
null counts only for the background colours, of which it makes none. -/
theorem settings_resolve :
    (∀ {α : Type} (base : Options α) (layers : List (Layer α)),
      base.merged (.stack layers) = layers.foldl Options.merged base ∧
      ∀ s : Setting, (base.merged (.stack layers)).get s =
        (layers.filterMap (·.get? s)).getLast?.getD (base.get s)) ∧
    (∀ {α : Type} (g : Grouping α), g.layer = .stack g.layers) ∧
    ∀ (text : String) (l : Layer Binary64), Layer.read? text = some l →
      ∃ source, Source.read? text = some source ∧
        (∀ s : Setting, l.get? s = none ↔ source.given? optionNames s.name = none ∨
          s.isBackground = false ∧ source.given? optionNames s.name = some .null) ∧
        (l.backgroundColor = some none ↔
          source.given? optionNames "backgroundColor" = some .null) ∧
        (l.baseBackgroundColor = some none ↔
          source.given? optionNames "baseBackgroundColor" = some .null) := by
  refine ⟨fun base layers => ⟨base.merged_stack layers, base.get_merged_stack layers⟩,
    Grouping.layer_eq, fun text l h => ?_⟩
  obtain ⟨source, hsource, hgiven⟩ := Layer.get?_of_read? h
  refine ⟨source, hsource, fun s => ?_, optional?_eq_some_none_iff (hgiven .backgroundColor),
    optional?_eq_some_none_iff (hgiven .baseBackgroundColor)⟩
  rw [optional?_eq_none_iff (hgiven s), Bool.not_eq_true']

/-- A second layer in JSON clears the background colour of the first and keeps its text colour. -/
theorem settings_resolve_cleared :
    let text := "\x7b\"backgroundColor\":null\x7d"
    let colored : Layer Binary64 :=
      { Layer.empty with backgroundColor := some (some "red"), textColor := some "red" }
    let cleared : Layer Binary64 := { Layer.empty with backgroundColor := some none }
    Layer.read? text = some cleared ∧
      (Options.standard.merged (.stack [colored, cleared])).backgroundColor = none ∧
      (Options.standard.merged (.stack [colored, cleared])).textColor = "red" ∧
      ∃ source, Source.read? text = some source ∧
        source.given? optionNames "backgroundColor" = some .null ∧
        source.given? optionNames "baseBackgroundColor" = none := by
  intro text colored cleared
  have hsource : Source.read? text =
      some (.object [("backgroundColor".toList.map .char, .null)]) :=
    Json.read?_compact (.object [("backgroundColor", .null)])
  have hread : Layer.read? text = some cleared := by
    rw [Layer.read?, hsource]
    rfl
  obtain ⟨hstack, _, hjson⟩ := settings_resolve
  obtain ⟨source, hsame, habsent, hnull, _⟩ := hjson text cleared hread
  refine ⟨hread, (hstack _ _).2 .backgroundColor, (hstack _ _).2 .textColor, source, hsame,
    hnull.1 rfl, ?_⟩
  exact ((habsent .baseBackgroundColor).1 rfl).resolve_right fun h => Bool.noConfusion h.1

end ProgramDiagram
