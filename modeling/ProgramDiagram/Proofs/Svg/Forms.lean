import ProgramDiagram.Proofs.Svg.Documents
import ProgramDiagram.Proofs.Xml.Settled

/-!
# Two forms of a drawing

* `settled_drawnTree`: what is read of a drawing stays as it is;
* `layOut?_draw`: each of the two layouts of a drawing can be made of the other;
* `indentedSource_of_compactSource`: so it is for the drawings of outlines.
-/

namespace ProgramDiagram.Svg

open Xml

/-- The namespace of drawings is declared once, by the document itself. -/
theorem settled_svgSpace : Scope.Settled [(none, svgSpace)] where
  again := by decide
  declared := by decide
  default := by
    intro space h
    obtain rfl : svgSpace = space := Option.some.inj h
    decide

theorem settled_drawnTree (s : Sheet Binary64) (tree : Node) : (drawnTree s tree).Settled [] := by
  let f := tree.layout s
  let content :=
    canvasContent s.options (s.canvas f).1 (s.canvas f).2 (shapesMarkup s.options f.shapes)
  have helements : PlainElements content :=
    plain_canvasContent _ _ _ (plain_shapes s.options f.shapes)
  have houter : Scope.again [] [] [(none, svgSpace)] = [(none, svgSpace)] := by decide
  refine ⟨settled_plainElement houter settled_svgSpace "svg" _
    (textAlone_contentTrees _ (.inr fun m hm => (helements m hm).2)), ?_⟩
  exact settled_contentTrees settled_svgSpace content
    (plainContent_iff.2 fun m hm => (helements m hm).1)

/-- What has been laid out in one way can be laid out in either way, as the drawing itself is. -/
theorem layOut?_draw {first? second? : String → Option String}
    (hfirst : first? ∈ [minify?, prettyPrint?]) (hsecond : second? ∈ [minify?, prettyPrint?])
    (s : Sheet Binary64) (tree? : Option Node) {out : String}
    (h : first? (draw s tree?) = some out) :
    second? out = second? (draw s tree?) ∧ (second? (draw s tree?)).isSome := by
  cases tree? with
  | none =>
    obtain rfl : "" = out := Option.some.inj ((layOut?_empty hfirst).symm.trans h)
    exact ⟨rfl, by rw [draw, layOut?_empty hsecond]; rfl⟩
  | some tree =>
    have hread : readDocument? (draw s (some tree)) = some (drawnTree s tree) := by
      have hsome : readDocument? (draw s (some tree)) ≠ none := fun hnone => by
        rw [(layOut?_eq_none_iff hfirst (allBlank_draw s tree)).2 hnone] at h
        cases h
      rw [readDocument?_draw] at hsome ⊢
      split at hsome
      · rw [if_pos ‹_›]
      · exact absurd rfl hsome
    obtain ⟨text, htext, hagain⟩ :=
      layOut?_settled hread (settled_drawnTree s tree) hfirst hsecond
    obtain rfl : text = out := Option.some.inj (htext.symm.trans h)
    have hsome : second? (draw s (some tree)) ≠ none := fun hnone => by
      rw [(layOut?_eq_none_iff hsecond (allBlank_draw s tree)).1 hnone] at hread
      cases hread
    exact ⟨hagain, Option.isSome_iff_ne_none.2 hsome⟩

/-! ## Drawings of outlines -/

theorem drawSourceBy_eq_ok_iff {layOut? : String → Option String} {o : Options Binary64}
    {source out : String} :
    drawSourceBy layOut? o source = .ok out ↔ ∃ parsed,
      Outline.parse source = .ok parsed ∧ layOut? (draw ⟨o, cellMeasurer⟩ parsed) = some out := by
  rw [drawSourceBy, drawSource]
  cases Outline.parse source with
  | error e => simp [Except.map]
  | ok parsed =>
    cases hlayOut : layOut? (draw ⟨o, cellMeasurer⟩ parsed) <;> simp [Except.map, hlayOut]

/-- The drawing of an outline with allowed characters has a compact form, which is not empty. -/
theorem exists_compactSource {o : Options Binary64} {source : String} {tree : Node}
    (hparse : Outline.parse source = .ok (some tree))
    (hallowed : (drawnStrings o tree).all isAllowed) :
    ∃ out, compactSource o source = .ok out ∧ out ≠ "" := by
  let s : Sheet Binary64 := ⟨o, cellMeasurer⟩
  have hwritten : (compact [] (drawnTree s tree)).render ≠ "" := by
    have helement : (drawnTree s tree).isElement := rfl
    obtain ⟨rest, hrest⟩ := exists_render_eq (isText_laidOut helement [] none)
    rw [compact_eq]
    intro hempty
    rw [hempty] at hrest
    cases hrest
  have hminify : minify? (draw s (some tree)) = some (compact [] (drawnTree s tree)).render := by
    rw [minify?, allBlank_draw, readDocument?_draw, if_pos hallowed]
    rfl
  exact ⟨_, drawSourceBy_eq_ok_iff.2 ⟨some tree, hparse, hminify⟩, hwritten⟩

/-- An outline that has a compact drawing has an indented one. They are the same document: each is
what the other one is if it is laid out that way, and stays as it is if it is laid out once more. -/
theorem indentedSource_of_compactSource {o : Options Binary64} {source m : String}
    (h : compactSource o source = .ok m) :
    ∃ p, indentedSource o source = .ok p ∧ minify? p = some m ∧ minify? m = some m ∧
      prettyPrint? m = some p ∧ prettyPrint? p = some p := by
  obtain ⟨parsed, hparse, hcompact⟩ := drawSourceBy_eq_ok_iff.1 h
  have hminify : minify? ∈ [minify?, prettyPrint?] := List.mem_cons_self
  have hpretty : prettyPrint? ∈ [minify?, prettyPrint?] := List.mem_cons_of_mem _ List.mem_cons_self
  obtain ⟨hsame, -⟩ := layOut?_draw hminify hminify _ _ hcompact
  obtain ⟨hother, hsome⟩ := layOut?_draw hminify hpretty _ _ hcompact
  obtain ⟨p, hp⟩ := Option.isSome_iff_exists.1 hsome
  obtain ⟨hback, -⟩ := layOut?_draw hpretty hminify _ _ hp
  obtain ⟨hagain, -⟩ := layOut?_draw hpretty hpretty _ _ hp
  exact ⟨p, drawSourceBy_eq_ok_iff.2 ⟨parsed, hparse, hp⟩, hback.trans hcompact,
    hsame.trans hcompact, hother.trans hp, hagain.trans hp⟩

theorem indentedSource_of_compactSource_escaped :
    ∃ m, compactSource Options.standard "a & <b>" = .ok m ∧
      ∃ p, indentedSource Options.standard "a & <b>" = .ok p ∧ minify? p = some m ∧
        minify? m = some m ∧ prettyPrint? m = some p ∧ prettyPrint? p = some p := by
  have hparse : Outline.parse "a & <b>" = .ok (some (.list [.process "a & <b>" none])) := rfl
  obtain ⟨m, hcompact, -⟩ := exists_compactSource (o := .standard) hparse (by decide)
  exact ⟨m, hcompact, indentedSource_of_compactSource hcompact⟩

end ProgramDiagram.Svg
