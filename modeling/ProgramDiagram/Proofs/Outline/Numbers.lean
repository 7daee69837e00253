import ProgramDiagram.Proofs.Outline.Errors

/-!
# The line numbers of offers

An offer shows the first line of a refused statement, but its number is that of the last line read
for the statement.

* `Offer.Spans`: which lines these are.
* `Told`: what holds of the offers made so far; `Told.refused` keeps it when one more is made.
* `placesOffers_iff`: the numbers always rise, and they are those of the lines shown unless a
  refused statement goes on in further lines.
-/

namespace ProgramDiagram.Outline

variable {recovery : Recovery} {source : String}

/-- Errors for where a statement stands: its depth, or a block before it that a terminal would have
to hold. They are found before the further lines of the statement are read. -/
def Error.ForPlace (e : Error) : Prop :=
  e = .illegalIndentation ∨ e = .inconsistent (.cannotHold .terminal)

/-- The statement of an offer begins on the line `first` and goes on in the lines `more`, as far as
it is read, and the offer has the number of the last of them. -/
def Offer.Spans (offer : Offer) (source : String) (first : Nat)
    (more : List (List Char × Nat)) : Prop :=
  ∃ before after,
    numberedLines source = before ++ (offer.line.toList, first) :: (more ++ after) ∧
    (offer.error.ForPlace ∧ more = [] ∧ offer.number = first ∨
      ¬ offer.error.ForPlace ∧
        (continuation offer.line.toList ((more ++ after).map Prod.fst)).1 = more.map Prod.fst ∧
        offer.number = lastNumber (lines source).length (offer.line.toList, first) more)

/-- Every offer has the number of the line that it shows, and the numbers rise. -/
def Report.PlacesOffers (r : Report) (source : String) : Prop :=
  (∀ offer ∈ r.offers, (lines source)[offer.number]? = some offer.line.toList) ∧
    r.offers.Pairwise (·.number < ·.number)

/-! ## Numbered lines -/

theorem getElem?_of_mem_numberedLines {l : List Char × Nat} (h : l ∈ numberedLines source) :
    (lines source)[l.2]? = some l.1 :=
  List.mk_mem_zipIdx_iff_getElem?.1 (List.mem_filter.1 h).1

theorem lt_length_of_mem_numberedLines {l : List Char × Nat} (h : l ∈ numberedLines source) :
    l.2 < (lines source).length :=
  (List.getElem?_eq_some_iff.1 (getElem?_of_mem_numberedLines h)).1

theorem numberedLines_rise (source : String) :
    (numberedLines source).Pairwise (·.2 < ·.2) := by
  refine List.Pairwise.filter _ (List.pairwise_map.1 ?_)
  rw [List.zipIdx_map_snd]
  exact List.pairwise_lt_range' 1

/-- The last line read for a statement is the one that does not go on, or else the last line of the
source, after which none is left. -/
theorem lastNumber_cases {count : Nat} {l : List Char × Nat} {more after : List (List Char × Nat)}
    (h : (continuation l.1 ((more ++ after).map Prod.fst)).1 = more.map Prod.fst) :
    (∃ x ∈ l :: more, continues x.1 = false ∧ lastNumber count l more = x.2) ∨
      after = [] ∧ lastNumber count l more = count - 1 := by
  induction more generalizing l with
  | nil =>
    by_cases hl : continues l.1
    · cases after with
      | nil => exact .inr ⟨rfl, by simp [lastNumber, hl]⟩
      | cons next after => simp [continuation, hl] at h
    · exact .inl ⟨l, List.mem_cons_self, by simpa using hl, by simp [lastNumber, hl]⟩
  | cons next more ih =>
    by_cases hl : continues l.1
    · have hnext : (continuation next.1 ((more ++ after).map Prod.fst)).1 = more.map Prod.fst := by
        simpa [continuation, hl] using h
      rcases ih hnext with ⟨x, hx, hends, hlast⟩ | hlast
      · exact .inl ⟨x, List.mem_cons_of_mem _ hx, hends, hlast⟩
      · exact .inr hlast
    · rw [continuation_of_not_continues (by simpa using hl)] at h
      simp at h

/-- The number of the last line read lies between the first line of the statement and the lines that
are left. -/
theorem TurnReads.between {bs : Blocks} {l : List Char × Nat} {more after : List (List Char × Nat)}
    {last : Nat} (h : TurnReads bs (lines source).length l (more ++ after) more last)
    (hrest : l :: (more ++ after) <:+ numberedLines source) :
    l.2 ≤ last ∧ ∀ next ∈ after, last < next.2 := by
  have hrise := (numberedLines_rise source).sublist hrest.sublist
  obtain ⟨hfirst, hmore⟩ := List.pairwise_cons.1 hrise
  obtain ⟨_, _, happart⟩ := List.pairwise_append.1 hmore
  cases h with
  | first => exact ⟨Nat.le_refl _, fun next hnext => hfirst next (by simpa using hnext)⟩
  | all _ hlines =>
    rcases lastNumber_cases hlines with
      ⟨x, hx, _, hlast⟩ | ⟨rfl, hlast⟩
    · rw [hlast]
      rcases List.mem_cons.1 hx with rfl | hx
      · exact ⟨Nat.le_refl _, fun next hnext => hfirst next (List.mem_append_right _ hnext)⟩
      · exact ⟨Nat.le_of_lt (hfirst x (List.mem_append_left _ hx)), happart x hx⟩
    · have hcount := lt_length_of_mem_numberedLines (hrest.subset List.mem_cons_self)
      exact ⟨by omega, by simp⟩

/-! ## Offers one after the other -/

/-- The offers made so far, newest first, and the lines that are left: every offer spans lines of
the source, and the numbers rise from one to the next and to the lines left. -/
structure Told (source : String) (offers : List Offer) (ls : List (List Char × Nat)) : Prop where
  left : ls <:+ numberedLines source
  spans : ∀ offer ∈ offers, ∃ first more, offer.Spans source first more
  rise : offers.Pairwise fun later earlier => earlier.number < later.number
  passed : ∀ offer ∈ offers, ∀ l ∈ ls, offer.number < l.2

theorem Told.after {offers : List Offer} {l : List Char × Nat}
    {more after : List (List Char × Nat)} (h : Told source offers (l :: (more ++ after))) :
    Told source offers after where
  left := ((List.suffix_append more after).trans (List.suffix_cons l _)).trans h.left
  spans := h.spans
  rise := h.rise
  passed offer hoffer next hnext :=
    h.passed offer hoffer next (List.mem_cons_of_mem _ (List.mem_append_right _ hnext))

/-- An offer is made for the place of a statement exactly if the statement is not read on. -/
theorem Refuses.forPlace_iff {p : Progress Blocks} {l : List Char × Nat}
    {more after : List (List Char × Nat)} {offer : Offer} {failure : Failure Blocks} {count : Nat}
    (hreached : Reached recovery source p ((l :: (more ++ after)).map Prod.fst))
    (h : Refuses count p l more after offer failure) :
    offer.error.ForPlace ↔ ∃ failure, p.blocks.moveTo (indentation l.1) = .error failure := by
  have hturn := congrArg Prod.fst h.turned
  rw [h.tells.2]
  unfold turn at hturn
  cases hmove : p.blocks.moveTo (indentation l.1) with
  | error _ =>
    rw [hmove] at hturn
    cases hturn
    refine ⟨fun _ => ⟨_, rfl⟩, fun _ => ?_⟩
    rcases Blocks.moveTo_error hmove with rfl | hclose
    · exact .inl rfl
    · exact .inr (hreached.closeTo_error hclose)
  | ok opened =>
    rw [hmove] at hturn
    obtain ⟨hindent, hcause⟩ := (Blocks.accept_error hturn).2.ne_moveTo_error
    constructor
    · rintro (herror | herror)
      · exact absurd herror hindent
      · exact absurd herror (hcause _)
    · rintro ⟨_, h⟩
      cases h

theorem Told.refused {p : Progress Blocks} {l : List Char × Nat}
    {more after : List (List Char × Nat)} {offer : Offer} {failure : Failure Blocks}
    (hreached : Reached recovery source p ((l :: (more ++ after)).map Prod.fst))
    (h : Told source p.offers (l :: (more ++ after)))
    (hrefuses : Refuses (lines source).length p l more after offer failure) :
    Told source (offer :: p.offers) after := by
  obtain ⟨hfirst, hlast⟩ := hrefuses.reads.between h.left
  have hplace := hrefuses.forPlace_iff hreached
  have hline : offer.line.toList = l.1 := by rw [hrefuses.tells.1, String.toList_ofList]
  refine ⟨h.after.left, fun o ho => ?spans, List.pairwise_cons.2 ⟨fun earlier hearlier => ?rise,
    h.rise⟩, fun o ho next hnext => ?passed⟩
  case spans =>
    rcases List.mem_cons.1 ho with rfl | ho
    · obtain ⟨before, hbefore⟩ := h.left
      refine ⟨l.2, more, before, after, by rw [hline, ← hbefore], ?_⟩
      rw [hline]
      have hreads := hrefuses.reads
      generalize o.number = last at hreads ⊢
      cases hreads with
      | first hmove => exact .inl ⟨hplace.2 ⟨_, hmove⟩, rfl, rfl⟩
      | all hmove hmore =>
        refine .inr ⟨fun herror => ?_, hmore, rfl⟩
        obtain ⟨_, hrefused⟩ := hplace.1 herror
        rw [hmove] at hrefused
        cases hrefused
    · exact h.spans o ho
  case rise => exact Nat.lt_of_lt_of_le (h.passed earlier hearlier l List.mem_cons_self) hfirst
  case passed =>
    rcases List.mem_cons.1 ho with rfl | ho
    · exact hlast next hnext
    · exact h.after.passed o ho next hnext

theorem told_read (recovery : Recovery) (source : String) :
    ∃ ls, Told source (read recovery source).offers.reverse ls := by
  have hstart : Reached recovery source .start ((numberedLines source).map Prod.fst) ∧
      Told source (Progress.start : Progress Blocks).offers (numberedLines source) :=
    ⟨map_fst_numberedLines source ▸ .start, List.suffix_refl _, by simp [Progress.start],
      .nil, by simp [Progress.start]⟩
  rw [read_eq_reportOf]
  rcases remaining_invariant (lines source).length
      (I := fun p ls => Reached recovery source p (ls.map Prod.fst) ∧ Told source p.offers ls)
      (fun h hturn => ⟨.placed h.1 hturn, h.2.after⟩)
      (fun h hrefuses hskip =>
        ⟨.skipped h.1 hrefuses.turned hrefuses.tells hskip, h.2.refused h.1 hrefuses⟩)
      (numberedLines source) (fun l => isCommentLine_of_mem_numberedLines) rfl hstart with
    ⟨q, ⟨_, htold⟩, hend⟩ | ⟨q, l, more, after, offer, failure, ⟨hreached, htold⟩, hrefuses,
      ⟨_, hend⟩ | ⟨_, _, hend⟩⟩
  · exact ⟨[], by simpa [hend, reportOf] using htold⟩
  · exact ⟨after, by simpa [hend, reportOf] using htold.refused hreached hrefuses⟩
  · exact ⟨after, by simpa [hend, reportOf] using htold.refused hreached hrefuses⟩

/-! ## Which offers have the number of their line -/

theorem Offer.Spans.getElem?_eq_iff {offer : Offer} {first : Nat}
    {more : List (List Char × Nat)} (h : offer.Spans source first more) :
    (lines source)[offer.number]? = some offer.line.toList ↔
      offer.error.ForPlace ∨ continues offer.line.toList = false ∨
        offer.number + 1 = (lines source).length ∧
          (lines source).getLast? = some offer.line.toList := by
  obtain ⟨before, after, hlines, ⟨hplace, rfl, hnumber⟩ | ⟨hplace, hmore, hnumber⟩⟩ := h
  · have hfirst : (offer.line.toList, first) ∈ numberedLines source := by simp [hlines]
    rw [hnumber]
    exact ⟨fun _ => .inl hplace, fun _ => getElem?_of_mem_numberedLines hfirst⟩
  · have hmem {l : List Char × Nat} (hl : l ∈ (offer.line.toList, first) :: more) :
        l ∈ numberedLines source := by
      rw [hlines, ← List.cons_append]
      exact List.mem_append_right _ (List.mem_append_left _ hl)
    constructor
    · intro hline
      refine .inr (or_iff_not_imp_left.2 fun hcontinues => ?_)
      rcases lastNumber_cases (l := (offer.line.toList, first)) hmore with
        ⟨x, hx, hends, hlast⟩ | ⟨_, hlast⟩
      · -- the last line of the statement does not go on, so it is not the line shown
        rw [hnumber, hlast, getElem?_of_mem_numberedLines (hmem hx), Option.some.injEq] at hline
        rw [hline] at hends
        exact absurd hends hcontinues
      · have hcount := lt_length_of_mem_numberedLines (hmem List.mem_cons_self)
        rw [hlast] at hnumber
        refine ⟨by omega, ?_⟩
        rw [List.getLast?_eq_getElem?, ← hnumber, hline]
    · rintro (herror | hends | ⟨hlast, hline⟩)
      · exact absurd herror hplace
      · rw [continuation_of_not_continues hends] at hmore
        obtain rfl : more = [] := List.map_eq_nil_iff.1 hmore.symm
        rw [hnumber]
        simp only [lastNumber, hends, Bool.false_eq_true, ↓reduceIte]
        exact getElem?_of_mem_numberedLines (hmem List.mem_cons_self)
      · rw [List.getLast?_eq_getElem?, ← hlast, Nat.add_sub_cancel] at hline
        exact hline

/-- Whatever a recovery decides, the numbers of its offers rise, and each is that of the last line
read for the statement. So an offer has the number of the line that it shows if and only if the
statement is refused for where it stands, or goes on in no other line, or the source ends in it with
a line of the same text. -/
theorem placesOffers_iff (recovery : Recovery) (source : String) :
    (read recovery source).offers.Pairwise (·.number < ·.number) ∧
    (∀ offer ∈ (read recovery source).offers, ∃ first more, offer.Spans source first more) ∧
    ((read recovery source).PlacesOffers source ↔
      ∀ offer ∈ (read recovery source).offers,
        offer.error.ForPlace ∨ continues offer.line.toList = false ∨
          offer.number + 1 = (lines source).length ∧
            (lines source).getLast? = some offer.line.toList) := by
  obtain ⟨_, htold⟩ := told_read recovery source
  have hrise : (read recovery source).offers.Pairwise (·.number < ·.number) :=
    List.pairwise_reverse.1 htold.rise
  have hspans : ∀ offer ∈ (read recovery source).offers, ∃ first more,
      offer.Spans source first more :=
    fun offer hoffer => htold.spans offer (List.mem_reverse.2 hoffer)
  refine ⟨hrise, hspans, fun h offer hoffer => ?_, fun h => ⟨fun offer hoffer => ?_, hrise⟩⟩
  · obtain ⟨_, _, hspan⟩ := hspans offer hoffer
    exact hspan.getElem?_eq_iff.1 (h.1 offer hoffer)
  · obtain ⟨_, _, hspan⟩ := hspans offer hoffer
    exact hspan.getElem?_eq_iff.2 (h offer hoffer)

/-- A case without a switch that goes on in a second line is offered with the number of that
line. -/
theorem not_placesOffers_continued :
    let report := read (fun _ _ => .skip) "a\n:case b@\nc"
    report.offers.map Offer.line = [":case b@"] ∧ report.offers.map Offer.number = [2] ∧
      ¬ report.PlacesOffers "a\n:case b@\nc" := by
  have hoffers : (read (fun _ _ => .skip) "a\n:case b@\nc").offers =
      [⟨":case b@", 2, .misplacedCase⟩] := rfl
  refine ⟨by rw [hoffers]; rfl, by rw [hoffers]; rfl, fun h => ?_⟩
  have hline := h.1 _ (hoffers ▸ List.mem_singleton_self _)
  revert hline
  decide

end ProgramDiagram.Outline
