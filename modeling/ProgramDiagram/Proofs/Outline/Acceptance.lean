import ProgramDiagram.Proofs.Outline.Numbers

/-!
# The statements that a reading accepts

The offers of a report tell which statements were refused. All others were accepted.

* `Report.accepted`: the accepted statements, found from the offers and the lines of the source.
* `accepted_invariant`: a reading places the accepted statements one after the other and is left
  by each refused one with the blocks of the failed attempt.
-/

namespace ProgramDiagram.Outline

variable {recovery : Recovery} {source : String} {count : Nat} {offers : List Offer}

instance (e : Error) : Decidable e.ForPlace :=
  inferInstanceAs (Decidable (e = .illegalIndentation ∨ e = .inconsistent (.cannotHold .terminal)))

/-- The statements of numbered lines that are not offered, after `k` lines that are not read as
first lines. A statement that is offered for its place is not read on, so that the lines after its
first are read as others. -/
def acceptedOn (count : Nat) (offers : List Offer) : (k : Nat) → List (List Char × Nat) → List Entry
  | _, [] => []
  | k + 1, _ :: ls => acceptedOn count offers k ls
  | 0, l :: ls =>
    let more := ls.take (continuation l.1 (ls.map Prod.fst)).1.length
    if ∃ o ∈ offers, o.error.ForPlace ∧ o.number = l.2 then acceptedOn count offers 0 ls
    else if ∃ o ∈ offers, ¬ o.error.ForPlace ∧ o.number = lastNumber count l more then
      acceptedOn count offers more.length ls
    else Passage.entry ⟨l.1, more.map Prod.fst⟩ :: acceptedOn count offers more.length ls

/-- The statements of a source that a report does not offer. -/
def Report.accepted (r : Report) (source : String) : List Entry :=
  acceptedOn (lines source).length r.offers 0 (numberedLines source)

/-! ## Statements that are offered or not -/

theorem acceptedOn_append (more after : List (List Char × Nat)) :
    acceptedOn count offers more.length (more ++ after) = acceptedOn count offers 0 after := by
  induction more with
  | nil => rfl
  | cons l more ih =>
    rw [List.length_cons, List.cons_append, acceptedOn]
    exact ih

section
variable {l : List Char × Nat} {more after : List (List Char × Nat)}

theorem acceptedOn_of_forPlace {o : Offer} (ho : o ∈ offers) (hplace : o.error.ForPlace)
    (hnumber : o.number = l.2) (ls : List (List Char × Nat)) :
    acceptedOn count offers 0 (l :: ls) = acceptedOn count offers 0 ls := by
  rw [acceptedOn, if_pos ⟨o, ho, hplace, hnumber⟩]

theorem take_continuation
    (hmore : (continuation l.1 ((more ++ after).map Prod.fst)).1 = more.map Prod.fst) :
    (more ++ after).take (continuation l.1 ((more ++ after).map Prod.fst)).1.length = more := by
  rw [hmore, List.length_map, List.take_left]

theorem acceptedOn_of_offered
    (hmore : (continuation l.1 ((more ++ after).map Prod.fst)).1 = more.map Prod.fst) {o : Offer}
    (ho : o ∈ offers) (hplace : ¬ o.error.ForPlace) (hnumber : o.number = lastNumber count l more)
    (hapart : ∀ o ∈ offers, o.error.ForPlace → o.number ≠ l.2) :
    acceptedOn count offers 0 (l :: (more ++ after)) = acceptedOn count offers 0 after := by
  have hnot : ¬ ∃ o ∈ offers, o.error.ForPlace ∧ o.number = l.2 :=
    fun ⟨o, ho, hplace, hnumber⟩ => hapart o ho hplace hnumber
  rw [acceptedOn, take_continuation hmore, if_neg hnot, if_pos ⟨o, ho, hplace, hnumber⟩,
    acceptedOn_append]

theorem acceptedOn_of_not_offered
    (hmore : (continuation l.1 ((more ++ after).map Prod.fst)).1 = more.map Prod.fst)
    (hapart : ∀ o ∈ offers, o.number ≠ l.2 ∧ o.number ≠ lastNumber count l more) :
    acceptedOn count offers 0 (l :: (more ++ after)) =
      Passage.entry ⟨l.1, more.map Prod.fst⟩ :: acceptedOn count offers 0 after := by
  have hfirst : ¬ ∃ o ∈ offers, o.error.ForPlace ∧ o.number = l.2 :=
    fun ⟨o, ho, _, hnumber⟩ => (hapart o ho).1 hnumber
  have hlast : ¬ ∃ o ∈ offers, ¬ o.error.ForPlace ∧ o.number = lastNumber count l more :=
    fun ⟨o, ho, _, hnumber⟩ => (hapart o ho).2 hnumber
  rw [acceptedOn, take_continuation hmore, if_neg hfirst, if_neg hlast, acceptedOn_append]

end

/-! ## A reading places what it accepts -/

/-- A statement that is placed has been read with all its lines. -/
theorem turn_ok (count : Nat) {bs blocks : Blocks} {l : List Char × Nat}
    {more after : List (List Char × Nat)}
    (h : turn bs l.1 ((more ++ after).map Prod.fst) = (.ok blocks, after.map Prod.fst)) :
    bs.place (Passage.entry ⟨l.1, more.map Prod.fst⟩).item = .ok blocks ∧
      (continuation l.1 ((more ++ after).map Prod.fst)).1 = more.map Prod.fst ∧
      TurnReads bs count l (more ++ after) more (lastNumber count l more) := by
  have hplace := congrArg Prod.fst h
  have hafter := turn_snd_of_ok hplace
  rw [h] at hafter
  have hmore : (continuation l.1 ((more ++ after).map Prod.fst)).1 = more.map Prod.fst := by
    have hsplit := append_continuation l.1 ((more ++ after).map Prod.fst)
    rw [← hafter, List.map_append] at hsplit
    simpa using List.append_cancel_right hsplit
  rw [turn_fst, hmore] at hplace
  obtain ⟨c, outer, _, hmove, _⟩ := Blocks.place_ok hplace
  exact ⟨hplace, hmore, .all hmove hmore⟩

/-- The entries `es` are accepted in the lines before `ls`, whatever is offered in the lines
`ls`. -/
def Accepts (source : String) (offers : List Offer) (ls : List (List Char × Nat))
    (es : List Entry) : Prop :=
  ∀ later : List Offer, (∀ o ∈ later, ∃ l ∈ ls, l.2 ≤ o.number) →
    acceptedOn (lines source).length (offers.reverse ++ later) 0 (numberedLines source) =
      es ++ acceptedOn (lines source).length (offers.reverse ++ later) 0 ls

section
variable {p : Progress Blocks} {l : List Char × Nat} {more after : List (List Char × Nat)}
  {es : List Entry}

/-- No offer but the one for it has a number between the first and the last line of a statement. -/
theorem Told.apart {last : Nat} (htold : Told source offers (l :: (more ++ after)))
    (hlast : ∀ next ∈ after, last < next.2) {later : List Offer}
    (hlater : ∀ o ∈ later, ∃ l ∈ after, l.2 ≤ o.number) :
    ∀ o ∈ offers.reverse ++ later, o.number < l.2 ∨ last < o.number := by
  intro o ho
  rcases List.mem_append.1 ho with ho | ho
  · exact .inl (htold.passed o (List.mem_reverse.1 ho) l List.mem_cons_self)
  · obtain ⟨next, hnext, hle⟩ := hlater o ho
    exact .inr (Nat.lt_of_lt_of_le (hlast next hnext) hle)

theorem Accepts.placed {blocks : Blocks} (h : Accepts source p.offers (l :: (more ++ after)) es)
    (htold : Told source p.offers (l :: (more ++ after)))
    (hturn : turn p.blocks l.1 ((more ++ after).map Prod.fst) = (.ok blocks, after.map Prod.fst)) :
    Accepts source p.offers after (es ++ [Passage.entry ⟨l.1, more.map Prod.fst⟩]) := by
  obtain ⟨_, hmore, hreads⟩ := turn_ok (lines source).length hturn
  obtain ⟨hfirst, hlast⟩ := hreads.between htold.left
  intro later hlater
  have hapart := htold.apart hlast hlater
  rw [h later fun o ho => ?_, acceptedOn_of_not_offered hmore fun o ho => ?_, List.append_assoc]
  · rfl
  · have := hapart o ho
    omega
  · obtain ⟨next, hnext, hle⟩ := hlater o ho
    exact ⟨next, by simp [hnext], hle⟩

theorem Accepts.refused {offer : Offer} {failure : Failure Blocks}
    (hreached : Reached recovery source p ((l :: (more ++ after)).map Prod.fst))
    (h : Accepts source p.offers (l :: (more ++ after)) es)
    (htold : Told source p.offers (l :: (more ++ after)))
    (hrefuses : Refuses (lines source).length p l more after offer failure) :
    Accepts source (offer :: p.offers) after es := by
  obtain ⟨hfirst, hlast⟩ := hrefuses.reads.between htold.left
  have hplace := hrefuses.forPlace_iff hreached
  intro later hlater
  have hlater' : ∀ o ∈ offer :: later, ∃ next ∈ l :: (more ++ after), next.2 ≤ o.number := by
    refine List.forall_mem_cons.2 ⟨⟨l, List.mem_cons_self, hfirst⟩, fun o ho => ?_⟩
    obtain ⟨next, hnext, hle⟩ := hlater o ho
    exact ⟨next, by simp [hnext], hle⟩
  have hmem : offer ∈ p.offers.reverse ++ offer :: later := by simp
  rw [List.reverse_cons, List.append_assoc, List.singleton_append, h _ hlater']
  congr 1
  have hapart := htold.apart hlast hlater
  have hreads := hrefuses.reads
  generalize hnumber : offer.number = last at hreads hfirst hapart
  cases hreads with
  | first hmove => exact acceptedOn_of_forPlace hmem (hplace.2 ⟨_, hmove⟩) hnumber _
  | all hmove hmore =>
    have hnot : ¬ offer.error.ForPlace := by
      rw [hplace, hmove]
      rintro ⟨_, h⟩
      cases h
    refine acceptedOn_of_offered hmore hmem hnot hnumber fun o ho hfor => ?_
    rcases List.mem_append.1 ho with ho | ho
    · have := hapart o (List.mem_append_left _ ho)
      omega
    · rcases List.mem_cons.1 ho with rfl | ho
      · exact absurd hfor hnot
      · have := hapart o (List.mem_append_right _ ho)
        omega

end

/-- What the blocks have before the first statement, and keep when a statement is placed or an
attempt fails, they have in the end of the statements that the reading accepts. -/
theorem accepted_invariant {I : Blocks → List (Nat × Statement) → Prop} (start : I .start [])
    (placed : ∀ {p rest items item bs}, Reached recovery source p rest → I p.blocks items →
      p.blocks.place item = .ok bs → I bs (items ++ [item]))
    (refused : ∀ {p rest items item failure}, Reached recovery source p rest → I p.blocks items →
      p.blocks.place item = .error failure → I failure.blocks items)
    {tree : Option Node} (h : (read recovery source).result = .ok tree) :
    ∃ p, Reached recovery source p [] ∧ p.blocks.closeAll = .ok tree ∧
      I p.blocks (((read recovery source).accepted source).map Entry.item) := by
  let J (p : Progress Blocks) (ls : List (List Char × Nat)) : Prop :=
    Reached recovery source p (ls.map Prod.fst) ∧ Told source p.offers ls ∧
      ∃ es, I p.blocks (es.map Entry.item) ∧ Accepts source p.offers ls es
  have hstart : J .start (numberedLines source) :=
    ⟨map_fst_numberedLines source ▸ .start, ⟨List.suffix_refl _, by simp [Progress.start], .nil,
      by simp [Progress.start]⟩, [], start, fun _ _ => rfl⟩
  have hplaced {p l more after blocks} (hJ : J p (l :: (more ++ after)))
      (hturn : turn p.blocks l.1 ((more ++ after).map Prod.fst) =
        (.ok blocks, after.map Prod.fst)) : J ⟨blocks, none, p.offers⟩ after := by
    obtain ⟨hreached, htold, es, hI, hes⟩ := hJ
    have hplace := (turn_ok (lines source).length hturn).1
    refine ⟨.placed hreached hturn, htold.after, es ++ [_], ?_, hes.placed htold hturn⟩
    rw [List.map_append]
    exact placed hreached hI hplace
  have hskipped {p l more after offer failure} (hJ : J p (l :: (more ++ after)))
      (hrefuses : Refuses (lines source).length p l more after offer failure)
      (hskip : recovery p.offers offer = .skip) :
      J ⟨failure.blocks, none, offer :: p.offers⟩ after := by
    obtain ⟨hreached, htold, es, hI, hes⟩ := hJ
    have hplace := congrArg Prod.fst hrefuses.turned
    rw [turn_fst] at hplace
    exact ⟨.skipped hreached hrefuses.turned hrefuses.tells hskip, htold.refused hreached hrefuses,
      es, refused hreached hI hplace, hes.refused hreached htold hrefuses⟩
  rw [read_eq_reportOf] at h ⊢
  rcases remaining_invariant (lines source).length hplaced hskipped (numberedLines source)
      (fun l => isCommentLine_of_mem_numberedLines) rfl hstart with
    ⟨q, ⟨hreached, _, es, hI, hes⟩, hend⟩ | ⟨_, _, _, _, _, _, _, _, ⟨_, hend⟩ | ⟨_, _, hend⟩⟩
  · rw [hend] at h ⊢
    refine ⟨q, hreached, h, ?_⟩
    have haccepted := hes [] (by simp)
    rw [List.append_nil, acceptedOn, List.append_nil] at haccepted
    rw [Report.accepted, reportOf, haccepted]
    exact hI
  · rw [hend] at h
    cases h
  · rw [hend] at h
    cases h

end ProgramDiagram.Outline
