import ProgramDiagram.Proofs.Outline.Reached

/-!
# The first offer

A recovery has no part in a reading before it is asked for the first time.

* `step_alike`: until then a line has the same effect whatever the recovery;
* `suffix_remaining`: no later line takes an offer back;
* `read_extends_parse`: so every reading of a source is parsing it, up to the first offer.
-/

namespace ProgramDiagram.Outline

variable {recovery : Recovery}

/-- The offers made by the end of a part of a reading, newest first. -/
def offersOf : Except Halt (Progress Blocks) → List Offer
  | .ok p => p.offers
  | .error halt => halt.offers

theorem reportOf_offers (x : Except Halt (Progress Blocks)) :
    (reportOf x).offers = (offersOf x).reverse := by
  cases x <;> rfl

/-! ## Offers stay -/

theorem suffix_bind (x : Except Halt (Progress Blocks))
    {f : Progress Blocks → Except Halt (Progress Blocks)}
    (hf : ∀ p, p.offers <:+ offersOf (f p)) : offersOf x <:+ offersOf (x >>= f) := by
  cases x with
  | ok p => exact hf p
  | error halt => exact List.suffix_refl _

theorem suffix_settle (offers : List Offer) (number : Nat) (line : List Char)
    (attempt : Except (Failure Blocks) Blocks) :
    offers <:+ offersOf (settle recovery offers number line (.of attempt)) := by
  cases attempt with
  | ok blocks => exact List.suffix_refl _
  | error failure =>
    rw [Attempt.of_error, settle]
    split <;> exact List.suffix_cons _ _

/-- A part of a reading does the same with every recovery, or what it comes to is the answer to one
offer. -/
def Alike (offers : List Offer) (part : Recovery → Except Halt (Progress Blocks)) : Prop :=
  (∃ p, p.offers = offers ∧ ∀ recovery, part recovery = .ok p) ∨
  ∃ number line failure, ∀ recovery,
    part recovery = settle recovery offers number line (.error (.refused failure))

theorem Alike.suffix {offers : List Offer} {part : Recovery → Except Halt (Progress Blocks)}
    (h : Alike offers part) (recovery : Recovery) : offers <:+ offersOf (part recovery) := by
  rcases h with ⟨p, rfl, hpart⟩ | ⟨number, line, failure, hpart⟩
  · rw [hpart]
    exact List.suffix_refl _
  · rw [hpart]
    exact suffix_settle offers number line (.error failure)

theorem Alike.congr {offers : List Offer} {part same : Recovery → Except Halt (Progress Blocks)}
    (h : Alike offers part) (hsame : ∀ recovery, same recovery = part recovery) :
    Alike offers same :=
  (funext hsame : same = part) ▸ h

theorem settle_alike (offers : List Offer) (number : Nat) (line : List Char)
    (attempt : Except (Failure Blocks) Blocks) :
    Alike offers fun recovery => settle recovery offers number line (.of attempt) := by
  cases attempt with
  | ok blocks => exact .inl ⟨⟨blocks, none, offers⟩, rfl, fun _ => rfl⟩
  | error failure => exact .inr ⟨number, line, failure, fun _ => rfl⟩

theorem gather_alike (p : Progress Blocks) (number : Nat) (g : Gathered) (row : List Char) :
    Alike p.offers fun recovery => gather recovery p number g row := by
  cases hrow : continued? row with
  | some before =>
    exact .inl ⟨{ p with unfinished := some ⟨g.line, before :: g.rows⟩ }, rfl,
      fun recovery => by simp only [gather, hrow]⟩
  | none =>
    let statement := Statement.ofBody (bodyOf (row :: g.rows))
    exact (settle_alike p.offers number g.line (p.blocks.accept statement)).congr fun recovery => by
      simp only [gather, hrow, finish, Blocks.nesting_accept, statement]

theorem step_alike (p : Progress Blocks) (l : List Char × Nat) :
    Alike p.offers fun recovery => step recovery p l := by
  by_cases hcomment : isCommentLine l.1
  · exact .inl ⟨p, rfl, fun _ => if_pos hcomment⟩
  cases hunfinished : p.unfinished with
  | some g =>
    exact (gather_alike p l.2 g (unindented l.1)).congr fun recovery => by
      simp [step, hcomment, hunfinished]
  | none =>
    cases hmove : p.blocks.moveTo (indentation l.1) with
    | ok blocks =>
      exact (gather_alike { p with blocks } l.2 ⟨l.1, []⟩ (unindented l.1)).congr fun recovery => by
        simp [step, hcomment, hunfinished, hmove]
    | error failure =>
      exact (settle_alike p.offers l.2 l.1 (.error failure)).congr fun recovery => by
        simp [step, hcomment, hunfinished, hmove]

theorem finishLast_alike (p : Progress Blocks) (count : Nat) :
    Alike p.offers fun recovery => finishLast recovery p count := by
  unfold finishLast
  cases p.unfinished with
  | some g => exact settle_alike ..
  | none => exact .inl ⟨p, rfl, fun _ => rfl⟩

theorem suffix_remaining (count : Nat) (ls : List (List Char × Nat)) (p : Progress Blocks) :
    p.offers <:+ offersOf (remaining recovery count ls p) := by
  induction ls generalizing p with
  | nil => exact (finishLast_alike p count).suffix recovery
  | cons l ls ih =>
    rw [remaining_cons]
    exact ((step_alike p l).suffix recovery).trans (suffix_bind _ ih)

/-! ## Readings up to their first offer -/

/-- The lines that are left come to the same end with every recovery, or all recoveries are asked
about the same statement first. -/
theorem remaining_alike (count : Nat) (ls : List (List Char × Nat)) (p : Progress Blocks) :
    (∃ q, q.offers = p.offers ∧ ∀ recovery, remaining recovery count ls p = .ok q) ∨
    ∃ number line failure, ∃ later : Recovery → Progress Blocks → Except Halt (Progress Blocks),
      (∀ recovery q, q.offers <:+ offersOf (later recovery q)) ∧
      ∀ recovery, remaining recovery count ls p =
        settle recovery p.offers number line (.error (.refused failure)) >>= later recovery := by
  induction ls generalizing p with
  | nil =>
    rcases finishLast_alike p count with ⟨q, hoffers, hlast⟩ | ⟨number, line, failure, hlast⟩
    · exact .inl ⟨q, hoffers, hlast⟩
    · refine .inr ⟨number, line, failure, fun _ => .ok, fun _ q => List.suffix_refl _, ?_⟩
      intro recovery
      exact (hlast recovery).trans (bind_pure _).symm
  | cons l ls ih =>
    rcases step_alike p l with ⟨q, hoffers, hstep⟩ | ⟨number, line, failure, hstep⟩
    · have hrest : ∀ recovery,
          remaining recovery count (l :: ls) p = remaining recovery count ls q := by
        intro recovery
        rw [remaining_cons]
        exact congrArg (· >>= _) (hstep recovery)
      simp only [hrest]
      exact hoffers ▸ ih q
    · refine .inr ⟨number, line, failure, fun recovery => remaining recovery count ls,
        fun recovery => suffix_remaining count ls, fun recovery => ?_⟩
      rw [remaining_cons]
      exact congrArg (· >>= _) (hstep recovery)

/-- A source is read in the same way by all recoveries, or all are asked about the same offer
first. -/
theorem read_alike (source : String) :
    (∀ recovery, read recovery source = ⟨[], parse source⟩) ∨
    ∃ offer : Offer, parse source = .error offer.error ∧ ∀ recovery,
      (∃ later, (read recovery source).offers = offer :: later) ∧
      (recovery [] offer = .stop → read recovery source = ⟨[offer], .error offer.error⟩) := by
  have hread := fun recovery => read_eq_reportOf recovery source
  rcases remaining_alike (lines source).length (numberedLines source) .start with
    ⟨q, hoffers, hend⟩ | ⟨number, line, failure, later, hlater, hend⟩
  · have hclosed : ∀ recovery, read recovery source = ⟨[], q.blocks.closeAll⟩ := by
      intro recovery
      rw [hread, hend, reportOf, hoffers]
      rfl
    refine .inl fun recovery => ?_
    rw [hclosed, parse, hclosed]
  · let offer : Offer := ⟨String.ofList line, number, failure.error⟩
    let refused : Attempt Blocks := .error (.refused failure)
    have hstop : ∀ recovery : Recovery, recovery [] offer = .stop →
        read recovery source = ⟨[offer], .error offer.error⟩ := by
      intro recovery hdecides
      have hsettle : settle recovery [] number line refused =
          .error ⟨[offer], failure.error⟩ := by
        simp only [settle, refused]
        rw [hdecides]
      rw [hread, hend]
      show reportOf (settle recovery [] number line refused >>= later recovery) = _
      rw [hsettle]
      rfl
    refine .inr ⟨offer, by rw [parse, hstop _ rfl], fun recovery => ⟨?_, hstop recovery⟩⟩
    have hfirst : offersOf (settle recovery [] number line refused) = [offer] := by
      simp only [settle, refused]
      cases recovery [] offer <;> rfl
    have hkept := suffix_bind (settle recovery [] number line refused) (hlater recovery)
    rw [hfirst] at hkept
    obtain ⟨newer, hnewer⟩ := hkept
    refine ⟨newer.reverse, ?_⟩
    rw [hread, hend, reportOf_offers]
    show (offersOf (settle recovery [] number line refused >>= later recovery)).reverse = _
    rw [← hnewer, List.reverse_append]
    rfl

/-- A source that can be parsed is read to the same tree by every recovery, and nothing is offered.
If parsing fails, then either nothing is offered to any recovery and all readings fail in the same
way, or there is one offer that is the first for every recovery. It has the error of parsing, with
which a recovery that declines it ends the reading. -/
theorem read_extends_parse (source : String) :
    (∀ tree, parse source = .ok tree → ∀ recovery, read recovery source = ⟨[], .ok tree⟩) ∧
    ∀ e, parse source = .error e →
      (∀ recovery, read recovery source = ⟨[], .error e⟩) ∨
      ∃ offer : Offer, offer.error = e ∧ ∀ recovery,
        (∃ later, (read recovery source).offers = offer :: later) ∧
        (recovery [] offer = .stop → read recovery source = ⟨[offer], .error e⟩) := by
  rcases read_alike source with hsame | ⟨offer, hparse, hfirst⟩
  · exact ⟨fun tree htree => htree ▸ hsame, fun e he => .inl (he ▸ hsame)⟩
  · refine ⟨fun tree htree => ?_, fun e he => .inr ⟨offer, ?_, ?_⟩⟩
    · rw [hparse] at htree
      cases htree
    · exact Except.error.inj (hparse.symm.trans he)
    · obtain rfl : offer.error = e := Except.error.inj (hparse.symm.trans he)
      exact hfirst

/-- No recovery is asked about the first source, and all are asked about the second line of the
second one before they are asked about its third. -/
theorem read_extends_parse_unknown :
    (∀ recovery, read recovery "a\n# b" = ⟨[], .ok (some (.list [.process "a" none]))⟩) ∧
    ∃ offer : Offer, offer.error = .unknownCommand "b" ∧ ∀ recovery,
      (∃ later, (read recovery "a\n:b\n:c").offers = offer :: later) ∧
      (recovery [] offer = .stop →
        read recovery "a\n:b\n:c" = ⟨[offer], .error (.unknownCommand "b")⟩) := by
  have haccepted : parse "a\n# b" = .ok (some (.list [.process "a" none])) := rfl
  have hrefused : parse "a\n:b\n:c" = .error (.unknownCommand "b") := rfl
  refine ⟨(read_extends_parse "a\n# b").1 _ haccepted, ?_⟩
  rcases (read_extends_parse "a\n:b\n:c").2 _ hrefused with hsilent | hoffered
  · have hoffers : (read (fun _ _ => .skip) "a\n:b\n:c").offers ≠ [] := by decide
    exact absurd (congrArg Report.offers (hsilent _)) hoffers
  · exact hoffered

end ProgramDiagram.Outline
