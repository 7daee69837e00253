import Mathlib.Data.List.Induction
import Mathlib.Data.List.TakeWhile
import ProgramDiagram.CommandLine.Request
import ProgramDiagram.Proofs.Text.Lines

/-!
# How a drawing is asked for

* `DrawOption`: what can be given for a drawing, each at most once.
* `Spells`: the ways in which arguments give it.
* `requestOf`: the request for a drawing with what is given.
* `read_eq_done_iff`: reading arguments gives what they spell, one after the other.
* `ofArguments_eq_draw_iff`: the command lines that ask for a drawing are those that spell what may
  be given.
-/

namespace ProgramDiagram.CommandLine

/-- What can be given for a drawing. -/
inductive DrawOption where
  | input
  | output
  | config
  | indented
  | fontSize
  | fontFamily
  | strokeWidth
  | strokeColor
  | backgroundColor
  | baseBackgroundColor
  | textColor
  | lineHeight
  | listLayout
deriving DecidableEq

/-- What is given for a drawing, with its values in the order of the arguments. -/
abbrev Given := List (DrawOption × String)

namespace DrawOption

def name : DrawOption → String
  | input => "input"
  | output => "output"
  | config => "config"
  | indented => "prettyprint"
  | fontSize => "font-size"
  | fontFamily => "font-family"
  | strokeWidth => "stroke-width"
  | strokeColor => "stroke-color"
  | backgroundColor => "background-color"
  | baseBackgroundColor => "base-background-color"
  | textColor => "text-color"
  | lineHeight => "line-height"
  | listLayout => "list-render-type"

/-- The letters of the options that have one and take a value. -/
def letter? : DrawOption → Option Char
  | input => some 'i'
  | output => some 'o'
  | _ => none

/-- The values that an option may have. -/
def Accepts : DrawOption → String → Prop
  | input, value | output, value | config, value => value ≠ ""
  | fontSize, value | strokeWidth, value | lineHeight, value => (Binary64.read? value).isSome
  | listLayout, value => (ListLayout.ofName? value).isSome
  | indented, _ | fontFamily, _ | strokeColor, _ | backgroundColor, _ | baseBackgroundColor, _
  | textColor, _ => True

end DrawOption

/-- Each option is given once at most, with a value that it may have. -/
structure Proper (given : Given) : Prop where
  once : (given.map Prod.fst).Nodup
  accepted : ∀ g ∈ given, g.1.Accepts g.2

/-- The layer of options that is given. A background colour that is given is never none. -/
def flagsOf (given : Given) : Layer Binary64 :=
  { Layer.empty with
    fontSize := (given.lookup .fontSize).bind Binary64.read?
    fontFamily := given.lookup .fontFamily
    strokeWidth := (given.lookup .strokeWidth).bind Binary64.read?
    strokeColor := given.lookup .strokeColor
    backgroundColor := (given.lookup .backgroundColor).map some
    baseBackgroundColor := (given.lookup .baseBackgroundColor).map some
    textColor := given.lookup .textColor
    lineHeight := (given.lookup .lineHeight).bind Binary64.read?
    listLayout := (given.lookup .listLayout).bind ListLayout.ofName? }

def requestOf (given : Given) : DrawRequest where
  input := given.lookup .input
  output := given.lookup .output
  config := given.lookup .config
  indented := (given.lookup .indented).isSome
  flags := flagsOf given

/-! ## Spelling -/

/-- What letters after one hyphen give, and the option that awaits the next argument as its
value. -/
inductive Letters : List Char → Given → Option DrawOption → Prop
  | nil : Letters [] [] none
  | indented {cs : List Char} {given : Given} {awaiting : Option DrawOption}
      (h : Letters cs given awaiting) : Letters ('p' :: cs) ((.indented, "") :: given) awaiting
  | awaiting {o : DrawOption} {c : Char} (hc : o.letter? = some c) : Letters [c] [] (some o)
  | afterEquals {o : DrawOption} {c : Char} (hc : o.letter? = some c) (value : List Char) :
      Letters (c :: '=' :: value) [(o, String.ofList value)] none
  | attached {o : DrawOption} {c x : Char} (hc : o.letter? = some c) (hx : x ≠ '=')
      (value : List Char) : Letters (c :: x :: value) [(o, String.ofList (x :: value))] none

/-- What one argument gives, and the option that awaits the next one as its value. -/
inductive Says : List Char → Given → Option DrawOption → Prop
  | indented : Says ('-' :: '-' :: DrawOption.indented.name.toList) [(.indented, "")] none
  | awaiting {o : DrawOption} (ho : o ≠ .indented) :
      Says ('-' :: '-' :: o.name.toList) [] (some o)
  | afterEquals {o : DrawOption} (ho : o ≠ .indented) (value : List Char) :
      Says ('-' :: '-' :: (o.name.toList ++ '=' :: value)) [(o, String.ofList value)] none
  | letters {cs : List Char} {given : Given} {awaiting : Option DrawOption} (hcs : cs ≠ [])
      (h : Letters cs given awaiting) : Says ('-' :: cs) given awaiting

/-- What arguments give. Two hyphens may end them. -/
inductive Spells : List String → Given → Prop
  | nil : Spells [] []
  | finished : Spells ["--"] []
  | whole {argument : String} {rest : List String} {now later : Given}
      (hnow : Says argument.toList now none) (hlater : Spells rest later) :
      Spells (argument :: rest) (now ++ later)
  | withValue {argument value : String} {rest : List String} {now later : Given} {o : DrawOption}
      (hnow : Says argument.toList now (some o)) (hvalue : isValue value)
      (hlater : Spells rest later) :
      Spells (argument :: value :: rest) (now ++ (o, value) :: later)

/-! ## The parameters of the options -/

namespace DrawOption

/-- The effect of giving an option. -/
def give (o : DrawOption) (value : String) (r : DrawRequest) : Option DrawRequest :=
  match drawParameter? o.name with
  | some (.switch set?) => set? r
  | some (.valued set?) => set? value r
  | _ => none

theorem drawParameter?_name {o : DrawOption} (ho : o ≠ indented) :
    drawParameter? o.name = some (.valued o.give) := by
  cases o <;> first | rfl | exact absurd rfl ho

theorem drawParameter?_indented :
    drawParameter? indented.name = some (.switch (indented.give "")) := rfl

theorem drawParameter?_cases {name : String} {p : Parameter DrawRequest}
    (h : drawParameter? name = some p) :
    (∃ o : DrawOption, name = o.name) ∨ ∃ reason, p = .stop reason := by
  unfold drawParameter? at h
  split at h
  · exact .inl ⟨input, rfl⟩
  · exact .inl ⟨output, rfl⟩
  · exact .inl ⟨config, rfl⟩
  · exact .inl ⟨indented, rfl⟩
  · exact .inl ⟨fontSize, rfl⟩
  · exact .inl ⟨fontFamily, rfl⟩
  · exact .inl ⟨strokeWidth, rfl⟩
  · exact .inl ⟨strokeColor, rfl⟩
  · exact .inl ⟨backgroundColor, rfl⟩
  · exact .inl ⟨baseBackgroundColor, rfl⟩
  · exact .inl ⟨textColor, rfl⟩
  · exact .inl ⟨lineHeight, rfl⟩
  · exact .inl ⟨listLayout, rfl⟩
  · exact .inr ⟨_, (Option.some.inj h).symm⟩
  · exact .inr ⟨_, (Option.some.inj h).symm⟩
  · cases h

theorem byLetter?_letter {o : DrawOption} {c : Char} (h : o.letter? = some c) :
    drawGrammar.byLetter? c = some (.valued o.give) := by
  cases o <;> cases h <;> rfl

theorem byLetter?_indented : drawGrammar.byLetter? 'p' = some (.switch (indented.give "")) := rfl

theorem byLetter?_cases {c : Char} {p : Parameter DrawRequest}
    (h : drawGrammar.byLetter? c = some p) :
    (∃ o : DrawOption, o.letter? = some c) ∨ c = 'p' ∨ ∃ reason, p = .stop reason := by
  simp only [drawGrammar] at h
  split at h
  · exact .inl ⟨input, rfl⟩
  · exact .inl ⟨output, rfl⟩
  · exact .inr (.inl rfl)
  · exact .inr (.inr ⟨_, (Option.some.inj h).symm⟩)
  · exact .inr (.inr ⟨_, (Option.some.inj h).symm⟩)
  · cases h

theorem equals_not_mem_name (o : DrawOption) : '=' ∉ o.name.toList := by
  cases o <;> decide

theorem name_ne_empty (o : DrawOption) : o.name.toList ≠ [] := by
  cases o <;> decide

end DrawOption

/-! ## Reading what is spelled -/

/-- The effect of what is given, one after the other. -/
def giveAll (given : Given) (r : DrawRequest) : Option DrawRequest :=
  given.foldlM (fun r g => g.1.give g.2 r) r

theorem giveAll_cons (g : DrawOption × String) (given : Given) (r : DrawRequest) :
    giveAll (g :: given) r = g.1.give g.2 r >>= giveAll given := rfl

theorem giveAll_append (now later : Given) (r : DrawRequest) :
    giveAll (now ++ later) r = giveAll now r >>= giveAll later :=
  List.foldlM_append

/-- What an argument comes to that gives something and may await a value. -/
def stepOf (given : Given) (awaiting : Option DrawOption) (r : DrawRequest) : Step DrawRequest :=
  match giveAll given r with
  | none => .wrong
  | some r => awaiting.elim (.ready r) fun o => .awaiting fun value => o.give value r

/-- An argument that may be part of a command line for a drawing. -/
def Step.Proceeds {σ : Type} : Step σ → Prop
  | ready _ | awaiting _ => True
  | stop _ | wrong => False

theorem stepOf_single (o : DrawOption) (value : String) (r : DrawRequest) :
    stepOf [(o, value)] none r = Step.ofOption (o.give value r) := by
  simp only [stepOf, giveAll, List.foldlM_cons, List.foldlM_nil]
  cases o.give value r <;> rfl

theorem lettered_of_letters {cs : List Char} {given : Given} {awaiting : Option DrawOption}
    (h : Letters cs given awaiting) (r : DrawRequest) :
    drawGrammar.lettered r cs = stepOf given awaiting r := by
  induction h generalizing r with
  | nil => rfl
  | indented _ ih =>
    rw [Grammar.lettered, DrawOption.byLetter?_indented]
    simp only [stepOf, giveAll_cons]
    cases DrawOption.indented.give "" r with
    | none => rfl
    | some r => exact ih r
  | awaiting hc => rw [Grammar.lettered, DrawOption.byLetter?_letter hc]; rfl
  | afterEquals hc value =>
    rw [Grammar.lettered, DrawOption.byLetter?_letter hc, stepOf_single]
    rfl
  | attached hc hx value =>
    rw [Grammar.lettered, DrawOption.byLetter?_letter hc, stepOf_single]
    dsimp only
    split
    · rename_i hnil
      cases hnil
    · rename_i hequals
      cases hequals
      exact absurd rfl hx
    · rfl

theorem exists_letters {cs : List Char} {r : DrawRequest}
    (h : (drawGrammar.lettered r cs).Proceeds) : ∃ given awaiting, Letters cs given awaiting := by
  induction cs generalizing r with
  | nil => exact ⟨[], none, .nil⟩
  | cons c cs ih =>
    rw [Grammar.lettered] at h
    cases hc : drawGrammar.byLetter? c with
    | none => simp [hc, Step.Proceeds] at h
    | some p =>
      rcases DrawOption.byLetter?_cases hc with ⟨o, ho⟩ | rfl | ⟨reason, rfl⟩
      · cases cs with
        | nil => exact ⟨[], some o, .awaiting ho⟩
        | cons x value =>
          by_cases hx : x = '='
          · subst hx
            exact ⟨_, _, .afterEquals ho value⟩
          · exact ⟨_, _, .attached ho hx value⟩
      · rw [DrawOption.byLetter?_indented] at h
        dsimp only at h
        split at h
        · obtain ⟨given, awaiting, hcs⟩ := ih h
          exact ⟨_, awaiting, .indented hcs⟩
        · cases h
      · simp [hc, Step.Proceeds] at h

section Named

variable {name : List Char} (hname : '=' ∉ name) (r : DrawRequest)
include hname

theorem named_of_not_mem :
    drawGrammar.named r name =
      match drawParameter? (String.ofList name) with
      | some (.switch set?) => .ofOption (set? r)
      | some (.valued set?) => .awaiting fun value => set? value r
      | some (.stop reason) => .stop reason
      | none => .wrong := by
  have htake : name.takeWhile (· ≠ '=') = name :=
    List.takeWhile_eq_self_iff.2 (ne_of_not_mem hname)
  have hdrop : name.dropWhile (· ≠ '=') = [] :=
    List.dropWhile_eq_nil_iff.2 (ne_of_not_mem hname)
  simp only [Grammar.named, htake, hdrop, drawGrammar]
  rcases drawParameter? (String.ofList name) with _ | _ | _ | _ <;> rfl

theorem named_append_equals (value : List Char) :
    drawGrammar.named r (name ++ '=' :: value) =
      match drawParameter? (String.ofList name) with
      | some (.valued set?) => .ofOption (set? (String.ofList value) r)
      | _ => .wrong := by
  have hequals : decide ('=' ≠ '=') = false := by decide
  have htake := takeWhile_append_stop (ne_of_not_mem hname) hequals value
  have hdrop := dropWhile_append_stop (ne_of_not_mem hname) hequals value
  simp only [Grammar.named, htake, hdrop, drawGrammar]
  rcases drawParameter? (String.ofList name) with _ | _ | _ | _ <;> rfl

end Named

theorem option_of_parameter {name : List Char} {p : Parameter DrawRequest}
    (h : drawParameter? (String.ofList name) = some p) :
    (∃ o : DrawOption, name = o.name.toList) ∨ ∃ reason, p = .stop reason := by
  rcases DrawOption.drawParameter?_cases h with ⟨o, ho⟩ | hstop
  · exact .inl ⟨o, by rw [← ho, String.toList_ofList]⟩
  · exact .inr hstop

theorem exists_named {argument : List Char} {r : DrawRequest}
    (h : (drawGrammar.named r argument).Proceeds) :
    ∃ given awaiting, Says ('-' :: '-' :: argument) given awaiting := by
  -- the name of the option is what comes before the first equals sign
  by_cases hmem : '=' ∈ argument
  · obtain ⟨name, value, rfl, hname⟩ := List.eq_append_cons_of_mem hmem
    rw [named_append_equals hname] at h
    cases hp : drawParameter? (String.ofList name) with
    | none => simp [hp, Step.Proceeds] at h
    | some p =>
      rcases option_of_parameter hp with ⟨o, rfl⟩ | ⟨reason, rfl⟩
      · have hvalued : o ≠ .indented := by
          rintro rfl
          simp [String.ofList_toList, DrawOption.drawParameter?_indented, Step.Proceeds] at h
        exact ⟨_, _, .afterEquals hvalued value⟩
      · simp [hp, Step.Proceeds] at h
  · rw [named_of_not_mem hmem] at h
    cases hp : drawParameter? (String.ofList argument) with
    | none => simp [hp, Step.Proceeds] at h
    | some p =>
      rcases option_of_parameter hp with ⟨o, rfl⟩ | ⟨reason, rfl⟩
      · by_cases hindented : o = .indented
        · subst hindented
          exact ⟨_, _, .indented⟩
        · exact ⟨_, _, .awaiting hindented⟩
      · simp [hp, Step.Proceeds] at h

theorem head?_of_letters {cs : List Char} {given : Given} {awaiting : Option DrawOption}
    (h : Letters cs given awaiting) : cs.head? ≠ some '-' := by
  have letter {o : DrawOption} {c : Char} (hc : o.letter? = some c) : c ≠ '-' := by
    cases o <;> cases hc <;> decide
  cases h with
  | nil | indented => simp
  | awaiting hc | afterEquals hc | attached hc => simpa using letter hc

theorem step_of_letters {argument : String} {cs : List Char} (hne : cs ≠ [])
    (hhead : cs.head? ≠ some '-') (h : argument.toList = '-' :: cs) (r : DrawRequest) :
    drawGrammar.step r argument = drawGrammar.lettered r cs := by
  rw [Grammar.step, h]
  split
  · rename_i hcs
    cases hcs
    exact absurd rfl hhead
  · rename_i hcs
    cases hcs
    rfl
  · rename_i hletters
    cases cs with
    | nil => exact absurd rfl hne
    | cons c cs => exact absurd rfl (hletters c cs)

theorem step_eq_stepOf {argument : String} {given : Given} {awaiting : Option DrawOption}
    (h : Says argument.toList given awaiting) (r : DrawRequest) :
    drawGrammar.step r argument = stepOf given awaiting r := by
  generalize hcs : argument.toList = cs at h
  cases h with
  | indented =>
    rw [Grammar.step, hcs]
    simp only [named_of_not_mem (DrawOption.equals_not_mem_name .indented), String.ofList_toList,
      DrawOption.drawParameter?_indented, stepOf_single]
  | awaiting ho =>
    rw [Grammar.step, hcs]
    simp only [named_of_not_mem (DrawOption.equals_not_mem_name _), String.ofList_toList,
      DrawOption.drawParameter?_name ho]
    rfl
  | afterEquals ho value =>
    rw [Grammar.step, hcs]
    simp only [named_append_equals (DrawOption.equals_not_mem_name _), String.ofList_toList,
      DrawOption.drawParameter?_name ho, stepOf_single]
  | letters hne h =>
    rw [step_of_letters hne (head?_of_letters h) hcs, lettered_of_letters h]

theorem says_of_proceeds {argument : String} {r : DrawRequest}
    (h : (drawGrammar.step r argument).Proceeds) :
    ∃ given awaiting, Says argument.toList given awaiting := by
  rw [Grammar.step] at h
  split at h
  · rename_i name hname
    rw [hname]
    exact exists_named h
  · rename_i c cs _ hcs
    obtain ⟨given, awaiting, hletters⟩ := exists_letters h
    rw [hcs]
    exact ⟨given, awaiting, .letters (List.cons_ne_nil c cs) hletters⟩
  · cases h

/-- Two hyphens alone give nothing. -/
theorem ne_hyphens_of_spelled {argument : String} {given : Given} {awaiting : Option DrawOption}
    (h : Says argument.toList given awaiting) : argument ≠ "--" := by
  rintro rfl
  generalize hcs : "--".toList = cs at h
  cases h with
  | indented => exact absurd hcs (by decide)
  | awaiting ho => exact DrawOption.name_ne_empty _ (List.cons.inj (List.cons.inj hcs).2).2.symm
  | afterEquals ho value => exact absurd (List.cons.inj (List.cons.inj hcs).2).2 (by simp)
  | letters hne h => exact head?_of_letters h (by cases hcs; rfl)

theorem read_of_spells {arguments : List String} {given : Given} (h : Spells arguments given)
    (r : DrawRequest) :
    drawGrammar.read r arguments =
      match giveAll given r with
      | some r => .done r
      | none => .wrong := by
  induction h generalizing r with
  | nil => rfl
  | finished => rfl
  | whole hnow hlater ih =>
    rw [Grammar.read, if_neg (ne_hyphens_of_spelled hnow), step_eq_stepOf hnow, stepOf,
      giveAll_append]
    cases giveAll _ r with
    | none => rfl
    | some r => exact ih r
  | @withValue argument value rest now later o hnow hvalue hlater ih =>
    rw [Grammar.read, if_neg (ne_hyphens_of_spelled hnow), step_eq_stepOf hnow, stepOf,
      giveAll_append]
    cases giveAll now r with
    | none => rfl
    | some r =>
      simp only [Option.elim, Option.bind_eq_bind, Option.bind_some, giveAll_cons, if_pos hvalue]
      cases o.give value r with
      | none => rfl
      | some r => exact ih r

theorem says_of_ready {argument : String} {r r' : DrawRequest}
    (h : drawGrammar.step r argument = .ready r') : ∃ given, Says argument.toList given none := by
  have hproceeds : (drawGrammar.step r argument).Proceeds := by rw [h]; trivial
  obtain ⟨given, awaiting, hsays⟩ := says_of_proceeds hproceeds
  rw [step_eq_stepOf hsays, stepOf] at h
  cases awaiting with
  | none => exact ⟨given, hsays⟩
  | some o => cases hgiven : giveAll given r <;> simp [hgiven] at h

theorem says_of_awaiting {argument : String} {r : DrawRequest}
    {set? : String → Option DrawRequest} (h : drawGrammar.step r argument = .awaiting set?) :
    ∃ given o, Says argument.toList given (some o) := by
  have hproceeds : (drawGrammar.step r argument).Proceeds := by rw [h]; trivial
  obtain ⟨given, awaiting, hsays⟩ := says_of_proceeds hproceeds
  rw [step_eq_stepOf hsays, stepOf] at h
  cases awaiting with
  | none => cases hgiven : giveAll given r <;> simp [hgiven] at h
  | some o => exact ⟨given, o, hsays⟩

theorem exists_spells {arguments : List String} {r r' : DrawRequest}
    (h : drawGrammar.read r arguments = .done r') : ∃ given, Spells arguments given := by
  -- the branches in which the reading fails or stops are closed at once
  fun_induction Grammar.read drawGrammar r arguments <;> try cases h
  case case1 => exact ⟨[], .nil⟩
  case case2 rest hrest =>
    rw [List.isEmpty_iff.1 hrest]
    exact ⟨[], .finished⟩
  case case4 hstep ih =>
    obtain ⟨now, hnow⟩ := says_of_ready hstep
    obtain ⟨later, hlater⟩ := ih h
    exact ⟨now ++ later, .whole hnow hlater⟩
  case case8 hstep value rest hvalue r hset ih =>
    obtain ⟨now, o, hnow⟩ := says_of_awaiting hstep
    obtain ⟨later, hlater⟩ := ih h
    exact ⟨now ++ (o, value) :: later, .withValue hnow hvalue hlater⟩

theorem read_eq_done_iff {arguments : List String} {r r' : DrawRequest} :
    drawGrammar.read r arguments = .done r' ↔
      ∃ given, Spells arguments given ∧ giveAll given r = some r' := by
  constructor
  · intro h
    obtain ⟨given, hspells⟩ := exists_spells h
    refine ⟨given, hspells, ?_⟩
    rw [read_of_spells hspells] at h
    cases hgiven : giveAll given r with
    | none => simp [hgiven] at h
    | some r₁ => simpa [hgiven] using h
  · rintro ⟨given, hspells, hgiven⟩
    rw [read_of_spells hspells, hgiven]

/-! ## The request of what is given -/

theorem accepts_of_lookup {given : Given} (h : Proper given) {o : DrawOption} {value : String}
    (ho : given.lookup o = some value) : o.Accepts value := by
  obtain ⟨before, after, rfl, -⟩ := List.lookup_eq_some_iff.1 ho
  exact h.accepted (o, value) (by simp)

theorem lookup_append_singleton {given : Given} {o : DrawOption} (ho : given.lookup o = none)
    (value : String) (k : DrawOption) :
    (given ++ [(o, value)]).lookup k = if k = o then some value else given.lookup k := by
  rw [List.lookup_append]
  by_cases hk : k = o
  · subst hk
    simp [ho]
  · rw [List.lookup_cons, beq_false_of_ne hk, if_neg hk]
    exact Option.or_none

section SetOnce

variable {β γ : Type} {x : γ}

theorem setOnce_map_eq_some_iff {field value? : Option β} {f : Option β → γ} :
    (setOnce field value?).map f = some x ↔ field = none ∧ value?.isSome ∧ x = f value? := by
  cases field <;> cases value? <;> simp [setOnce, eq_comm]

theorem setOnce_path?_map_eq_some_iff {field : Option String} {value : String}
    {f : Option String → γ} :
    (setOnce field (path? value)).map f = some x ↔
      field = none ∧ value ≠ "" ∧ x = f (some value) := by
  rw [setOnce_map_eq_some_iff]
  by_cases h : value = "" <;> simp [path?, h]

theorem turnOn_map_eq_some_iff {switch : Bool} {f : Bool → γ} :
    (turnOn switch).map f = some x ↔ switch = false ∧ x = f true := by
  cases switch <;> simp [turnOn, eq_comm]

end SetOnce

theorem bind_eq_none_iff_of_isSome {α β : Type} {x : Option α} {read? : α → Option β}
    (h : ∀ v, x = some v → (read? v).isSome) : x.bind read? = none ↔ x = none := by
  cases x with
  | none => simp
  | some v => simpa using Option.isSome_iff_ne_none.1 (h v rfl)

open DrawParameter in
/-- An option can be given if it is not there yet and accepts the value. -/
theorem give_eq_some_iff {given : Given} (h : Proper given) {o : DrawOption} {value : String}
    {r : DrawRequest} :
    o.give value (requestOf given) = some r ↔
      given.lookup o = none ∧ o.Accepts value ∧ r = requestOf (given ++ [(o, value)]) := by
  have haccepts (v : String) (ho : given.lookup o = some v) : o.Accepts v := accepts_of_lookup h ho
  have hlookup (ho : given.lookup o = none) := lookup_append_singleton ho value
  cases o with
  | input | output | config =>
    simp only [DrawOption.give, DrawOption.name, drawParameter?, input, output, config,
      setOnce_path?_map_eq_some_iff]
    refine and_congr_right fun ho => ?_
    simp [requestOf, flagsOf, hlookup ho, DrawOption.Accepts]
  | indented =>
    simp only [DrawOption.give, DrawOption.name, drawParameter?, indented, turnOn_map_eq_some_iff]
    refine (and_congr_left' (Option.isSome_eq_false_iff.trans Option.isNone_iff_eq_none)).trans
      (and_congr_right fun ho => ?_)
    simp [requestOf, flagsOf, hlookup ho, DrawOption.Accepts]
  | fontFamily | strokeColor | textColor =>
    simp only [DrawOption.give, DrawOption.name, drawParameter?, flag, setOnce_map_eq_some_iff]
    refine and_congr_right fun ho => ?_
    simp [requestOf, flagsOf, hlookup ho, DrawOption.Accepts]
  | backgroundColor | baseBackgroundColor =>
    simp only [DrawOption.give, DrawOption.name, drawParameter?, flag, setOnce_map_eq_some_iff]
    refine (and_congr_left' Option.map_eq_none_iff).trans (and_congr_right fun ho => ?_)
    simp [requestOf, flagsOf, hlookup ho, DrawOption.Accepts]
  | fontSize | strokeWidth | lineHeight | listLayout =>
    simp only [DrawOption.give, DrawOption.name, drawParameter?, flag, setOnce_map_eq_some_iff]
    refine (and_congr_left' (bind_eq_none_iff_of_isSome haccepts)).trans
      (and_congr_right fun ho => ?_)
    simp [requestOf, flagsOf, hlookup ho, DrawOption.Accepts]

theorem proper_append_singleton_iff {given : Given} {o : DrawOption} {value : String} :
    Proper (given ++ [(o, value)]) ↔
      Proper given ∧ given.lookup o = none ∧ o.Accepts value := by
  have hlookup : given.lookup o = none ↔ o ∉ given.map Prod.fst := by
    rw [List.lookup_eq_none_iff, List.mem_map]
    constructor
    · rintro h ⟨g, hg, rfl⟩
      simpa using h g hg
    · intro h g hg
      simpa using fun hg₁ : o = g.1 => h ⟨g, hg, hg₁.symm⟩
  have hnodup : ((given ++ [(o, value)]).map Prod.fst).Nodup ↔
      (given.map Prod.fst).Nodup ∧ given.lookup o = none := by
    rw [hlookup, List.map_append, List.map_singleton, (List.perm_append_singleton _ _).nodup_iff,
      List.nodup_cons, and_comm]
  constructor
  · rintro ⟨honce, haccepted⟩
    obtain ⟨honce, ho⟩ := hnodup.1 honce
    exact ⟨⟨honce, fun g hg => haccepted g (by simp [hg])⟩, ho, haccepted (o, value) (by simp)⟩
  · rintro ⟨⟨honce, haccepted⟩, ho, haccepts⟩
    refine ⟨hnodup.2 ⟨honce, ho⟩, fun g hg => ?_⟩
    rcases List.mem_append.1 hg with hg | hg
    · exact haccepted g hg
    · rw [List.mem_singleton.1 hg]
      exact haccepts

theorem giveAll_start_iff {given : Given} {r : DrawRequest} :
    giveAll given .start = some r ↔ Proper given ∧ r = requestOf given := by
  -- what is given grows at its end, since each option is given to the request of those before it
  induction given using List.reverseRecOn generalizing r with
  | nil =>
    have hproper : Proper [] := ⟨by simp, by simp⟩
    simp [giveAll, hproper, eq_comm, show requestOf [] = .start from rfl]
  | append_singleton given g ih =>
    obtain ⟨o, value⟩ := g
    have hlast (r : DrawRequest) : giveAll [(o, value)] r = o.give value r := by
      simp [giveAll]
    rw [giveAll_append, proper_append_singleton_iff, Option.bind_eq_bind, Option.bind_eq_some_iff]
    constructor
    · rintro ⟨r₁, hbefore, hgive⟩
      obtain ⟨hproper, rfl⟩ := ih.1 hbefore
      rw [hlast, give_eq_some_iff hproper] at hgive
      exact ⟨⟨hproper, hgive.1, hgive.2.1⟩, hgive.2.2⟩
    · rintro ⟨⟨hproper, ho, haccepts⟩, rfl⟩
      refine ⟨requestOf given, ih.2 ⟨hproper, rfl⟩, ?_⟩
      rw [hlast, give_eq_some_iff hproper]
      exact ⟨ho, haccepts, rfl⟩

/-- The command lines that ask for a drawing. -/
theorem ofArguments_eq_draw_iff {arguments : List String} {r : DrawRequest} :
    Request.ofArguments arguments = .done (.draw r) ↔
      ∃ given, Spells arguments given ∧ Proper given ∧ r = requestOf given := by
  have hread : (∃ given, Spells arguments given ∧ Proper given ∧ r = requestOf given) ↔
      drawGrammar.read .start arguments = .done r := by
    simp only [read_eq_done_iff, giveAll_start_iff]
  rw [hread]
  unfold Request.ofArguments
  split
  · rename_i rest
    have hwrong : drawGrammar.read .start ("parse" :: rest) = .wrong := rfl
    cases treeGrammar.read ⟨none, false⟩ rest <;> simp [hwrong, Reading.map]
  · rename_i rest
    have hwrong : drawGrammar.read .start ("help" :: rest) = .wrong := rfl
    rw [hwrong]
    unfold helpFor
    split <;> try split
    all_goals simp
  · cases drawGrammar.read .start arguments <;> simp [Reading.map]

end ProgramDiagram.CommandLine
