import ProgramDiagram.CommandLine.World

/-!
# Files

* `World.isFolder_of_isInside`: what is around a folder is a folder.
* `World.entry?_replaceFile`: a file that is written changes what is at its own place, and nothing
  else.
* `World.read_of_write`: what is written to a file is what is read of it.
-/

namespace ProgramDiagram.CommandLine

namespace Location

variable {l folder outer : Location}

theorem isInside_iff :
    l.isInside folder ↔ l.fromRoot = folder.fromRoot ∧ l.above = folder.above ∧
      folder.names <:+ l.names ∧ folder.names.length < l.names.length := by
  simp [isInside, and_assoc]

theorem isInside_trans (h : l.isInside folder) (houter : folder.isInside outer) :
    l.isInside outer := by
  rw [isInside_iff] at *
  obtain ⟨hroot, habove, hnames, hlength⟩ := h
  obtain ⟨hroot', habove', hnames', hlength'⟩ := houter
  exact ⟨hroot.trans hroot', habove.trans habove', hnames'.trans hnames, by omega⟩

/-- The folders around a place in a folder are that folder and those around it. -/
theorem eq_or_isInside_of_child {name : String}
    (h : isInside { folder with names := name :: folder.names } outer) :
    outer = folder ∨ folder.isInside outer := by
  obtain ⟨hroot, habove, hnames, hlength⟩ := isInside_iff.1 h
  rw [List.length_cons] at hlength
  rcases List.suffix_cons_iff.1 hnames with heq | hnames
  · rw [heq, List.length_cons] at hlength
    omega
  · rcases Nat.lt_or_eq_of_le (Nat.le_of_lt_succ hlength) with hlt | heq
    · exact .inr (isInside_iff.2 ⟨hroot, habove, hnames, hlt⟩)
    · left
      cases outer
      cases folder
      simp only at hroot habove hnames heq
      rw [hroot, habove, hnames.eq_of_length heq]

theorem isCommonFolder_iff :
    isCommonFolder l ↔ l.names = [] ∨ (∃ name ∈ rootFolders, l = ⟨true, 0, [name]⟩) ∨
      ∃ d ∈ devicePlaces, d.1.isInside l := by
  simp [isCommonFolder, or_assoc]

theorem isCommonFolder_of_isInside (hfolder : isCommonFolder folder)
    (h : folder.isInside outer) : isCommonFolder outer := by
  rw [isCommonFolder_iff] at *
  rcases hfolder with hnames | ⟨name, -, rfl⟩ | ⟨d, hd, hinside⟩
  · rw [isInside_iff, hnames] at h
    exact absurd h.2.2.2 (Nat.not_lt_zero _)
  · -- only the root is around a folder at the root
    have hlength : outer.names.length < 1 := (isInside_iff.1 h).2.2.2
    exact .inl (List.length_eq_zero_iff.1 (by omega))
  · exact .inr (.inr ⟨d, hd, isInside_trans hinside h⟩)

end Location

namespace World

variable {w : World} {l folder outer place : Location} {content text : String}

theorem isFolder_iff : w.isFolder l ↔ isCommonFolder l ∨ ∃ f ∈ w.files, f.1.isInside l := by
  simp [isFolder]

/-- What is around a folder is a folder. -/
theorem isFolder_of_isInside (hfolder : w.isFolder folder) (h : folder.isInside outer) :
    w.isFolder outer := by
  rw [isFolder_iff] at *
  rcases hfolder with hcommon | ⟨f, hf, hinside⟩
  · exact .inl (Location.isCommonFolder_of_isInside hcommon h)
  · exact .inr ⟨f, hf, Location.isInside_trans hinside h⟩

/-! ## A file that is written -/

theorem any_replaceFile (p : Location → Bool) (files : List (Location × String)) :
    (replaceFile l content files).any (p ·.1) = (files.any (p ·.1) || p l) := by
  induction files with
  | nil => simp [replaceFile]
  | cons f files ih =>
    obtain ⟨place, old⟩ := f
    rw [replaceFile]
    split
    · rename_i heq
      subst heq
      simp [Bool.or_comm]
    · rw [List.any_cons, ih, List.any_cons, Bool.or_assoc]

theorem lookup_replaceFile (files : List (Location × String)) :
    (replaceFile l content files).lookup place =
      if place = l then some content else files.lookup place := by
  have other {first : Location} {old : String} {rest : List (Location × String)}
      (h : place ≠ first) : ((first, old) :: rest).lookup place = rest.lookup place := by
    rw [List.lookup_cons, beq_false_of_ne h]
  induction files with
  | nil =>
    rw [replaceFile]
    split
    · rename_i h
      rw [h, List.lookup_cons_self]
    · rename_i h
      exact other h
  | cons f files ih =>
    obtain ⟨first, old⟩ := f
    rw [replaceFile]
    by_cases hfirst : first = l <;> by_cases h : place = l
    · rw [if_pos hfirst, if_pos h, hfirst, h, List.lookup_cons_self]
    · rw [if_pos hfirst, if_neg h, hfirst, other h, other h]
    · rw [if_neg hfirst, other (h ▸ Ne.symm hfirst), ih]
      simp only [h, if_true]
    · rw [if_neg hfirst, if_neg h]
      by_cases hplace : place = first
      · rw [hplace, List.lookup_cons_self, List.lookup_cons_self]
      · rw [other hplace, other hplace, ih, if_neg h]

/-- The world after a file is written. -/
abbrev withFile (w : World) (l : Location) (content : String) : World :=
  { w with files := replaceFile l content w.files }

/-- A place that is free or has a file. -/
def TakesFile (w : World) (l : Location) : Prop :=
  w.entry? l = none ∨ ∃ old, w.entry? l = some (.file old)

theorem TakesFile.eq_file {entry : Entry} (h : w.TakesFile l) (hentry : w.entry? l = some entry) :
    ∃ old, entry = .file old := by
  rcases h with hnone | ⟨old, hold⟩
  · cases hnone.symm.trans hentry
  · exact ⟨old, Option.some.inj (hentry.symm.trans hold)⟩

/-- A place in a folder that is free or has a file. -/
structure IsFilePlace (w : World) (l : Location) : Prop where
  free : w.TakesFile l
  inFolder : ∀ outer, l.isInside outer → w.isFolder outer

theorem isFolder_withFile (h : w.IsFilePlace l) :
    (w.withFile l content).isFolder place = w.isFolder place := by
  have hnew : (w.withFile l content).isFolder place = (w.isFolder place || l.isInside place) := by
    simp only [isFolder, any_replaceFile (·.isInside place), Bool.or_assoc]
  cases hinside : l.isInside place with
  | false => rw [hnew, hinside, Bool.or_false]
  | true => rw [hnew, h.inFolder place hinside, Bool.true_or]

theorem entry?_withFile (h : w.IsFilePlace l) :
    World.entry? (w.withFile l content) place =
      if place = l then some (.file content) else w.entry? place := by
  have hfolder : w.isFolder l = false := by
    cases hfolder : w.isFolder l with
    | false => rfl
    | true =>
      have hentry : w.entry? l = some .folder := by simp [hfolder, entry?]
      obtain ⟨_, hfile⟩ := h.free.eq_file hentry
      cases hfile
  have hdevice : deviceAt? l = none := by
    cases hdevice : deviceAt? l with
    | none => rfl
    | some device =>
      have hentry : w.entry? l = some (.device device) := by simp [hfolder, hdevice, entry?]
      obtain ⟨_, hfile⟩ := h.free.eq_file hentry
      cases hfile
  simp only [isFolder_withFile h, content?, lookup_replaceFile, entry?]
  by_cases heq : place = l
  · subst heq
    simp [hfolder, hdevice]
  · simp only [if_neg heq]

/-! ## Where paths lead -/

section Paths

variable {w' : World} {parent : Location}

theorem folder_eq_ok_iff : w.folder l = .ok place ↔ w.isFolder l ∧ place = l := by
  have hentry : w.isFolder l ↔ w.entry? l = some .folder := by
    unfold entry?
    split
    · rename_i h
      simp [h]
    · rename_i h
      split <;> simp [h]
  rw [hentry, folder]
  split
  · rename_i h
    simp [h, eq_comm]
  · rename_i entry hother h
    have hne : entry ≠ .folder := hother
    simp [h, hne]
  · rename_i h
    simp [h]

theorem enter_eq_ok_iff {step : String} :
    w.enter l step = .ok place ↔
      w.isFolder l ∧ step.utf8ByteSize ≤ longestStep ∧ place = l.enter step := by
  rw [enter]
  cases hfolder : w.folder l with
  | error e =>
    have hnot : ¬ w.isFolder l := fun h => by
      rw [folder_eq_ok_iff.2 ⟨h, rfl⟩] at hfolder
      cases hfolder
    simp [bind, Except.bind, hnot]
  | ok k =>
    obtain ⟨h, rfl⟩ := folder_eq_ok_iff.1 hfolder
    simp only [bind, Except.bind, h, true_and]
    split
    · rename_i hsize
      simp [Nat.not_le.2 hsize]
    · rename_i hsize
      simp [Nat.not_lt.1 hsize, eq_comm]

theorem foldlM_enter_congr (hfolders : ∀ k, w'.isFolder k = w.isFolder k) {steps : List String}
    (h : steps.foldlM w.enter l = .ok place) : steps.foldlM w'.enter l = .ok place := by
  induction steps generalizing l with
  | nil => exact h
  | cons step steps ih =>
    rw [List.foldlM_cons] at *
    cases hstep : w.enter l step with
    | error e =>
      rw [hstep] at h
      cases h
    | ok k =>
      rw [hstep] at h
      have hstep' : w'.enter l step = .ok k := by
        rw [enter_eq_ok_iff] at *
        rwa [hfolders]
      rw [hstep']
      exact ih h

/-- What a path for writing is made of that leads to a place. -/
theorem exists_of_target (h : w.target text = .ok l) :
    ∃ p last parent, path text = .ok p ∧ p.steps.getLast? = some last ∧
      spellsFolder p last = false ∧ w.follow p p.steps.dropLast = .ok parent ∧
      w.enter parent last = .ok l := by
  rw [target] at h
  cases hpath : path text with
  | error e =>
    rw [hpath] at h
    cases h
  | ok p =>
    rw [hpath] at h
    simp only [bind, Except.bind] at h
    split at h
    · cases h
    · rename_i last hlast
      cases hfollow : w.follow p p.steps.dropLast with
      | error e => simp [hfollow] at h
      | ok parent =>
        simp only [hfollow] at h
        cases hparent : w.folder parent with
        | error e => simp [hparent] at h
        | ok k =>
          obtain ⟨-, rfl⟩ := folder_eq_ok_iff.1 hparent
          simp only [hparent] at h
          split at h
          · cases h
          · rename_i hspells
            exact ⟨p, last, k, rfl, hlast, Bool.eq_false_iff.2 hspells, hfollow, h⟩

theorem isFilePlace_of_target (h : w.target text = .ok l)
    (hfree : w.TakesFile l) : w.IsFilePlace l := by
  refine ⟨hfree, fun outer hinside => ?_⟩
  obtain ⟨p, last, parent, -, -, hspells, -, henter⟩ := exists_of_target h
  obtain ⟨hparent, -, rfl⟩ := enter_eq_ok_iff.1 henter
  simp only [spellsFolder, Bool.or_eq_false_iff, decide_eq_false_iff_not] at hspells
  have hl : parent.enter last = { parent with names := last :: parent.names } := by
    rw [Location.enter, if_neg hspells.1.2, if_neg hspells.2]
  rw [hl] at hinside
  rcases Location.eq_or_isInside_of_child hinside with rfl | houter
  · exact hparent
  · exact isFolder_of_isInside hparent houter

/-- A file takes the beginning of a content for which there is room. -/
theorem write_of_takesFile (htarget : w.target text = .ok l) (h : w.TakesFile l) :
    w.write text content =
      ((written (w.fileLimit l) content).1, w.withFile l (written (w.fileLimit l) content).2) := by
  simp only [write, htarget]
  rcases h with hnone | ⟨old, hold⟩
  · rw [hnone]
    rfl
  · rw [hold]
    rfl

/-- What is written to a file is what is read of it. -/
theorem read_withFile (htarget : w.target text = .ok l) (h : w.IsFilePlace l) :
    (w.withFile l content).read text = (.ok content, w.withFile l content) := by
  obtain ⟨p, last, parent, hpath, hlast, hspells, hfollow, henter⟩ := exists_of_target htarget
  have hsteps : p.steps = p.steps.dropLast ++ [last] := by
    obtain ⟨before, hbefore⟩ := List.getLast?_eq_some_iff.1 hlast
    rw [hbefore, List.dropLast_concat]
  have hwhole : w.follow p p.steps = .ok l := by
    rw [follow, hsteps, List.foldlM_append, ← follow, hfollow]
    exact (bind_pure (w.enter parent last)).trans henter
  have hfollow' : (w.withFile l content).follow p p.steps = .ok l :=
    foldlM_enter_congr (fun _ => isFolder_withFile h) hwhole
  have hlookUp : (w.withFile l content).lookUp text = .ok (.file content) := by
    simp only [lookUp, hpath, bind, Except.bind, hfollow', entry?_withFile h, if_pos]
    simp only [spellsFolder, Bool.or_eq_false_iff] at hspells
    rw [hspells.1.1]
    rfl
  rw [read, hlookUp]

end Paths

end World

end ProgramDiagram.CommandLine
