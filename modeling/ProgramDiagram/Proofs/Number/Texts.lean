import ProgramDiagram.Number.Shortest
import ProgramDiagram.Proofs.Number.Rounding
import ProgramDiagram.Proofs.Text.Lines

/-!
# The texts of numbers

* `isFixed`: a sign if there is one, digits, a point and one digit, and no zero with a sign;
* `isFixed_fixedText`: lengths are written so;
* `exists_read?_plainText`: other numbers are written as decimals that read as finite numbers.
-/

namespace ProgramDiagram

/-! ## Digits -/

theorem digitsValue_toDigits (n : Nat) : digitsValue (Nat.toDigits 10 n) = n :=
  Nat.ofDigitChars_toDigits (by decide) (by decide)

theorem digitsValue_append (as bs : List Char) :
    digitsValue (as ++ bs) = tenTo bs.length * digitsValue as + digitsValue bs := by
  rw [digitsValue, Nat.ofDigitChars_append, Nat.ofDigitChars_eq_ofDigitChars_zero]
  rfl

theorem digitsValue_zeros (n : Nat) : digitsValue (List.replicate n '0') = 0 := by
  rw [digitsValue, Nat.ofDigitChars_replicate_zero, Nat.mul_zero]

theorem isDigit_toDigits (n : Nat) : ∀ c ∈ Nat.toDigits 10 n, c.isDigit = true := by
  intro c hc
  exact Nat.isDigit_of_mem_toDigits (by decide) (by decide) hc

theorem isDigit_replicate_zero (n : Nat) : ∀ c ∈ List.replicate n '0', c.isDigit = true := by
  intro c hc
  rw [List.eq_of_mem_replicate hc]
  rfl

/-- A number other than zero has a digit other than zero. -/
theorem exists_digit_ne_zero {n : Nat} (h : n ≠ 0) : ∃ c ∈ Nat.toDigits 10 n, c ≠ '0' := by
  by_contra hnone
  push Not at hnone
  have hzeros := List.eq_replicate_of_mem hnone
  have hvalue := digitsValue_toDigits n
  rw [hzeros, digitsValue_zeros] at hvalue
  exact h hvalue.symm

/-- The characters that numbers are written with. -/
def isNumeral (c : Char) : Bool := c.isDigit || c ∈ ['-', '+', '.', 'e']

theorem isNumeral_of_isDigit {cs : List Char} (h : ∀ c ∈ cs, c.isDigit = true) :
    cs.all isNumeral := by
  rw [List.all_eq_true]
  intro c hc
  simp [isNumeral, h c hc]

theorem spanDigits_append {digits rest : List Char} (h : ∀ c ∈ digits, c.isDigit = true)
    (hrest : ∀ c ∈ rest.head?, c.isDigit = false) :
    spanDigits (digits ++ rest) = (digits, rest) := by
  rw [spanDigits, List.takeWhile_append_of_pos h, List.dropWhile_append_of_pos h]
  cases rest with
  | nil => simp
  | cons c rest =>
    have hc := hrest c rfl
    simp [hc]

/-! ## Reading decimals -/

namespace Decimal

/-- What may stand behind the digits of a decimal, and the power of ten that it scales them by. -/
inductive Scales : List Char → Int → Prop where
  | nothing : Scales [] 0
  | exponent {r : List Char} {e : Int} (h : readExponent? r = some e) : Scales ('e' :: r) e

theorem Scales.stops {rest : List Char} {e : Int} (h : Scales rest e) :
    ∀ c ∈ rest.head?, c.isDigit = false := by
  cases h <;> simp

theorem scales_exponent (e : Int) :
    Scales ((if e < 0 then "e-" else "e+").toList ++ Nat.toDigits 10 e.natAbs) e := by
  have hdigits : (Nat.toDigits 10 e.natAbs).all Char.isDigit :=
    List.all_eq_true.2 (isDigit_toDigits _)
  have hnatural : readExponent?.natural? (Nat.toDigits 10 e.natAbs) = some (e.natAbs : Int) := by
    rw [readExponent?.natural?, digitsValue_toDigits, if_neg]
    simp [Nat.toDigits_ne_nil, hdigits]
  by_cases h : e < 0
  · have hvalue : -(e.natAbs : Int) = e := by omega
    rw [if_pos h]
    show Scales ('e' :: '-' :: Nat.toDigits 10 e.natAbs) e
    exact .exponent (by rw [readExponent?, hnatural, Option.map_some, hvalue])
  · have hvalue : (e.natAbs : Int) = e := by omega
    rw [if_neg h]
    show Scales ('e' :: '+' :: Nat.toDigits 10 e.natAbs) e
    exact .exponent (by rw [readExponent?, hnatural, Option.map_some, hvalue])

section Reading

variable {whole fraction rest : List Char} {e : Int}

theorem read?_whole (hwhole : ∀ c ∈ whole, c.isDigit = true) (hne : whole ≠ [])
    (hrest : Scales rest e) : read? (whole ++ rest) = some ⟨digitsValue whole, e⟩ := by
  have hspan := spanDigits_append hwhole hrest.stops
  cases hrest with
  | nothing => simp_all [read?]
  | exponent h => simp [read?, hspan, hne, h]

theorem read?_point (hwhole : ∀ c ∈ whole, c.isDigit = true) (hne : whole ≠ [])
    (hfraction : ∀ c ∈ fraction, c.isDigit = true) (hrest : Scales rest e) :
    read? (whole ++ '.' :: (fraction ++ rest)) =
      some ⟨digitsValue (whole ++ fraction), e - fraction.length⟩ := by
  have hspan : spanDigits (whole ++ '.' :: (fraction ++ rest)) =
      (whole, '.' :: (fraction ++ rest)) := spanDigits_append hwhole (by simp)
  have hfractionSpan := spanDigits_append hfraction hrest.stops
  cases hrest with
  | nothing => simp_all [read?]
  | exponent h => simp [read?, hspan, hfractionSpan, hne, h]

variable (hdigits : ∀ c ∈ whole, c.isDigit = true) (hne : whole ≠ [])

include hdigits hne

theorem read?_padded (n : Nat) :
    read? (whole ++ List.replicate n '0') = some ⟨digitsValue whole * tenTo n, 0⟩ := by
  have hall := List.forall_mem_append.2 ⟨hdigits, isDigit_replicate_zero n⟩
  have hread := read?_whole hall (List.append_ne_nil_of_left_ne_nil hne _) .nothing
  have hvalue : digitsValue (whole ++ List.replicate n '0') = digitsValue whole * tenTo n := by
    rw [digitsValue_append, digitsValue_zeros, List.length_replicate, Nat.add_zero, Nat.mul_comm]
  rwa [List.append_nil, hvalue] at hread

theorem read?_cut {n : Nat} (hn : 0 < n) (hrest : Scales rest e) :
    read? (whole.take n ++ '.' :: (whole.drop n ++ rest)) =
      some ⟨digitsValue whole, e - (whole.length - n : Nat)⟩ := by
  have htake : whole.take n ≠ [] := by
    intro hnil
    rw [List.take_eq_nil_iff] at hnil
    exact hnil.elim (Nat.ne_of_gt hn) hne
  have hfirst : ∀ c ∈ whole.take n, c.isDigit = true :=
    fun c hc => hdigits c (List.mem_of_mem_take hc)
  have hlast : ∀ c ∈ whole.drop n, c.isDigit = true :=
    fun c hc => hdigits c (List.mem_of_mem_drop hc)
  have hread := read?_point hfirst htake hlast hrest
  rwa [List.take_append_drop, List.length_drop] at hread

omit hne in
theorem read?_small (n : Nat) :
    read? (['0'] ++ '.' :: (List.replicate n '0' ++ whole)) =
      some ⟨digitsValue whole, -(n + whole.length : Nat)⟩ := by
  have hfirst : ∀ c ∈ ['0'], c.isDigit = true := List.forall_mem_singleton.2 rfl
  have hall := List.forall_mem_append.2 ⟨isDigit_replicate_zero n, hdigits⟩
  have hread := read?_point hfirst (by simp) hall .nothing
  have hvalue : digitsValue (['0'] ++ (List.replicate n '0' ++ whole)) = digitsValue whole := by
    have hzero : digitsValue ['0'] = 0 := rfl
    rw [digitsValue_append, digitsValue_append, digitsValue_zeros, hzero, Nat.mul_zero,
      Nat.mul_zero, Nat.zero_add, Nat.zero_add]
  rw [List.append_nil, hvalue, List.length_append, List.length_replicate, Int.zero_sub] at hread
  exact hread

end Reading

/-- The value of a decimal in units, as a quotient. -/
def quotient (d : Decimal) : Nat × Nat :=
  match d.exponent with
  | .ofNat e => (d.digits * tenTo e * unitsPerOne, 1)
  | .negSucc e => (d.digits * unitsPerOne, tenTo (e + 1))

theorem quotient_pos (d : Decimal) : 0 < d.quotient.2 := by
  unfold quotient
  split
  · exact Nat.one_pos
  · exact tenTo_pos _

theorem compareUnits_eq (d : Decimal) (n k : Nat) :
    d.compareUnits n k = compare (d.quotient.1 * k) (n * d.quotient.2) := by
  cases h : d.exponent <;> simp [compareUnits, quotient, h]

theorem quotient_padded (digits n : Nat) :
    quotient ⟨digits * tenTo n, 0⟩ = quotient ⟨digits, n⟩ := by
  have hone : tenTo 0 = 1 := rfl
  show (digits * tenTo n * tenTo 0 * unitsPerOne, 1) = (digits * tenTo n * unitsPerOne, 1)
  rw [hone, Nat.mul_one]

/-- The text of a decimal reads as a decimal with the same value. -/
theorem exists_read?_text (d : Decimal) :
    ∃ e, read? d.text.toList = some e ∧ e.quotient = d.quotient := by
  have hdigits := isDigit_toDigits d.digits
  have hne : Nat.toDigits 10 d.digits ≠ [] := Nat.toDigits_ne_nil
  have hvalue := digitsValue_toDigits d.digits
  unfold text
  generalize Nat.toDigits 10 d.digits = digits at hdigits hne hvalue
  have hlength : 0 < digits.length := List.length_pos_of_ne_nil hne
  have hself : ∀ e, e = d.exponent → (⟨digitsValue digits, e⟩ : Decimal).quotient = d.quotient := by
    rintro _ rfl
    rw [hvalue]
  simp only
  by_cases hwhole : (digits.length : Int) ≤ digits.length + d.exponent ∧
      digits.length + d.exponent ≤ 21
  · rw [if_pos hwhole, String.toList_ofList]
    refine ⟨_, read?_padded hdigits hne _, ?_⟩
    rw [quotient_padded]
    exact hself _ (by omega)
  rw [if_neg hwhole]
  by_cases hpoint : 0 < digits.length + d.exponent ∧ digits.length + d.exponent ≤ 21
  · have hpos : 0 < (digits.length + d.exponent).toNat := by omega
    have hread := read?_cut hdigits hne hpos .nothing
    rw [List.append_nil] at hread
    rw [if_pos hpoint, String.toList_ofList]
    exact ⟨_, hread, hself _ (by omega)⟩
  rw [if_neg hpoint]
  by_cases hsmall : -6 < digits.length + d.exponent ∧ digits.length + d.exponent ≤ 0
  · have hread := read?_small hdigits (-(digits.length + d.exponent)).toNat
    rw [if_pos hsmall, String.toList_append, String.toList_ofList (l := _ ++ digits)]
    exact ⟨_, hread, hself _ (by omega)⟩
  rw [if_neg hsmall, String.toList_append, String.toList_append, Nat.toList_repr,
    List.append_assoc, String.toList_ofList]
  have hscale := scales_exponent (digits.length + d.exponent - 1)
  by_cases hone : digits.length = 1
  · rw [if_pos hone]
    exact ⟨_, read?_whole hdigits hne hscale, hself _ (by omega)⟩
  · have hread := read?_cut hdigits hne Nat.one_pos hscale
    rw [if_neg hone, List.append_assoc, List.cons_append]
    exact ⟨_, hread, hself _ (by omega)⟩

end Decimal

/-! ## Lengths -/

/-- Digits, a point and one digit. -/
def isTenths (cs : List Char) : Bool :=
  let (whole, rest) := spanDigits cs
  !whole.isEmpty &&
    match rest with
    | ['.', digit] => digit.isDigit
    | _ => false

/-- A number to one decimal place. One with a sign has a digit other than zero. -/
def isFixed (text : String) : Bool :=
  match text.toList with
  | '-' :: cs => isTenths cs && cs.any fun c => c.isDigit && c != '0'
  | cs => isTenths cs

section Tenths

variable (t : Nat)

theorem toList_tenthsText :
    (tenthsText t).toList = Nat.toDigits 10 (t / 10) ++ '.' :: Nat.toDigits 10 (t % 10) := by
  simp [tenthsText, Nat.toList_repr]

theorem isNumeral_tenthsText : (tenthsText t).toList.all isNumeral := by
  rw [toList_tenthsText, List.all_append, List.all_cons, isNumeral_of_isDigit (isDigit_toDigits _),
    isNumeral_of_isDigit (isDigit_toDigits _)]
  decide

theorem isTenths_tenthsText : isTenths (tenthsText t).toList := by
  have hlast : Nat.toDigits 10 (t % 10) = [(t % 10).digitChar] := Nat.toDigits_of_lt_base (by omega)
  have hdigit := isDigit_toDigits (t % 10)
  have hspan : spanDigits (tenthsText t).toList =
      (Nat.toDigits 10 (t / 10), ['.', (t % 10).digitChar]) := by
    rw [toList_tenthsText, hlast]
    exact spanDigits_append (isDigit_toDigits _) (by simp)
  rw [hlast, List.forall_mem_singleton] at hdigit
  simp [isTenths, hspan, hdigit, Nat.toDigits_ne_nil]

theorem any_tenthsText (h : t ≠ 0) :
    (tenthsText t).toList.any fun c => c.isDigit && c != '0' := by
  have hpart : ∀ n, n ≠ 0 → (Nat.toDigits 10 n).any fun c => c.isDigit && c != '0' := by
    intro n hn
    obtain ⟨c, hc, hzero⟩ := exists_digit_ne_zero hn
    rw [List.any_eq_true]
    exact ⟨c, hc, by simp [isDigit_toDigits n c hc, hzero]⟩
  rw [toList_tenthsText, List.any_append, List.any_cons]
  by_cases hwhole : t / 10 = 0
  · rw [hpart (t % 10) (by omega)]
    simp
  · rw [hpart (t / 10) hwhole]
    simp

theorem head_tenthsText : ∃ c cs, (tenthsText t).toList = c :: cs ∧ c.isDigit := by
  cases hdigits : Nat.toDigits 10 (t / 10) with
  | nil => exact absurd hdigits Nat.toDigits_ne_nil
  | cons c cs =>
    have hc := isDigit_toDigits (t / 10) c (by simp [hdigits])
    exact ⟨c, _, by rw [toList_tenthsText, hdigits, List.cons_append], hc⟩

theorem read?_tenthsText : Decimal.read? (tenthsText t).toList = some ⟨t, -1⟩ := by
  have hread := Decimal.read?_point (isDigit_toDigits (t / 10)) Nat.toDigits_ne_nil
    (isDigit_toDigits (t % 10)) .nothing
  have hlast : (Nat.toDigits 10 (t % 10)).length = 1 := by
    rw [Nat.toDigits_of_lt_base (by omega)]
    rfl
  have hvalue : digitsValue (Nat.toDigits 10 (t / 10) ++ Nat.toDigits 10 (t % 10)) = t := by
    have hten : tenTo 1 = 10 := rfl
    rw [digitsValue_append, digitsValue_toDigits, digitsValue_toDigits, hlast, hten]
    omega
  rw [List.append_nil, hlast, hvalue] at hread
  rw [toList_tenthsText, hread]
  rfl

end Tenths

namespace Binary64

section Reading

variable {text : String} {d : Decimal}

theorem read?_unsigned (h : Decimal.read? text.toList = some d) :
    read? text = some (ofDecimal false d) := by
  have hminus : ∀ cs, text.toList ≠ '-' :: cs := by
    intro cs hcs
    rw [hcs] at h
    simp [Decimal.read?, spanDigits] at h
  have hplus : ∀ cs, text.toList ≠ '+' :: cs := by
    intro cs hcs
    rw [hcs] at h
    simp [Decimal.read?, spanDigits] at h
  rw [read?]
  split
  · exact absurd ‹_› (hminus _)
  · exact absurd ‹_› (hplus _)
  · rw [readUnsigned?, h]

theorem read?_negative (h : Decimal.read? text.toList = some d) :
    read? ("-" ++ text) = some (ofDecimal true d) := by
  have htext : ("-" ++ text).toList = '-' :: text.toList := by simp
  rw [read?, htext]
  show readUnsigned? true text.toList = _
  rw [readUnsigned?, h]

end Reading

theorem fixedText_cases (x : Binary64) :
    (∃ t, x.fixedText = tenthsText t) ∨ ∃ t, t ≠ 0 ∧ x.fixedText = "-" ++ tenthsText t := by
  cases x with
  | nan | infinite => exact .inl ⟨0, rfl⟩
  | finite negative m =>
    rw [fixedText]
    split
    · rename_i h
      simp only [Bool.and_eq_true, bne_iff_ne] at h
      exact .inr ⟨m.tenths, h.2, rfl⟩
    · exact .inl ⟨m.tenths, rfl⟩

/-- A length is written to one decimal place, and one that then is zero has no sign. -/
theorem isFixed_fixedText (x : Binary64) : isFixed x.fixedText := by
  rcases x.fixedText_cases with ⟨t, htext⟩ | ⟨t, ht, htext⟩
  · obtain ⟨c, cs, hcs, hc⟩ := head_tenthsText t
    have htenths := isTenths_tenthsText t
    have hminus : c ≠ '-' := by
      rintro rfl
      cases hc
    rw [hcs] at htenths
    rw [htext, isFixed, hcs]
    split
    · rename_i heq
      exact absurd (List.cons.inj heq).1 hminus
    · exact htenths
  · have hsign : ("-" ++ tenthsText t).toList = '-' :: (tenthsText t).toList := by simp
    rw [htext, isFixed, hsign]
    simp only [isTenths_tenthsText, any_tenthsText t ht, Bool.and_self]

example : isFixed "-0.3" ∧ ¬ isFixed "-0.0" ∧ ¬ isFixed "1e2" := by decide

theorem isNumeral_fixedText (x : Binary64) : x.fixedText.toList.all isNumeral := by
  rcases x.fixedText_cases with ⟨t, htext⟩ | ⟨t, -, htext⟩
  · rw [htext, isNumeral_tenthsText]
  · rw [htext, String.toList_append, List.all_append, isNumeral_tenthsText]
    rfl

end Binary64

end ProgramDiagram
