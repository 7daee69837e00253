import Mathlib.Tactic.SplitIfs
import ProgramDiagram.Proofs.Number.Texts

/-!
# The shortest text of a number is finite

* `shortest_lt`: the shortest decimal of a magnitude lies below the numbers that are too large;
* `exists_read?_plainText`: so the text of any number reads as a finite number.
-/

namespace ProgramDiagram

theorem tenTo_le {m n : Nat} (h : m ≤ n) : tenTo m ≤ tenTo n :=
  Nat.pow_le_pow_right (by decide) h

namespace Decimal

/-- Whether a decimal is read as a finite number. -/
def InRange (d : Decimal) : Prop := d.quotient.1 < Magnitude.halfwayUnits * d.quotient.2

theorem InRange.congr {d e : Decimal} (h : d.InRange) (heq : e.quotient = d.quotient) :
    e.InRange := by
  rw [InRange, heq]
  exact h

/-- Dropping a zero reduces the quotient at most. -/
theorem exists_quotient_eq {d : Decimal} (h : d.digits % 10 = 0) :
    ∃ c, 0 < c ∧ d.quotient.1 = c * (quotient ⟨d.digits / 10, d.exponent + 1⟩).1 ∧
      d.quotient.2 = c * (quotient ⟨d.digits / 10, d.exponent + 1⟩).2 := by
  obtain ⟨digits, exponent⟩ := d
  obtain ⟨k, rfl⟩ : ∃ k, digits = 10 * k := ⟨digits / 10, by simp only at h; omega⟩
  have hk : 10 * k / 10 = k := by omega
  simp only [hk]
  cases exponent with
  | ofNat e =>
    -- a power of ten is moved into the scale
    have hscale : tenTo (e + 1) = tenTo e * 10 := Nat.pow_succ 10 e
    refine ⟨1, Nat.one_pos, ?_, rfl⟩
    show 10 * k * tenTo e * unitsPerOne = 1 * (k * tenTo (e + 1) * unitsPerOne)
    rw [hscale, Nat.one_mul, Nat.mul_comm 10 k, Nat.mul_assoc k, Nat.mul_comm 10 (tenTo e)]
  | negSucc e =>
    refine ⟨10, by decide, ?_, ?_⟩
    · cases e with
      | zero =>
        show 10 * k * unitsPerOne = 10 * (k * tenTo 0 * unitsPerOne)
        have hscale : tenTo 0 = 1 := rfl
        rw [hscale, Nat.mul_one, Nat.mul_assoc]
      | succ e => exact Nat.mul_assoc 10 k unitsPerOne
    · have hscale : tenTo (e + 1) = 10 * tenTo e := Nat.pow_succ'
      cases e with
      | zero => rfl
      | succ e => exact hscale

theorem InRange.stripZeros (fuel : Nat) {d : Decimal} (h : d.InRange) :
    (d.stripZeros fuel).InRange := by
  induction fuel generalizing d with
  | zero => exact h
  | succ fuel ih =>
    rw [Decimal.stripZeros]
    split
    · rename_i hzero
      apply ih
      obtain ⟨c, hc, hnumerator, hdenominator⟩ := exists_quotient_eq hzero
      rw [InRange, hnumerator, hdenominator, Nat.mul_left_comm] at h
      exact Nat.lt_of_mul_lt_mul_left h
    · exact h

theorem not_inRange_of_exponent {digits : Nat} {exponent : Int} (hdigits : digits ≠ 0)
    (h : 310 < exponent) : ¬ InRange ⟨digits, exponent⟩ := by
  obtain ⟨e, rfl⟩ : ∃ e : Nat, exponent = .ofNat e := ⟨exponent.toNat, by simp; omega⟩
  have hpower : twoTo 1024 ≤ tenTo e := by
    have hlarge : (310 : Int) < e := h
    calc twoTo 1024 ≤ tenTo 311 := by decide +kernel
      _ ≤ tenTo e := tenTo_le (by omega)
  have hover : overflowUnits ≤ digits * tenTo e * unitsPerOne := by
    calc overflowUnits = twoTo 1024 * unitsPerOne := by
          rw [overflowUnits, unitsPerOne, ← twoTo_add]
      _ ≤ tenTo e * unitsPerOne := Nat.mul_le_mul_right _ hpower
      _ ≤ digits * tenTo e * unitsPerOne :=
        Nat.mul_le_mul_right _ (Nat.le_mul_of_pos_left _ (Nat.pos_of_ne_zero hdigits))
  have := Magnitude.halfwayUnits_lt
  show ¬ digits * tenTo e * unitsPerOne < Magnitude.halfwayUnits * 1
  omega

theorem isNumeral_text (d : Decimal) : d.text.toList.all isNumeral := by
  have hdigits := isDigit_toDigits d.digits
  have htake : ∀ n, ((Nat.toDigits 10 d.digits).take n).all isNumeral :=
    fun n => isNumeral_of_isDigit fun c hc => hdigits c (List.mem_of_mem_take hc)
  have hdrop : ∀ n, ((Nat.toDigits 10 d.digits).drop n).all isNumeral :=
    fun n => isNumeral_of_isDigit fun c hc => hdigits c (List.mem_of_mem_drop hc)
  have hzeros : ∀ n, (List.replicate n '0').all isNumeral :=
    fun n => isNumeral_of_isDigit (isDigit_replicate_zero n)
  have hrepr : ∀ n, (Nat.repr n).toList.all isNumeral := by
    intro n
    rw [Nat.toList_repr]
    exact isNumeral_of_isDigit (isDigit_toDigits n)
  have hmarks : isNumeral '.' ∧ "0.".toList.all isNumeral ∧ "e-".toList.all isNumeral ∧
      "e+".toList.all isNumeral := by decide
  unfold text
  simp only
  split_ifs <;>
    simp only [String.toList_append, String.toList_ofList, List.all_append, List.all_cons, hrepr,
      isNumeral_of_isDigit hdigits, htake, hdrop, hzeros, hmarks, Bool.and_self]

end Decimal

namespace Magnitude

variable (m : Magnitude)

/-- A magnitude and half of its last place do not lie beyond halfway, and only with an odd
significand they lie there. -/
theorem two_mul_units_add_le :
    2 * m.units + lastPlace m.units ≤ 2 * halfwayUnits ∧
      (m.units / lastPlace m.units % 2 = 0 →
        2 * m.units + lastPlace m.units < 2 * halfwayUnits) := by
  have hpos : 0 < lastPlace m.units := twoTo_pos _
  by_cases hlog : m.units.log2 = 2097
  · have hplace : lastPlace m.units = twoTo 2045 := by rw [lastPlace, hlog]
    obtain ⟨k, hk⟩ := m.lastPlace_dvd
    have hlt := m.units_lt
    rw [hplace] at hk hpos ⊢
    rw [hk] at hlt ⊢
    have hk : k < twoTo 53 := by
      rw [overflowUnits_eq, Nat.mul_comm (twoTo 53)] at hlt
      exact Nat.lt_of_mul_lt_mul_left hlt
    have heven : twoTo 53 % 2 = 0 := by decide
    have hdouble : twoTo 54 = 2 * twoTo 53 := by decide
    have hsum : 2 * (twoTo 2045 * k) + twoTo 2045 = (2 * k + 1) * twoTo 2045 := by
      rw [Nat.add_mul, Nat.one_mul, Nat.mul_assoc, Nat.mul_comm k]
    rw [two_mul_halfwayUnits, hsum, Nat.mul_div_cancel_left _ hpos]
    refine ⟨Nat.mul_le_mul_right _ (by omega), fun hodd => ?_⟩
    exact Nat.mul_lt_mul_of_pos_right (by omega) hpos
  · have hlow : m.units.log2 < 2097 := by
      by_cases hzero : m.units = 0
      · simp [hzero]
      · have hlt : m.units.log2 < 2098 := log2_lt_of_lt_twoTo hzero m.units_lt
        omega
    have hsum : m.units + lastPlace m.units ≤ twoTo 2097 := by
      have hlt : m.units < twoTo 2097 :=
        Nat.lt_of_lt_of_le (lt_twoTo_log2_succ _) (twoTo_le hlow)
      have hplace : lastPlace m.units ∣ twoTo 2097 := twoTo_dvd (by omega)
      have hle := Nat.le_of_dvd (Nat.sub_pos_of_lt hlt) (Nat.dvd_sub hplace m.lastPlace_dvd)
      omega
    have hhalf : 2 * twoTo 2097 ≤ 2 * halfwayUnits := by
      have hdouble : 2 * twoTo 2097 = overflowUnits := (twoTo_succ 2097).symm
      rw [hdouble, two_mul_halfwayUnits, overflowUnits_eq]
      exact Nat.mul_le_mul_right _ (by decide)
    constructor
    · omega
    · intro _
      omega

theorem units_lt_halfway : m.units < halfwayUnits := by
  have hpos : 0 < lastPlace m.units := twoTo_pos _
  have := m.two_mul_units_add_le.1
  omega

variable {m}

theorem inRange_of_readsBack {d : Decimal} (h : m.readsBack d) : d.InRange := by
  obtain ⟨hle, heven⟩ := m.two_mul_units_add_le
  have hpos := d.quotient_pos
  simp only [readsBack, Bool.and_eq_true, Bool.or_eq_true, beq_iff_eq, Decimal.compareUnits_eq,
    Nat.compare_eq_lt, Nat.compare_eq_eq] at h
  have hbound : (4 * m.units + 2 * lastPlace m.units) * d.quotient.2 ≤
      4 * (halfwayUnits * d.quotient.2) := by
    rw [← Nat.mul_assoc]
    exact Nat.mul_le_mul_right _ (by omega)
  unfold Decimal.InRange
  rcases h.2 with hlt | ⟨hsignificand, heq⟩
  · omega
  · have hstrict : (4 * m.units + 2 * lastPlace m.units) * d.quotient.2 <
        4 * (halfwayUnits * d.quotient.2) := by
      have := heven hsignificand
      rw [← Nat.mul_assoc]
      exact Nat.mul_lt_mul_of_pos_right (by omega) hpos
    omega

theorem inRange_floorAt (e : Int) : Decimal.InRange ⟨m.floorAt e, e⟩ := by
  have hlt := m.units_lt_halfway
  cases e with
  | ofNat k =>
    have hle : m.floorAt (.ofNat k) * (tenTo k * unitsPerOne) ≤ m.units := Nat.div_mul_le_self ..
    show m.floorAt (.ofNat k) * tenTo k * unitsPerOne < halfwayUnits * 1
    rw [Nat.mul_assoc, Nat.mul_one]
    exact Nat.lt_of_le_of_lt hle hlt
  | negSucc k =>
    have hle : m.floorAt (.negSucc k) * unitsPerOne ≤ m.units * tenTo (k + 1) :=
      Nat.div_mul_le_self ..
    show m.floorAt (.negSucc k) * unitsPerOne < halfwayUnits * tenTo (k + 1)
    exact Nat.lt_of_le_of_lt hle (Nat.mul_lt_mul_of_pos_right hlt (tenTo_pos _))

theorem readsBack_of_onGrid? {e : Int} {d : Decimal} (h : m.onGrid? e = some d) :
    m.readsBack d := by
  simp only [onGrid?] at h
  split at h
  · rename_i hbelow _
    exact Option.some.inj h ▸ hbelow
  · rename_i _ habove
    exact Option.some.inj h ▸ habove
  · cases h
  · rename_i hbelow habove
    split at h
    · exact Option.some.inj h ▸ hbelow
    · exact Option.some.inj h ▸ habove
    · split at h
      · exact Option.some.inj h ▸ hbelow
      · exact Option.some.inj h ▸ habove

/-- The shortest decimal is on a grid, or what is left of the digits that there are. -/
theorem inRange_shortest : m.shortest.InRange := by
  apply Decimal.InRange.stripZeros
  cases hfound : (List.range 17).findSome? fun (n : Nat) => m.onGrid? (m.scale - (n + 1 : Nat)) with
  | none => exact inRange_floorAt _
  | some d =>
    obtain ⟨n, -, hd⟩ := List.exists_of_findSome?_eq_some hfound
    exact inRange_of_readsBack (readsBack_of_onGrid? hd)

end Magnitude

namespace Binary64

theorem isFinite_ofDecimal (negative : Bool) {d : Decimal} (h : d.InRange) :
    (ofDecimal negative d).isFinite := by
  have hunits : ∀ n k, 0 < k → n < Magnitude.halfwayUnits * k →
      (ofUnits negative n k).isFinite := by
    intro n k hk hn
    rw [ofUnits, Magnitude.nearest, dif_pos ⟨hk, Magnitude.roundUnits_lt hk hn⟩]
    rfl
  obtain ⟨digits, exponent⟩ := d
  rw [ofDecimal]
  by_cases hzero : digits = 0
  · rw [if_pos hzero]
    rfl
  rw [if_neg hzero]
  by_cases hlarge : 310 < exponent
  · exact absurd h (Decimal.not_inRange_of_exponent hzero hlarge)
  rw [if_neg hlarge]
  split
  · rfl
  · cases exponent with
    | ofNat e => exact hunits _ _ Nat.one_pos h
    | negSucc e => exact hunits _ _ (tenTo_pos _) h

/-- The text of a number reads as a finite number. -/
theorem exists_read?_plainText (x : Binary64) :
    ∃ y, read? x.plainText = some y ∧ y.isFinite := by
  rw [plainText]
  split
  · rename_i hfinite
    cases x with
    | nan | infinite => cases hfinite
    | finite negative m =>
      have hunits : m.units ≠ 0 := by simpa [isZero, isFinite] using hfinite
      obtain ⟨d, hread, hvalue⟩ := m.shortest.exists_read?_text
      have hrange := Magnitude.inRange_shortest.congr hvalue
      rw [text, unsignedText, if_neg hunits]
      cases negative with
      | false => exact ⟨_, read?_unsigned hread, isFinite_ofDecimal false hrange⟩
      | true => exact ⟨_, read?_negative hread, isFinite_ofDecimal true hrange⟩
  · exact ⟨zero, by decide, rfl⟩

theorem isNumeral_plainText (x : Binary64) : x.plainText.toList.all isNumeral := by
  have hunsigned : ∀ m, (unsignedText m).toList.all isNumeral := by
    intro m
    rw [unsignedText]
    split
    · decide
    · exact m.shortest.isNumeral_text
  rw [plainText]
  split
  · rename_i hfinite
    cases x with
    | nan | infinite => cases hfinite
    | finite negative m =>
      cases negative with
      | false => exact hunsigned m
      | true =>
        rw [text, if_pos rfl, String.toList_append, List.all_append, hunsigned]
        decide
  · decide

end Binary64

end ProgramDiagram
