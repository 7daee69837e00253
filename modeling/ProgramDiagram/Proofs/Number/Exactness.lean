import ProgramDiagram.Proofs.Layout.Exact
import ProgramDiagram.Proofs.Number.Halves
import ProgramDiagram.Proofs.Number.Texts

/-!
# How exact written lengths are

A length should be written as the tenth nearest to its exact value, a half going away from zero.

* `spelled?`, `IsNearest`, `WrittenAs`: the number that a text spells, the number that it is rounded
  to, and what a length is written as;
* `writtenAs_tenths`: every length is written as some tenth and rounded to the number nearest to it;
* `tenth_value_iff`: when the tenths of a magnitude are the ones nearest to it.

The tenth is not always the nearest one: a half may go down or, among very large numbers, to the
next half of one.
-/

namespace ProgramDiagram

/-! ## Texts and numbers -/

/-- The exact value of a decimal. -/
def Decimal.value (d : Decimal) : ℚ := d.digits * 10 ^ d.exponent

/-- The number that a text spells, before it is rounded. -/
def spelled? (text : String) : Option ℚ :=
  match text.toList with
  | '-' :: cs => (Decimal.read? cs).map fun d => -d.value
  | cs => (Decimal.read? cs).map Decimal.value

theorem Decimal.value_tenths (t : ℕ) : Decimal.value ⟨t, -1⟩ = t / 10 := by
  rw [Decimal.value, zpow_neg_one, div_eq_mul_inv]

theorem spelled?_tenthsText (t : ℕ) : spelled? (tenthsText t) = some (t / 10 : ℚ) := by
  obtain ⟨c, cs, hcs, hdigit⟩ := head_tenthsText t
  rw [spelled?]
  split
  · rename_i hminus
    rw [hcs] at hminus
    obtain rfl := (List.cons.inj hminus).1
    cases hdigit
  · rw [read?_tenthsText t, Option.map_some, Decimal.value_tenths]

theorem spelled?_minus (t : ℕ) : spelled? ("-" ++ tenthsText t) = some (-(t / 10) : ℚ) := by
  have htext : ("-" ++ tenthsText t).toList = '-' :: (tenthsText t).toList := by simp
  rw [spelled?, htext]
  show (Decimal.read? (tenthsText t).toList).map _ = _
  rw [read?_tenthsText t, Option.map_some, Decimal.value_tenths]

namespace Binary64

/-- `x` is finite, and every other finite number is farther away from `q`. -/
def IsNearest (x : Binary64) (q : ℚ) : Prop :=
  x.isFinite ∧ ∀ y : Binary64, y.isFinite → y.value ≠ x.value → |x.value - q| < |y.value - q|

/-- The text of `x` spells `q` with one digit after the point, and with a sign if `x` is negative
and `q` is not zero; the length that `x` is rounded to is the number nearest to `q`. -/
structure WrittenAs (x : Binary64) (q : ℚ) : Prop where
  spelled : spelled? x.fixedText = some q
  oneDigit : isFixed x.fixedText
  sign : x.fixedText.toList.head? = some '-' ↔ x.value < 0 ∧ q ≠ 0
  nearest : x.toTenth.IsNearest q

end Binary64

/-! ## The nearest number -/

namespace Magnitude

variable {m r : Magnitude} {q : ℚ}

/-- A multiple of one half that a magnitude is written as is a magnitude itself. -/
theorem exists_value_tenths (h : 5 ∣ m.tenths) : ∃ p : Magnitude, p.value = m.tenths / 10 := by
  obtain ⟨k, hk⟩ := h
  have hk' : (m.tenths : ℚ) = 5 * k := by exact_mod_cast hk
  by_cases hsmall : k ≤ 2 ^ 53
  · obtain ⟨p, hp⟩ := exists_mul_value_eq (s := 1) hsmall (by decide)
    exact ⟨p, by linarith⟩
  · rw [not_le] at hsmall
    rcases m.tenths_near_or_moved with hnear | ⟨j, hj, -, hmoved⟩
    · -- so large a magnitude is a whole number
      have hlarge : (2 : ℚ) ^ 53 + 1 ≤ k := by exact_mod_cast hsmall
      obtain ⟨hlow, hhigh⟩ := abs_le.1 hnear
      obtain ⟨i, -, hi⟩ := exists_multiple (m := m) (s := 0) (by decide) (by linarith)
      have hle : 2 * m.tenths ≤ 20 * i + 1 := by
        exact_mod_cast (show 2 * (m.tenths : ℚ) ≤ 20 * i + 1 by linarith)
      have hge : 20 * i ≤ 2 * m.tenths + 1 := by
        exact_mod_cast (show 20 * (i : ℚ) ≤ 2 * m.tenths + 1 by linarith)
      have hexact : (m.tenths : ℚ) = 10 * i := by exact_mod_cast (show m.tenths = 10 * i by omega)
      exact ⟨m, by linarith⟩
    · have := lt_of_odd (by omega) hj
      omega

theorem coprime_twoTo (n : ℕ) : Nat.Coprime 5 (twoTo n) := Nat.Coprime.pow_right n (by decide)

/-- No other magnitude is as near as the nearest one to what a magnitude is written as. -/
theorem Nearest.lt_of_ne (h : r.Nearest (m.tenths / 10)) {b : Magnitude} (hne : b ≠ r) :
    |r.value - m.tenths / 10| < |b.value - m.tenths / 10| := by
  refine lt_of_le_of_ne (h b) fun heq => ?_
  rcases abs_eq_abs.1 heq with hsame | hopposite
  · exact hne (value_inj.1 (sub_left_inj.1 hsame).symm)
  · -- the tenths would be half of a whole number of units, and then a magnitude
    have hsum : 5 * (r.units + b.units) = m.tenths * unitsPerOne := by
      have hvalues : 5 * (r.value + b.value) = m.tenths := by linarith
      rw [value, value, ← add_div, ← mul_div_assoc, div_eq_iff cast_unitsPerOne_pos.ne'] at hvalues
      exact_mod_cast hvalues
    have hfive : 5 ∣ m.tenths := (coprime_twoTo 1074).dvd_of_dvd_mul_right ⟨_, hsum.symm⟩
    obtain ⟨p, hp⟩ := exists_value_tenths hfive
    rw [← hp] at h hopposite
    have hr := h.value_eq
    rw [hr, sub_self, eq_comm, neg_eq_zero, sub_eq_zero] at hopposite
    exact hne ((value_inj.1 hopposite).trans hr.symm)

end Magnitude

namespace Binary64

theorem value_neg (x : Binary64) : x.neg.value = -x.value := by
  cases x with
  | nan | infinite => simp [neg, value]
  | finite s m => cases s <;> simp [neg, value]

theorem isFinite_neg (x : Binary64) : x.neg.isFinite = x.isFinite := by
  cases x <;> rfl

theorem IsNearest.neg {x : Binary64} {q : ℚ} (h : x.IsNearest q) : x.neg.IsNearest (-q) := by
  refine ⟨by rw [isFinite_neg, h.1], fun y hy hne => ?_⟩
  have hmirror : ∀ a b : ℚ, |a - -b| = |-a - b| := by
    intro a b
    rw [← abs_neg, neg_sub', neg_neg]
  have hne' : y.neg.value ≠ x.value := by
    rw [value_neg] at hne ⊢
    rintro heq
    rw [← heq, neg_neg] at hne
    exact hne rfl
  have hlt := h.2 y.neg (by rwa [isFinite_neg]) hne'
  rw [value_neg] at hlt ⊢
  rwa [hmirror, hmirror, neg_neg]

variable {negative : Bool} {m r : Magnitude} {q : ℚ} {j t : ℕ}

/-- A negative number is not nearer to a number that is not negative than its magnitude is. -/
theorem isNearest_of_lt (hq : 0 ≤ q) (h : r.Nearest q)
    (hlt : ∀ b ≠ r, |r.value - q| < |b.value - q|) : (finite false r).IsNearest q := by
  refine ⟨rfl, fun y hy hne => ?_⟩
  have hr : (finite false r).value = r.value := rfl
  rw [hr] at hne ⊢
  cases y with
  | nan | infinite => cases hy
  | finite s b =>
    cases s with
    | false => exact hlt b fun hb => hne (congrArg Magnitude.value hb)
    | true =>
      have hvalue : (finite true b).value = -b.value := rfl
      have hb := b.value_nonneg
      rw [hvalue] at hne ⊢
      have hfar : |-b.value - q| = b.value + q := by
        rw [← neg_add', abs_neg, abs_of_nonneg (add_nonneg hb hq)]
      rw [hfar]
      by_cases heq : b = r
      · have hpos : 0 < r.value := by
          refine lt_of_le_of_ne r.value_nonneg fun hzero => hne ?_
          rw [heq, ← hzero, neg_zero]
        have hqpos : 0 < q := by
          refine lt_of_le_of_ne hq fun hzero => hpos.ne' ?_
          have := h Magnitude.zero
          rw [← hzero] at this
          simpa using this
        rw [heq, abs_lt]
        constructor <;> linarith
      · refine (hlt b heq).trans_le ?_
        rw [abs_le]
        constructor <;> linarith

theorem head?_tenthsText_ne (t : ℕ) : (tenthsText t).toList.head? ≠ some '-' := by
  obtain ⟨c, cs, hcs, hdigit⟩ := head_tenthsText t
  rw [hcs]
  rintro hminus
  cases hminus
  cases hdigit

/-- Every finite number is written as its tenths with its sign. -/
theorem writtenAs_tenths (negative : Bool) (m : Magnitude) :
    (finite negative m).WrittenAs (if negative then -(m.tenths / 10) else m.tenths / 10) := by
  obtain ⟨r, hr, hnearest⟩ := exists_toTenth negative m
  have hpositive : (finite false r).IsNearest (m.tenths / 10) :=
    isNearest_of_lt (by positivity) hnearest fun _ => hnearest.lt_of_ne
  have hdigit := isFixed_fixedText (finite negative m)
  cases negative with
  | false =>
    have hnonneg : ¬ (finite false m).value < 0 := not_lt.2 m.value_nonneg
    refine ⟨spelled?_tenthsText _, hdigit, ?_, hr ▸ hpositive⟩
    exact iff_of_false (head?_tenthsText_ne _) fun h => hnonneg h.1
  | true =>
    by_cases ht : m.tenths = 0
    · have htext : (finite true m).fixedText = tenthsText 0 := by simp [fixedText, ht]
      rw [ht] at hr hpositive ⊢
      have hzero : (if true = true then -((0 : ℕ) / 10) else (0 : ℕ) / 10 : ℚ) = (0 : ℕ) / 10 := by
        simp
      rw [hzero]
      refine ⟨htext ▸ spelled?_tenthsText 0, hdigit, ?_, hr ▸ hpositive⟩
      rw [htext]
      exact iff_of_false (head?_tenthsText_ne 0) fun h => h.2 (by simp)
    · have htext : (finite true m).fixedText = "-" ++ tenthsText m.tenths := by
        simp [fixedText, ht]
      have hsign : (true && m.tenths != 0) = true := by simpa using ht
      have hpos : 0 < m.value :=
        lt_of_le_of_ne m.value_nonneg fun hzero => ht (Magnitude.tenths_eq_zero hzero.symm)
      rw [hsign] at hr
      refine ⟨htext ▸ spelled?_minus _, hdigit, ?_, hr ▸ hpositive.neg⟩
      rw [htext, String.toList_append]
      exact iff_of_true rfl ⟨neg_neg_of_pos hpos, by simpa using ht⟩

/-- A text spells one number only. -/
theorem writtenAs_iff : (finite negative m).WrittenAs q ↔
    q = (if negative then -(m.tenths / 10) else m.tenths / 10 : ℚ) := by
  have hwritten := writtenAs_tenths negative m
  constructor
  · intro h
    exact Option.some.inj (h.spelled.symm.trans hwritten.spelled)
  · rintro rfl
    exact hwritten

/-! ## The nearest tenth -/

theorem tenth_eq_iff {x : ℚ} (hx : 0 ≤ x) :
    tenth x = t / 10 ↔ t ≤ 10 * x + 1 / 2 ∧ 10 * x + 1 / 2 < t + 1 := by
  rw [tenth_of_nonneg hx, div_left_inj' (by norm_num), round_eq, ← Int.cast_natCast t, Int.cast_inj,
    Int.floor_eq_iff]

/-- Only an odd number of quarters lies halfway between two tenths. -/
theorem isHalfway_of_value {m : Magnitude} (h : 20 * m.value = 2 * t + 1) : m.isHalfway := by
  have hunits : 5 * m.units = (2 * t + 1) * twoTo 1072 := by
    rw [Magnitude.value, ← mul_div_assoc, div_eq_iff cast_unitsPerOne_pos.ne',
      Magnitude.unitsPerOne_eq_quarters] at h
    have hcast : 20 * m.units = (2 * t + 1) * (4 * twoTo 1072) := by exact_mod_cast h
    rw [Nat.mul_left_comm] at hcast
    omega
  obtain ⟨j, hj⟩ : 5 ∣ 2 * t + 1 :=
    (Magnitude.coprime_twoTo 1072).dvd_of_dvd_mul_right ⟨_, hunits.symm⟩
  rw [hj, Nat.mul_assoc] at hunits
  exact Magnitude.isHalfway_iff.2 ⟨j, by omega, Nat.eq_of_mul_eq_mul_left (by decide) hunits⟩

/-- An odd number of quarters has the tenth above it nearest, a half going away from zero. -/
theorem tenth_quarters_iff (hodd : j % 2 = 1) : tenth (j / 4) = t / 10 ↔ 2 * t = 5 * j + 1 := by
  rw [tenth_eq_iff (by positivity)]
  constructor
  · rintro ⟨hlow, hhigh⟩
    have hlow' : 2 * t ≤ 5 * j + 1 := by
      exact_mod_cast (show 2 * (t : ℚ) ≤ 5 * j + 1 by linarith)
    have hhigh' : 5 * j + 1 < 2 * t + 2 := by
      exact_mod_cast (show 5 * (j : ℚ) + 1 < 2 * t + 2 by linarith)
    omega
  · intro hexact
    have hexact' : 2 * (t : ℚ) = 5 * j + 1 := by exact_mod_cast hexact
    constructor <;> linarith

/-- The tenths that a magnitude is written as are the ones nearest to it exactly if it goes up where
it lies halfway. -/
theorem tenth_value_iff (m : Magnitude) :
    tenth m.value = m.tenths / 10 ↔ ∀ j : ℕ, j % 2 = 1 → m.value = j / 4 → Magnitude.GoesUp j := by
  by_cases hhalf : m.isHalfway
  · obtain ⟨j, hodd, hunits⟩ := Magnitude.isHalfway_iff.1 hhalf
    have hvalue := Magnitude.value_eq_quarters_iff.2 hunits
    rw [hvalue, tenth_quarters_iff hodd, (Magnitude.halfWritten_tenths hodd hunits).up_iff hodd]
    constructor
    · intro hgoes k _ hk
      rw [div_left_inj' (by norm_num), Nat.cast_inj] at hk
      exact hk ▸ hgoes
    · exact fun hall => hall j hodd rfl
  · have hplain : m.tenths = m.nearestTenths := by rw [Magnitude.tenths, if_neg hhalf]
    obtain ⟨hlow, hhigh⟩ := abs_le.1 m.abs_nearestTenths_sub_le
    rw [← hplain] at hlow hhigh
    rw [tenth_eq_iff m.value_nonneg]
    refine iff_of_true ⟨by linarith, lt_of_le_of_ne (by linarith) fun heq => hhalf ?_⟩ ?_
    · exact isHalfway_of_value (t := m.tenths) (by linarith)
    · intro j hodd hj
      exact absurd (Magnitude.isHalfway_iff.2 ⟨j, hodd, Magnitude.value_eq_quarters_iff.1 hj⟩) hhalf

/-- Every finite number is written as a tenth, and rounded to the number nearest to it. The tenth is
the one nearest to the exact value, a half going away from zero, except for the halves among large
numbers that do not go up. -/
theorem writtenAs_tenth_iff (negative : Bool) (m : Magnitude) :
    (∃ q, IsTenth q ∧ (finite negative m).WrittenAs q) ∧
      ((finite negative m).WrittenAs (tenth (finite negative m).value) ↔
        ∀ j : ℕ, j % 2 = 1 → m.value = j / 4 → Magnitude.GoesUp j) := by
  constructor
  · refine ⟨_, ?_, writtenAs_tenths negative m⟩
    cases negative with
    | false => exact ⟨m.tenths, by simp⟩
    | true => exact ⟨-m.tenths, by simp [neg_div]⟩
  · rw [writtenAs_iff, ← tenth_value_iff]
    cases negative with
    | false => rfl
    | true =>
      have hvalue : (finite true m).value = -m.value := rfl
      rw [hvalue, tenth_neg, if_pos rfl]
      exact neg_inj

/-- The least number that lies halfway and goes down. -/
theorem not_writtenAs_tenth_half : ∃ x, read? "450359962737050.25" = some x ∧
    x.value = 1801439850948201 / 4 ∧ x.fixedText = "450359962737050.2" ∧
      ¬ x.WrittenAs (tenth x.value) := by
  -- the number of quarters is kept as a variable, so that its units are not computed
  obtain ⟨j, hj⟩ : ∃ j, j = 1801439850948201 := ⟨_, rfl⟩
  obtain ⟨m, hunits⟩ := Magnitude.exists_units_eq (k := j) (s := 1072) (by rw [hj]; decide)
    (by decide)
  have hvalue := Magnitude.value_eq_quarters_iff.2 hunits
  have htenths : m.tenths = 4503599627370502 := by
    cases Magnitude.halfWritten_tenths (by omega) hunits <;> omega
  refine ⟨finite false m, ?_, ?_, ?_, ?_⟩
  · have hread : read? "450359962737050.25" = some (ofDecimal false ⟨45035996273705025, -2⟩) := rfl
    have hdecimal : ∀ n, n ≠ 0 → ofDecimal false ⟨n, -2⟩ = ofUnits false (n * unitsPerOne) 100 := by
      intro n hn
      rw [ofDecimal, if_neg hn, if_neg (by decide : ¬ (310 : Int) < -2),
        if_neg (by omega : ¬ (-2 : Int) < -(400 + n.log2))]
      rfl
    have hscaled : 25 * j * unitsPerOne = m.units * 100 := by
      rw [hunits, Magnitude.unitsPerOne_eq_quarters]
      ring
    have hdigits : 45035996273705025 = 25 * j := by omega
    rw [hread, hdigits, hdecimal _ (by omega), hscaled, ofUnits_exact false m (by decide)]
  · rw [← Nat.cast_ofNat, ← hj]
    exact hvalue
  · simp only [fixedText, htenths]
    decide
  · rw [writtenAs_iff]
    intro htenth
    have hgoes := (tenth_value_iff m).1 htenth j (by omega) hvalue
    unfold Magnitude.GoesUp at hgoes
    omega

end Binary64

end ProgramDiagram
