import ProgramDiagram.Proofs.Number.Value

/-!
# Numbers halfway between two tenths

An odd number of quarters lies halfway between two tenths. It is multiplied by ten, rounded up to a
whole number and divided by ten again, and each of these steps may be rounded.

* `liftedTenths`, `exists_roundedUp`: what the steps come to;
* `HalfWritten`, `halfWritten_tenths`: the tenths that the number is written as. From `2 ^ 51 / 5`
  on it is not always the tenth above, and from `2 ^ 53 / 5` on not always one of the two next to
  it;
* `tenths_near_or_moved`: all other numbers are written as a tenth next to them.
-/

namespace ProgramDiagram

namespace Magnitude

variable {m r : Magnitude} {q : ℚ} {j t : ℕ}

/-! ## The nearest tenth -/

theorem abs_nearestTenths_sub_le (m : Magnitude) :
    |(m.nearestTenths : ℚ) - 10 * m.value| ≤ 1 / 2 := by
  have hvalue : 10 * m.value = ((10 * m.units : ℕ) : ℚ) / unitsPerOne := by
    rw [value, Nat.cast_mul, mul_div_assoc, Nat.cast_ofNat]
  rw [hvalue]
  exact abs_nearestDiv_sub_le _ unitsPerOne_pos

theorem nearestTenths_eq (h : |(t : ℚ) - 10 * m.value| < 1 / 2) : m.nearestTenths = t := by
  have hnear := m.abs_nearestTenths_sub_le
  have htriangle := abs_sub_le (m.nearestTenths : ℚ) (10 * m.value) t
  rw [abs_sub_comm (10 * m.value)] at htriangle
  exact eq_of_abs_sub_lt_one (by linarith)

theorem tenths_eq_zero (h : m.value = 0) : m.tenths = 0 := by
  have hm : m = Magnitude.zero := value_inj.1 (by rw [h, value_zero])
  rw [hm]
  simp [tenths, isHalfway, nearestTenths, nearestDiv, Magnitude.zero]

/-! ## Quarters -/

theorem unitsPerOne_eq_quarters : unitsPerOne = 4 * twoTo 1072 := by
  rw [unitsPerOne, twoTo_succ, twoTo_succ, ← Nat.mul_assoc]

theorem isHalfway_iff : m.isHalfway ↔ ∃ j, j % 2 = 1 ∧ m.units = j * twoTo 1072 := by
  have hpos : 0 < twoTo 1072 := twoTo_pos _
  have hrest : m.units * 4 % unitsPerOne = 4 * (m.units % twoTo 1072) := by
    rw [unitsPerOne_eq_quarters, Nat.mul_comm, Nat.mul_mod_mul_left]
  have hquarters : m.units * 4 / unitsPerOne = m.units / twoTo 1072 := by
    rw [unitsPerOne_eq_quarters, Nat.mul_comm, Nat.mul_div_mul_left _ _ (by decide)]
  rw [isHalfway, hrest, hquarters, Bool.and_eq_true, beq_iff_eq, beq_iff_eq]
  constructor
  · rintro ⟨hzero, hodd⟩
    have hdvd : twoTo 1072 ∣ m.units := Nat.dvd_of_mod_eq_zero (by omega)
    exact ⟨_, hodd, (Nat.div_mul_cancel hdvd).symm⟩
  · rintro ⟨j, hodd, hj⟩
    rw [hj, Nat.mul_mod_left, Nat.mul_div_cancel _ hpos]
    exact ⟨rfl, hodd⟩

theorem value_eq_quarters_iff : m.value = j / 4 ↔ m.units = j * twoTo 1072 := by
  have hpos : (0 : ℚ) < 4 * twoTo 1072 := by exact_mod_cast Nat.mul_pos (by decide) (twoTo_pos 1072)
  have hscaled : (j : ℚ) / 4 * (4 * twoTo 1072) = j * twoTo 1072 := by ring
  rw [value, unitsPerOne_eq_quarters, Nat.cast_mul, Nat.cast_ofNat, div_eq_iff hpos.ne', hscaled]
  exact_mod_cast Iff.rfl

/-- An odd number of quarters has 53 bits at most. -/
theorem lt_of_odd (hodd : j % 2 = 1) (h : m.units = j * twoTo 1072) : j < 2 ^ 53 := by
  by_contra hle
  have hcast : (2 : ℚ) ^ 53 ≤ j := by exact_mod_cast not_lt.1 hle
  have hvalue := value_eq_quarters_iff.2 h
  obtain ⟨k, hk, -⟩ := exists_multiple (m := m) (s := 1) (by decide) (by linarith)
  have hdouble : twoTo (1074 - 1) = 2 * twoTo 1072 := twoTo_succ 1072
  rw [h, hdouble, ← Nat.mul_assoc] at hk
  have := Nat.eq_of_mul_eq_mul_right (twoTo_pos _) hk
  omega

theorem nearestTenths_quarters (h : m.units = j * twoTo 1072) :
    m.nearestTenths = nearestDiv (5 * j) 2 := by
  have hnumerator : 10 * m.units = 5 * j * (2 * twoTo 1072) := by
    rw [h]
    ring
  have hdenominator : unitsPerOne = 2 * (2 * twoTo 1072) := by
    rw [unitsPerOne_eq_quarters]
    ring
  rw [nearestTenths, hnumerator, hdenominator]
  exact nearestDiv_mul_mul_right _ (Nat.mul_pos (by decide) (twoTo_pos _))

/-! ## Ten times a number, rounded up -/

theorem units_of_ofUnits {negative s : Bool} {n d : ℕ}
    (h : Binary64.ofUnits negative n d = .finite s r) : r.units = roundUnits n d := by
  unfold Binary64.ofUnits nearest at h
  split at h
  · rename_i hnearest
    split at hnearest
    · cases h
      exact congrArg units (Option.some.inj hnearest).symm
    · cases hnearest
  · cases h

/-- A whole number of units with `53 + s` bits loses its last `s` bits. -/
theorem roundUnits_scaled {k s e d : ℕ} (hlow : twoTo (52 + s) ≤ k) (hhigh : k < twoTo (53 + s))
    (hd : 0 < d) :
    roundUnits (k * twoTo e * d) d = nearestDiv k (twoTo s) * twoTo (s + e) := by
  have hquotient : k * twoTo e * d / d = k * twoTo e := Nat.mul_div_cancel _ hd
  have hne : k * twoTo e ≠ 0 :=
    (Nat.mul_pos (Nat.lt_of_lt_of_le (twoTo_pos _) hlow) (twoTo_pos _)).ne'
  have hlog : (k * twoTo e).log2 = 52 + s + e := by
    have hle : 52 + s + e ≤ (k * twoTo e).log2 := by
      apply le_log2_of_twoTo_le hne
      rw [twoTo_add]
      exact Nat.mul_le_mul_right _ hlow
    have hlt : (k * twoTo e).log2 < 53 + s + e := by
      apply log2_lt_of_lt_twoTo hne
      rw [twoTo_add]
      exact Nat.mul_lt_mul_of_pos_right hhigh (twoTo_pos _)
    omega
  have hplace : lastPlace (k * twoTo e) = twoTo s * twoTo e := by
    rw [lastPlace, hlog, ← twoTo_add]
    congr 1
    omega
  have hdivisor : d * (twoTo s * twoTo e) = twoTo s * (twoTo e * d) := by ac_rfl
  rw [roundUnits, hquotient, hplace, hdivisor, Nat.mul_assoc k,
    nearestDiv_mul_mul_right _ (Nat.mul_pos (twoTo_pos _) hd), twoTo_add]

/-- The whole number of tenths that the steps up from `j` quarters come to. Ten times the number has
one half, which is rounded up as long as there are bits for it. -/
def liftedTenths (j : ℕ) : ℕ :=
  if 5 * j < 2 ^ 53 then (5 * j + 1) / 2
  else if 5 * j < 2 ^ 54 then nearestDiv (5 * j) 2
  else if 5 * j < 2 ^ 55 then nearestDiv (5 * j) 4 * 2
  else nearestDiv (5 * j) 8 * 4

open Binary64

theorem mul_ten_quarters (h : m.units = j * twoTo 1072) :
    finite false m * ofNat 10 = ofUnits false (5 * j * twoTo 1073 * unitsPerOne) unitsPerOne := by
  obtain ⟨ten, hofNat, hten⟩ := exists_ofNat_ten
  have hproduct : m.units * ten.units = 5 * j * twoTo 1073 * unitsPerOne := by
    rw [h, hten, twoTo_succ 1072]
    ring
  show mul (finite false m) (ofNat 10) = _
  rw [hofNat, mul, hproduct, bne_self_eq_false]

theorem ceil_eq {p c : Magnitude} {a : ℕ} (hc : c.units = a * unitsPerOne)
    (hle : p.units ≤ a * unitsPerOne) (hlt : a * unitsPerOne < p.units + unitsPerOne) :
    (finite false p).ceil = finite false c := by
  have hquotient : (p.units + unitsPerOne - 1) / unitsPerOne = a := by
    apply Nat.div_eq_of_lt_le
    · omega
    · rw [Nat.succ_mul]
      omega
  rw [ceil, hquotient, ← hc]
  simpa using ofUnits_exact false c Nat.one_pos

section Lifted

variable (hodd : j % 2 = 1) (h : m.units = j * twoTo 1072)

include hodd h

/-- Ten times a small number is exact, and its half is rounded up. -/
theorem exists_lifted_exact (hsmall : 5 * j < 2 ^ 53) :
    ∃ c, (finite false m * ofNat 10).ceil = finite false c ∧
      c.units = liftedTenths j * unitsPerOne := by
  have hhalf : 2 * liftedTenths j = 5 * j + 1 := by
    rw [liftedTenths, if_pos hsmall]
    omega
  obtain ⟨p, hp⟩ := exists_units_eq (k := 5 * j) (s := 1073) hsmall.le (by decide)
  obtain ⟨c, hc⟩ := exists_units_eq (k := liftedTenths j) (s := 1074)
    (show liftedTenths j ≤ 2 ^ 53 by omega) (by decide)
  have hproduct : finite false m * ofNat 10 = finite false p := by
    rw [mul_ten_quarters h, ← hp]
    exact ofUnits_exact false p unitsPerOne_pos
  have hdouble : unitsPerOne = 2 * twoTo 1073 := twoTo_succ 1073
  have hscaled : liftedTenths j * unitsPerOne = 5 * j * twoTo 1073 + twoTo 1073 := by
    calc liftedTenths j * unitsPerOne = 2 * liftedTenths j * twoTo 1073 := by rw [hdouble]; ring
      _ = 5 * j * twoTo 1073 + twoTo 1073 := by rw [hhalf]; ring
  have hpos := twoTo_pos 1073
  rw [hproduct]
  exact ⟨c, ceil_eq hc (by omega) (by omega), hc⟩

/-- Ten times a large number has no room for its half and is rounded to a whole number. -/
theorem exists_lifted_whole {s : ℕ} (hlow : twoTo (53 + s) ≤ 5 * j)
    (hhigh : 5 * j < twoTo (54 + s))
    (hlifted : liftedTenths j = nearestDiv (5 * j) (twoTo (s + 1)) * twoTo s) :
    ∃ c, (finite false m * ofNat 10).ceil = finite false c ∧
      c.units = liftedTenths j * unitsPerOne := by
  obtain ⟨p, hp, -⟩ := exists_mul_ten (lt_of_isHalfway (isHalfway_iff.2 ⟨j, hodd, h⟩))
  have hunits : p.units = liftedTenths j * unitsPerOne := by
    have hlow' : twoTo (52 + (s + 1)) ≤ 5 * j := by rwa [Nat.add_left_comm, Nat.add_comm]
    have hhigh' : 5 * j < twoTo (53 + (s + 1)) := by rwa [Nat.add_left_comm, Nat.add_comm]
    have hpower : twoTo (s + 1 + 1073) = twoTo s * unitsPerOne := by
      rw [Nat.add_assoc, twoTo_add, unitsPerOne]
    rw [mul_ten_quarters h] at hp
    rw [units_of_ofUnits hp, roundUnits_scaled hlow' hhigh' unitsPerOne_pos, hpower, hlifted,
      Nat.mul_assoc]
  have hpos := unitsPerOne_pos
  rw [hp]
  exact ⟨p, ceil_eq hunits (by omega) (by omega), hunits⟩

theorem exists_lifted :
    ∃ c, (finite false m * ofNat 10).ceil = finite false c ∧
      c.units = liftedTenths j * unitsPerOne := by
  have hj := lt_of_odd hodd h
  by_cases h53 : 5 * j < 2 ^ 53
  · exact exists_lifted_exact hodd h h53
  by_cases h54 : 5 * j < 2 ^ 54
  · apply exists_lifted_whole (s := 0) hodd h (not_lt.1 h53) h54
    rw [liftedTenths, if_neg h53, if_pos h54]
    exact (Nat.mul_one _).symm
  by_cases h55 : 5 * j < 2 ^ 55
  · apply exists_lifted_whole (s := 1) hodd h (not_lt.1 h54) h55
    rw [liftedTenths, if_neg h53, if_neg h54, if_pos h55]
    rfl
  · apply exists_lifted_whole (s := 2) hodd h (not_lt.1 h55) (show 5 * j < 2 ^ 56 by omega)
    rw [liftedTenths, if_neg h53, if_neg h54, if_neg h55]
    rfl

end Lifted

theorem exists_div_ten (c : Magnitude) :
    ∃ r, finite false c / ofNat 10 = finite false r ∧ r.Nearest (c.value / 10) := by
  obtain ⟨ten, hofNat, hten⟩ := exists_ofNat_ten
  have hpos : 0 < ten.units := by
    rw [hten]
    exact Nat.mul_pos (by decide) unitsPerOne_pos
  have hbound : c.units * unitsPerOne ≤ c.units * ten.units := by
    rw [hten]
    exact Nat.mul_le_mul_left _ (Nat.le_mul_of_pos_left unitsPerOne (by decide))
  obtain ⟨r, hr, -⟩ := exists_ofUnits_le c false hpos hbound
  have hquotient : finite false c / ofNat 10 = finite false r := by
    show div (finite false c) (ofNat 10) = _
    rw [hofNat, div, if_neg hpos.ne', bne_self_eq_false, hr]
  have hvalue : c.value / 10 = (c.units * unitsPerOne : ℕ) / (ten.units * unitsPerOne) := by
    have := cast_unitsPerOne_pos.ne'
    rw [hten, value]
    push_cast
    field_simp
  exact ⟨r, hquotient, hvalue ▸ nearest_of_ofUnits hr⟩

/-- What an odd number of quarters is moved up to is as near to a tenth as a magnitude can be. -/
theorem exists_roundedUp (hodd : j % 2 = 1) (h : m.units = j * twoTo 1072) :
    ∃ r : Magnitude, m.tenths = r.nearestTenths ∧ r.Nearest (liftedTenths j / 10) := by
  obtain ⟨c, hc, hunits⟩ := exists_lifted hodd h
  obtain ⟨r, hr, hnearest⟩ := exists_div_ten c
  have hvalue : c.value = liftedTenths j := by
    rw [value, hunits, Nat.cast_mul, mul_div_cancel_right₀ _ cast_unitsPerOne_pos.ne']
  refine ⟨r, ?_, hvalue ▸ hnearest⟩
  rw [tenths, if_pos (isHalfway_iff.2 ⟨j, hodd, h⟩), roundedUp, hc, hr]

/-! ## What the number is written as -/

/-- How the tenths `t` are found that an odd number `j` of quarters is written as. -/
inductive HalfWritten (j t : ℕ) : Prop where
  | up (hsmall : 5 * j < 2 ^ 53) (ht : 2 * t = 5 * j + 1)
  | even (hlarge : 2 ^ 53 ≤ 5 * j) (hclose : 5 * j < 2 ^ 55 ∨ j % 8 = 3 ∨ j % 8 = 5)
      (heven : t % 2 = 0) (ht : 2 * t = 5 * j + 1 ∨ 2 * t + 1 = 5 * j)
  | quarterUp (hlarge : 2 ^ 55 ≤ 5 * j) (hj : j % 8 = 1) (ht : 2 * t = 5 * (j + 1))
  | quarterDown (hlarge : 2 ^ 55 ≤ 5 * j) (hj : j % 8 = 7) (ht : 2 * t = 5 * (j - 1))

/-- The odd numbers of quarters that are written as the tenth above them. -/
def GoesUp (j : ℕ) : Prop := 5 * j < 2 ^ 53 ∨ (5 * j < 2 ^ 55 ∧ j % 4 = 3) ∨ j % 8 = 3

theorem HalfWritten.up_iff (h : HalfWritten j t) (hodd : j % 2 = 1) :
    2 * t = 5 * j + 1 ↔ GoesUp j := by
  unfold GoesUp
  cases h <;> omega

/-- Below `2 ^ 49` the magnitude that is nearest to a tenth is less than half of one away. -/
theorem Nearest.near_tenth (h : r.Nearest (t / 10)) (ht : t ≤ 10 * 2 ^ 49) :
    |(t : ℚ) - 10 * r.value| < 1 / 2 := by
  have ht' : (t : ℚ) ≤ 10 * 2 ^ 49 := by exact_mod_cast ht
  obtain ⟨hlow, hhigh⟩ := abs_le.1 (h.within (s := 4) (by decide) (by positivity) (by linarith))
  rw [abs_lt]
  constructor <;> linarith

theorem liftedTenths_cases (hodd : j % 2 = 1) :
    (5 * j < 2 ^ 53 ∧ 2 * liftedTenths j = 5 * j + 1) ∨
      (2 ^ 53 ≤ 5 * j ∧ (5 * j < 2 ^ 55 ∨ j % 8 = 3 ∨ j % 8 = 5) ∧ liftedTenths j % 2 = 0 ∧
        (2 * liftedTenths j = 5 * j + 1 ∨ 2 * liftedTenths j + 1 = 5 * j)) ∨
      (2 ^ 55 ≤ 5 * j ∧ j % 8 = 1 ∧ 2 * liftedTenths j = 5 * j + 3) ∨
      (2 ^ 55 ≤ 5 * j ∧ j % 8 = 7 ∧ 2 * liftedTenths j + 3 = 5 * j) := by
  unfold liftedTenths
  by_cases h53 : 5 * j < 2 ^ 53
  · rw [if_pos h53]
    exact .inl ⟨h53, by omega⟩
  rw [if_neg h53]
  by_cases h54 : 5 * j < 2 ^ 54
  · obtain ⟨heven, hnear⟩ := nearestDiv_two_of_odd (n := 5 * j) (by omega)
    rw [if_pos h54]
    exact .inr (.inl ⟨by omega, by omega, heven, hnear⟩)
  rw [if_neg h54]
  by_cases h55 : 5 * j < 2 ^ 55
  · obtain ⟨hhigh, hlow⟩ := nearestDiv_near (5 * j) (show 0 < 4 by decide)
    rw [if_pos h55]
    exact .inr (.inl ⟨by omega, .inl h55, by omega, by omega⟩)
  · obtain ⟨hhigh, hlow⟩ := nearestDiv_near (5 * j) (show 0 < 8 by decide)
    rw [if_neg h55]
    have hresidue : j % 8 = 1 ∨ j % 8 = 3 ∨ j % 8 = 5 ∨ j % 8 = 7 := by omega
    rcases hresidue with h | h | h | h
    · exact .inr (.inr (.inl ⟨by omega, h, by omega⟩))
    · exact .inr (.inl ⟨by omega, .inr (.inl h), by omega, by omega⟩)
    · exact .inr (.inl ⟨by omega, .inr (.inr h), by omega, by omega⟩)
    · exact .inr (.inr (.inr ⟨by omega, h, by omega⟩))

/-- Above `2 ^ 49` a magnitude is so near to the tenth next to it that no other is nearer. -/
theorem Nearest.eq_of_tenth (h : r.Nearest (t / 10)) (hm : (2 : ℚ) ^ 49 < m.value)
    (ht : |(t : ℚ) - 10 * m.value| ≤ 1 / 2) : r = m := by
  obtain ⟨hlow, hhigh⟩ := abs_le.1 ht
  apply h.eq_of_near (s := 3) (by decide)
  · linarith
  · rw [abs_lt]
    constructor <;> linarith

/-- Above `2 ^ 50` the magnitudes are quarters, and an even number of them is a whole number of
tenths. -/
theorem Nearest.nearestTenths_quarters {k : ℕ} (h : r.Nearest q) (hlarge : 2 ^ 52 < k)
    (hk : k ≤ 2 ^ 53) (hq : |(k : ℚ) - 4 * q| < 1 / 2) (ht : 2 * t = 5 * k) :
    r.nearestTenths = t := by
  have hfour : (2 : ℚ) ^ 2 = 4 := by norm_num
  have hlarge' : (2 : ℚ) ^ 52 < k := by exact_mod_cast hlarge
  have ht' : 2 * (t : ℚ) = 5 * k := by exact_mod_cast ht
  obtain ⟨p, hp⟩ := exists_mul_value_eq (s := 2) hk (by decide)
  have hr : r = p := h.eq_of_near (s := 2) (by decide) (by rwa [hp]) (by rwa [hp, hfour])
  have hexact : (t : ℚ) - 10 * p.value = 0 := by linarith
  apply nearestTenths_eq
  rw [hr, hexact, abs_zero]
  norm_num

/-- An even tenth next to an odd number of quarters is the one that it is written as, although its
own magnitude may be the number again. -/
theorem Nearest.nearestTenths_even (hodd : j % 2 = 1) (h : m.units = j * twoTo 1072)
    (hr : r.Nearest (t / 10)) (heven : t % 2 = 0) (ht : 2 * t = 5 * j + 1 ∨ 2 * t + 1 = 5 * j) :
    r.nearestTenths = t := by
  have hvalue := value_eq_quarters_iff.2 h
  by_cases hbelow : j ≤ 2 ^ 51
  · exact nearestTenths_eq (hr.near_tenth (by omega))
  · -- the tenth is too near to the number for another magnitude to be nearer to it
    have hsame : r = m := by
      apply hr.eq_of_tenth
      · have hlarge : (2 : ℚ) ^ 51 < j := by exact_mod_cast not_le.1 hbelow
        rw [hvalue]
        linarith
      · have hhigh : 2 * (t : ℚ) ≤ 5 * j + 1 := by
          exact_mod_cast (show 2 * t ≤ 5 * j + 1 by omega)
        have hlow : 5 * (j : ℚ) ≤ 2 * t + 1 := by
          exact_mod_cast (show 5 * j ≤ 2 * t + 1 by omega)
        rw [hvalue, abs_le]
        constructor <;> linarith
    obtain ⟨heven', hnear⟩ := nearestDiv_two_of_odd (n := 5 * j) (by omega)
    rw [hsame, Magnitude.nearestTenths_quarters h]
    omega

theorem halfWritten_tenths (hodd : j % 2 = 1) (h : m.units = j * twoTo 1072) :
    HalfWritten j m.tenths := by
  have hj53 := lt_of_odd hodd h
  obtain ⟨r, htenths, hnearest⟩ := exists_roundedUp hodd h
  rcases liftedTenths_cases hodd with
    ⟨hsmall, ht⟩ | ⟨hlarge, hclose, heven, ht⟩ | ⟨hlarge, hj, ht⟩ | ⟨hlarge, hj, ht⟩
  · have hbelow : liftedTenths j ≤ 10 * 2 ^ 49 := by omega
    rw [htenths, nearestTenths_eq (hnearest.near_tenth hbelow)]
    exact .up hsmall ht
  · rw [htenths, Nearest.nearestTenths_even hodd h hnearest heven ht]
    exact .even hlarge hclose heven ht
  · have hnear : |((j + 1 : ℕ) : ℚ) - 4 * (liftedTenths j / 10)| < 1 / 2 := by
      have ht' : 2 * (liftedTenths j : ℚ) = 5 * j + 3 := by exact_mod_cast ht
      rw [abs_lt]
      push_cast
      constructor <;> linarith
    obtain ⟨t, htwice⟩ : ∃ t, 2 * t = 5 * (j + 1) := ⟨5 * (j + 1) / 2, by omega⟩
    rw [htenths, hnearest.nearestTenths_quarters (by omega) (by omega) hnear htwice]
    exact .quarterUp hlarge hj htwice
  · have hnear : |((j - 1 : ℕ) : ℚ) - 4 * (liftedTenths j / 10)| < 1 / 2 := by
      have ht' : 2 * (liftedTenths j : ℚ) + 3 = 5 * j := by exact_mod_cast ht
      rw [abs_lt, Nat.cast_pred (by omega)]
      constructor <;> linarith
    obtain ⟨t, htwice⟩ : ∃ t, 2 * t = 5 * (j - 1) := ⟨5 * (j - 1) / 2, by omega⟩
    rw [htenths, hnearest.nearestTenths_quarters (by omega) (by omega) hnear htwice]
    exact .quarterDown hlarge hj htwice

/-- A magnitude is written as a tenth next to it, unless it is one of the odd numbers of quarters
that are moved to the next even number first. -/
theorem tenths_near_or_moved (m : Magnitude) :
    |(m.tenths : ℚ) - 10 * m.value| ≤ 1 / 2 ∨
      ∃ j, m.units = j * twoTo 1072 ∧ 2 ^ 55 ≤ 5 * j ∧
        (j % 8 = 1 ∧ 2 * m.tenths = 5 * (j + 1) ∨ j % 8 = 7 ∧ 2 * m.tenths = 5 * (j - 1)) := by
  by_cases hhalf : m.isHalfway
  · obtain ⟨j, hodd, h⟩ := isHalfway_iff.1 hhalf
    have hnear : 2 * m.tenths ≤ 5 * j + 1 → 5 * j ≤ 2 * m.tenths + 1 →
        |(m.tenths : ℚ) - 10 * m.value| ≤ 1 / 2 := by
      intro hhigh hlow
      have hhigh' : 2 * (m.tenths : ℚ) ≤ 5 * j + 1 := by exact_mod_cast hhigh
      have hlow' : 5 * (j : ℚ) ≤ 2 * m.tenths + 1 := by exact_mod_cast hlow
      rw [value_eq_quarters_iff.2 h, abs_le]
      constructor <;> linarith
    cases halfWritten_tenths hodd h with
    | up _ ht => exact .inl (hnear (by omega) (by omega))
    | even _ _ _ ht => exact .inl (hnear (by omega) (by omega))
    | quarterUp hlarge hj ht => exact .inr ⟨j, h, hlarge, .inl ⟨hj, ht⟩⟩
    | quarterDown hlarge hj ht => exact .inr ⟨j, h, hlarge, .inr ⟨hj, ht⟩⟩
  · have hplain : m.tenths = m.nearestTenths := by rw [tenths, if_neg hhalf]
    rw [hplain]
    exact .inl m.abs_nearestTenths_sub_le

end Magnitude

end ProgramDiagram
