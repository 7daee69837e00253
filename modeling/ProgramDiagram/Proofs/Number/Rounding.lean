import ProgramDiagram.Number.Tenths

/-!
# Rounding stays finite

* `roundUnits_le`: nothing is rounded past a magnitude;
* `isFinite_toTenth`: so what is rounded to one decimal place is finite, however large it is.
-/

namespace ProgramDiagram

theorem log2_le_log2 {m n : Nat} (h : m ≤ n) : m.log2 ≤ n.log2 := by
  by_cases hm : m = 0
  · simp [hm]
  · have hn : n ≠ 0 := by omega
    rw [Nat.le_log2 hn]
    exact Nat.le_trans (Nat.log2_self_le hm) h

theorem unitsPerOne_pos : 0 < unitsPerOne := twoTo_pos 1074

theorem twoTo_lt {m n : Nat} (h : m < n) : twoTo m < twoTo n :=
  Nat.pow_lt_pow_right (by decide) h

theorem twoTo_succ (n : Nat) : twoTo (n + 1) = 2 * twoTo n := Nat.pow_succ'

theorem le_log2_of_twoTo_le {n k : Nat} (hn : n ≠ 0) (h : twoTo k ≤ n) : k ≤ n.log2 :=
  (Nat.le_log2 hn).2 h

namespace Magnitude

variable {n d b : Nat}

/-- A quotient below a number with few significant bits is rounded below it. -/
theorem roundUnits_le (hd : 0 < d) (hb : lastPlace b ∣ b) (h : n ≤ b * d) :
    roundUnits n d ≤ b := by
  have hq : n / d ≤ b := Nat.div_le_of_le_mul (Nat.mul_comm b d ▸ h)
  have hplace : lastPlace (n / d) ∣ lastPlace b := twoTo_dvd (by have := log2_le_log2 hq; omega)
  obtain ⟨k, hk⟩ := Nat.dvd_trans hplace hb
  have hpos : 0 < lastPlace (n / d) := twoTo_pos _
  have hnearest : nearestDiv n (d * lastPlace (n / d)) ≤ k := by
    apply nearestDiv_le_of_le (Nat.mul_pos hd hpos)
    calc n ≤ b * d := h
      _ = k * (d * lastPlace (n / d)) := by rw [hk]; ac_rfl
  calc roundUnits n d ≤ k * lastPlace (n / d) := Nat.mul_le_mul_right _ hnearest
    _ = b := by rw [hk, Nat.mul_comm]

/-- The count of units halfway between the largest magnitude and the first count that is too
large. -/
def halfwayUnits : Nat := (twoTo 54 - 1) * twoTo 2044

theorem nearestDiv_le_of_lt_half {k : Nat} (h : 2 * n < (2 * k + 1) * d) : nearestDiv n d ≤ k := by
  have hexpand : (2 * k + 1) * d = 2 * (d * k) + d := by
    rw [Nat.add_mul, Nat.one_mul, Nat.mul_assoc, Nat.mul_comm k]
  have hd : 0 < d := Nat.pos_of_lt_mul_left h
  have hle : n / d ≤ k := by
    rw [Nat.div_le_iff_le_mul_add_pred hd]
    omega
  by_cases heq : n / d = k
  · have hsplit := Nat.div_add_mod n d
    rw [heq] at hsplit
    have hrest : 2 * (n % d) < d := by omega
    rw [nearestDiv, if_pos hrest]
    exact hle
  · have := (nearestDiv_bounds n d).2
    omega

theorem two_mul_halfwayUnits : 2 * halfwayUnits = (twoTo 54 - 1) * twoTo 2045 := by
  have hdouble : twoTo 2045 = 2 * twoTo 2044 := twoTo_succ 2044
  rw [hdouble, halfwayUnits, Nat.mul_left_comm]

theorem overflowUnits_eq : overflowUnits = twoTo 53 * twoTo 2045 := twoTo_add 53 2045

theorem halfwayUnits_lt : halfwayUnits < overflowUnits := by
  calc halfwayUnits < twoTo 54 * twoTo 2044 :=
        Nat.mul_lt_mul_of_pos_right (by decide) (twoTo_pos 2044)
    _ = overflowUnits := (twoTo_add 54 2044).symm

/-- What lies below halfway is rounded to a magnitude. -/
theorem roundUnits_lt (hd : 0 < d) (h : n < halfwayUnits * d) : roundUnits n d < overflowUnits := by
  have hlt : n / d < halfwayUnits := Nat.div_lt_of_lt_mul (Nat.mul_comm _ d ▸ h)
  by_cases hsmall : n / d < twoTo 2097
  · have hplace := lastPlace_dvd_mul_twoTo (m := 1) (s := 2097) (twoTo_pos 53)
    rw [Nat.one_mul] at hplace
    have hn : n ≤ twoTo 2097 * d := by
      calc n ≤ d * (n / d + 1) := Nat.le_of_lt (Nat.lt_mul_div_succ n hd)
        _ ≤ d * twoTo 2097 := Nat.mul_le_mul_left d hsmall
        _ = twoTo 2097 * d := Nat.mul_comm ..
    exact Nat.lt_of_le_of_lt (roundUnits_le hd hplace hn) (twoTo_lt (by decide))
  · have hlarge := Nat.le_of_not_lt hsmall
    have hne : n / d ≠ 0 := Nat.ne_of_gt (Nat.lt_of_lt_of_le (twoTo_pos 2097) hlarge)
    have hlog : (n / d).log2 = 2097 := by
      have hle := le_log2_of_twoTo_le hne hlarge
      have := log2_lt_of_lt_twoTo hne (Nat.lt_trans hlt halfwayUnits_lt)
      omega
    have hplace : lastPlace (n / d) = twoTo 2045 := by rw [lastPlace, hlog]
    have hnearest : nearestDiv n (d * twoTo 2045) ≤ twoTo 53 - 1 := by
      have hodd : 2 * (twoTo 53 - 1) + 1 = twoTo 54 - 1 := by decide
      have hdouble : (2 * (twoTo 53 - 1) + 1) * (d * twoTo 2045) = 2 * (halfwayUnits * d) := by
        rw [hodd, ← Nat.mul_assoc 2, two_mul_halfwayUnits, Nat.mul_assoc, Nat.mul_comm d]
      apply nearestDiv_le_of_lt_half
      rw [hdouble]
      omega
    rw [roundUnits, hplace]
    calc nearestDiv n (d * twoTo 2045) * twoTo 2045 ≤ (twoTo 53 - 1) * twoTo 2045 :=
          Nat.mul_le_mul_right _ hnearest
      _ < twoTo 53 * twoTo 2045 := Nat.mul_lt_mul_of_pos_right (by decide) (twoTo_pos 2045)
      _ = overflowUnits := overflowUnits_eq.symm

theorem exists_units_eq {k s : Nat} (hk : k ≤ twoTo 53) (hs : s < 2045) :
    ∃ m : Magnitude, m.units = k * twoTo s := by
  refine ⟨⟨k * twoTo s, lastPlace_dvd_mul_twoTo hk, ?_⟩, rfl⟩
  calc k * twoTo s ≤ twoTo 53 * twoTo s := Nat.mul_le_mul_right _ hk
    _ = twoTo (53 + s) := (twoTo_add 53 s).symm
    _ < overflowUnits := twoTo_lt (by omega)

/-- The powers of two that are whole numbers. -/
theorem exists_whole {k : Nat} (h : k ≤ 900) :
    ∃ m : Magnitude, m.units = twoTo k * unitsPerOne := by
  obtain ⟨m, hm⟩ := exists_units_eq (k := 1) (s := k + 1074) (twoTo_pos 53) (by omega)
  exact ⟨m, by rw [hm, Nat.one_mul, twoTo_add, unitsPerOne]⟩

theorem exists_nearest_le (m : Magnitude) (hd : 0 < d) (h : n ≤ m.units * d) :
    ∃ r, nearest n d = some r ∧ r.units ≤ m.units := by
  have hle := roundUnits_le hd m.lastPlace_dvd h
  have hlt := Nat.lt_of_le_of_lt hle m.units_lt
  exact ⟨_, dif_pos ⟨hd, hlt⟩, hle⟩

end Magnitude

namespace Binary64

open Magnitude

theorem exists_ofUnits_le (m : Magnitude) (negative : Bool) {n d : Nat} (hd : 0 < d)
    (h : n ≤ m.units * d) : ∃ r, ofUnits negative n d = finite negative r ∧ r.units ≤ m.units := by
  obtain ⟨r, hr, hle⟩ := m.exists_nearest_le hd h
  exact ⟨r, by rw [ofUnits, hr], hle⟩

theorem isFinite_ofUnits (m : Magnitude) (negative : Bool) {n d : Nat} (hd : 0 < d)
    (h : n ≤ m.units * d) : (ofUnits negative n d).isFinite := by
  obtain ⟨r, hr, -⟩ := exists_ofUnits_le m negative hd h
  rw [hr]
  rfl

end Binary64

/-! ## Tenths -/

namespace Magnitude

/-- From `2 ^ 52` on a magnitude is a whole number. -/
theorem unitsPerOne_dvd_or_lt (m : Magnitude) :
    unitsPerOne ∣ m.units ∨ m.units < twoTo 52 * unitsPerOne := by
  by_cases h : 1126 ≤ m.units.log2
  · exact .inl (Nat.dvd_trans (twoTo_dvd (by omega)) m.lastPlace_dvd)
  · refine .inr ?_
    rw [unitsPerOne, ← twoTo_add]
    exact Nat.lt_of_lt_of_le (lt_twoTo_log2_succ _) (twoTo_le (by omega))

theorem lt_of_isHalfway {m : Magnitude} (h : m.isHalfway) : m.units < twoTo 52 * unitsPerOne := by
  rcases m.unitsPerOne_dvd_or_lt with ⟨k, hk⟩ | hlt
  · -- a whole number has an even number of quarters
    have hquarters : m.units * 4 / unitsPerOne = k * 4 := by
      rw [hk, Nat.mul_assoc, Nat.mul_div_cancel_left _ unitsPerOne_pos]
    rw [isHalfway, hquarters, Bool.and_eq_true, beq_iff_eq, beq_iff_eq] at h
    omega
  · exact hlt

/-- The tenths of a magnitude do not lie beyond all magnitudes. -/
theorem exists_tenths_le (m : Magnitude) :
    ∃ bound : Magnitude, m.tenths * unitsPerOne ≤ bound.units * 10 := by
  have hnearest : ∀ m : Magnitude, ∃ bound : Magnitude,
      m.nearestTenths * unitsPerOne ≤ bound.units * 10 := by
    intro m
    rcases m.unitsPerOne_dvd_or_lt with ⟨k, hk⟩ | hlt
    · have hexact : m.nearestTenths = 10 * k := by
        rw [nearestTenths, hk, Nat.mul_comm unitsPerOne k, ← Nat.mul_assoc]
        exact nearestDiv_mul_right (10 * k) unitsPerOne_pos
      refine ⟨m, Nat.le_of_eq ?_⟩
      rw [hexact, hk, Nat.mul_comm unitsPerOne k, Nat.mul_assoc, Nat.mul_comm 10]
    · have hle : m.nearestTenths ≤ 10 * twoTo 52 := by
        apply nearestDiv_le_of_le unitsPerOne_pos
        rw [Nat.mul_assoc]
        exact Nat.mul_le_mul_left 10 (Nat.le_of_lt hlt)
      obtain ⟨bound, hbound⟩ := exists_whole (show 52 ≤ 900 by decide)
      refine ⟨bound, ?_⟩
      calc m.nearestTenths * unitsPerOne ≤ 10 * twoTo 52 * unitsPerOne :=
            Nat.mul_le_mul_right _ hle
        _ = bound.units * 10 := by rw [hbound, Nat.mul_assoc, Nat.mul_comm 10]
  unfold tenths
  split
  · split
    · exact hnearest _
    · exact hnearest m
  · exact hnearest m

end Magnitude

namespace Binary64

open Magnitude

theorem ofDecimal_tenths (negative : Bool) {t : Nat} (h : t ≠ 0) :
    ofDecimal negative ⟨t, -1⟩ = ofUnits negative (t * unitsPerOne) 10 := by
  have hlow : ¬ (310 : Int) < -1 := by decide
  have hhigh : ¬ (-1 : Int) < -(400 + t.log2) := by omega
  rw [ofDecimal, if_neg h, if_neg hlow, if_neg hhigh]
  rfl

theorem ofUnits_exact (negative : Bool) (m : Magnitude) {d : Nat} (hd : 0 < d) :
    ofUnits negative (m.units * d) d = finite negative m := by
  obtain ⟨k, hk⟩ := m.lastPlace_dvd
  have hexact : roundUnits (m.units * d) d = m.units := by
    have hscaled : m.units * d = k * (d * lastPlace m.units) := by
      calc m.units * d = lastPlace m.units * k * d := congrArg (· * d) hk
        _ = k * (d * lastPlace m.units) := by ac_rfl
    have hplace : 0 < d * lastPlace m.units := Nat.mul_pos hd (twoTo_pos _)
    rw [roundUnits, Nat.mul_div_cancel _ hd, hscaled, nearestDiv_mul_right _ hplace, Nat.mul_comm,
      ← hk]
  have hnearest : nearest (m.units * d) d = some m := by
    rw [nearest, dif_pos ⟨hd, hexact.symm ▸ m.units_lt⟩]
    exact congrArg some (Magnitude.ext hexact)
  rw [ofUnits, hnearest]

theorem exists_ofNat_ten : ∃ ten, ofNat 10 = finite false ten ∧ ten.units = 10 * unitsPerOne := by
  obtain ⟨ten, hten⟩ := exists_units_eq (k := 10) (s := 1074) (by decide) (by decide)
  rw [← unitsPerOne] at hten
  have hexact := ofUnits_exact false ten Nat.one_pos
  rw [Nat.mul_one, hten] at hexact
  exact ⟨ten, hexact, hten⟩

theorem exists_mul_ten {m : Magnitude} (h : m.units < twoTo 52 * unitsPerOne) :
    ∃ r, finite false m * ofNat 10 = finite false r ∧ r.units ≤ twoTo 56 * unitsPerOne := by
  obtain ⟨ten, hofNat, hten⟩ := exists_ofNat_ten
  obtain ⟨bound, hbound⟩ := exists_whole (show 56 ≤ 900 by decide)
  have hproduct : m.units * ten.units ≤ bound.units * unitsPerOne := by
    have htimes : m.units * 10 ≤ bound.units := by
      calc m.units * 10 ≤ twoTo 52 * unitsPerOne * 10 := Nat.mul_le_mul_right 10 (Nat.le_of_lt h)
        _ = twoTo 52 * 10 * unitsPerOne := Nat.mul_right_comm ..
        _ ≤ twoTo 56 * unitsPerOne := Nat.mul_le_mul_right _ (by decide)
        _ = bound.units := hbound.symm
    rw [hten, ← Nat.mul_assoc]
    exact Nat.mul_le_mul_right unitsPerOne htimes
  obtain ⟨r, hr, hle⟩ := exists_ofUnits_le bound (false != false) unitsPerOne_pos hproduct
  refine ⟨r, ?_, hbound ▸ hle⟩
  show mul (finite false m) (ofNat 10) = _
  rw [hofNat, mul, hr]
  rfl

/-- What is rounded to one decimal place is finite. -/
theorem isFinite_toTenth (x : Binary64) : x.toTenth.isFinite := by
  cases x with
  | nan | infinite => rfl
  | finite negative m =>
    rw [toTenth]
    by_cases ht : m.tenths = 0
    · rw [ht]
      rfl
    · obtain ⟨bound, hbound⟩ := m.exists_tenths_le
      rw [ofDecimal_tenths _ ht]
      exact isFinite_ofUnits bound _ (by decide) hbound

theorem isFinite_ofNat_zero : (ofNat 0).isFinite := by
  apply isFinite_ofUnits Magnitude.zero false Nat.one_pos
  rw [Nat.zero_mul]
  exact Nat.zero_le _

end Binary64

end ProgramDiagram
