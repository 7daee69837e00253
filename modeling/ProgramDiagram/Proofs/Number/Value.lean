import Mathlib.Algebra.Order.Round
import Mathlib.Data.Nat.Cast.Order.Field
import Mathlib.Data.Rat.Floor
import Mathlib.Tactic.FieldSimp
import Mathlib.Tactic.Linarith
import ProgramDiagram.Proofs.Number.Rounding

/-!
# Exact values

* `Magnitude.value`, `Binary64.value`: the rational number that a finite number is;
* `Magnitude.Nearest`: the magnitudes that no other is nearer to a rational number than, and
  `nearest_of_ofUnits`: what an operation gives is one for its exact result;
* `Nearest.within`, `Nearest.eq_of_near`: the magnitudes lie close together below a power of two and
  far apart above it;
* `exists_toTenth`: what is rounded to a tenth is nearest to the tenths that are written.
-/

namespace ProgramDiagram

/-! ## The nearest quotient -/

theorem eq_of_abs_sub_lt_one {a b : ℕ} (h : |(a : ℚ) - b| < 1) : a = b := by
  have hint : |(a : ℤ) - b| < 1 := by exact_mod_cast h
  rw [Int.abs_lt_one_iff] at hint
  omega

section Quotient

variable (n : ℕ) {d : ℕ}

theorem nearestDiv_near (hd : 0 < d) :
    2 * n ≤ 2 * (nearestDiv n d * d) + d ∧ 2 * (nearestDiv n d * d) ≤ 2 * n + d := by
  have hsplit := Nat.div_add_mod' n d
  have hrest := Nat.mod_lt n hd
  unfold nearestDiv
  split
  · omega
  · split
    · rw [Nat.add_mul, Nat.one_mul]
      omega
    · obtain heven | hodd := Nat.mod_two_eq_zero_or_one (n / d)
      · rw [heven, Nat.add_zero]
        omega
      · rw [hodd, Nat.add_mul, Nat.one_mul]
        omega

theorem abs_nearestDiv_sub_le (hd : 0 < d) : |(nearestDiv n d : ℚ) - n / d| ≤ 1 / 2 := by
  obtain ⟨hlow, hhigh⟩ := nearestDiv_near n hd
  have hpos : (0 : ℚ) < d := by exact_mod_cast hd
  have hlow' : 2 * (n : ℚ) ≤ 2 * (nearestDiv n d * d) + d := by exact_mod_cast hlow
  have hhigh' : 2 * ((nearestDiv n d : ℚ) * d) ≤ 2 * n + d := by exact_mod_cast hhigh
  have hsplit : (n : ℚ) / d * d = n := div_mul_cancel₀ _ hpos.ne'
  rw [abs_le]
  constructor <;> nlinarith

/-- No natural is nearer to a quotient than the one that it is rounded to. -/
theorem abs_nearestDiv_sub_le_abs (hd : 0 < d) (k : ℕ) :
    |(nearestDiv n d : ℚ) - n / d| ≤ |(k : ℚ) - n / d| := by
  by_contra hlt
  rw [not_le] at hlt
  -- both would be less than a half away, and so the same
  have hhalf := abs_nearestDiv_sub_le n hd
  have htriangle := abs_sub_le (k : ℚ) (n / d) (nearestDiv n d)
  rw [abs_sub_comm ((n : ℚ) / d)] at htriangle
  have hsame : k = nearestDiv n d := eq_of_abs_sub_lt_one (by linarith)
  rw [hsame] at hlt
  exact lt_irrefl _ hlt

/-- Half of an odd number is rounded to the even neighbour. -/
theorem nearestDiv_two_of_odd {n : ℕ} (h : n % 2 = 1) :
    nearestDiv n 2 % 2 = 0 ∧ (2 * nearestDiv n 2 = n + 1 ∨ 2 * nearestDiv n 2 + 1 = n) := by
  have hhalf : ¬ 2 * (n % 2) < 2 ∧ ¬ 2 < 2 * (n % 2) := by omega
  rw [nearestDiv, if_neg hhalf.1, if_neg hhalf.2]
  omega

theorem nearestDiv_mul_mul_right {c : ℕ} (hc : 0 < c) :
    nearestDiv (n * c) (d * c) = nearestDiv n d := by
  have hleft : 2 * (n % d * c) < d * c ↔ 2 * (n % d) < d := by
    rw [← Nat.mul_assoc, Nat.mul_lt_mul_right hc]
  have hright : d * c < 2 * (n % d * c) ↔ d < 2 * (n % d) := by
    rw [← Nat.mul_assoc, Nat.mul_lt_mul_right hc]
  simp only [nearestDiv, Nat.mul_div_mul_right _ _ hc, Nat.mul_mod_mul_right, hleft, hright]

end Quotient

/-! ## Values -/

/-- The exact value of a magnitude. -/
def Magnitude.value (m : Magnitude) : ℚ := m.units / unitsPerOne

/-- The exact value of a finite number; what is not finite has none and counts as zero. -/
def Binary64.value : Binary64 → ℚ
  | finite negative m => if negative then -m.value else m.value
  | _ => 0

theorem cast_unitsPerOne_pos : (0 : ℚ) < unitsPerOne := by exact_mod_cast unitsPerOne_pos

namespace Magnitude

variable {n d : ℕ} {m r : Magnitude} {q q' : ℚ}

theorem value_nonneg (m : Magnitude) : 0 ≤ m.value :=
  div_nonneg (Nat.cast_nonneg _) (Nat.cast_nonneg _)

theorem value_le_iff {a b : Magnitude} : a.value ≤ b.value ↔ a.units ≤ b.units := by
  rw [value, value, div_le_div_iff_of_pos_right cast_unitsPerOne_pos, Nat.cast_le]

theorem value_inj {a b : Magnitude} : a.value = b.value ↔ a = b := by
  refine ⟨fun h => ext ?_, fun h => h ▸ rfl⟩
  exact Nat.le_antisymm (value_le_iff.1 h.le) (value_le_iff.1 h.ge)

@[simp] theorem value_zero : Magnitude.zero.value = 0 := by
  show ((0 : ℕ) : ℚ) / unitsPerOne = 0
  rw [Nat.cast_zero, zero_div]

/-- No magnitude is nearer to `q` than `r`. -/
def Nearest (r : Magnitude) (q : ℚ) : Prop := ∀ b : Magnitude, |r.value - q| ≤ |b.value - q|

theorem roundUnits_nearest_multiple (n : ℕ) {d : ℕ} (hd : 0 < d) (k : ℕ) :
    |(roundUnits n d : ℚ) - n / d| ≤ |((k * lastPlace (n / d) : ℕ) : ℚ) - n / d| := by
  have hpos : 0 < lastPlace (n / d) := twoTo_pos _
  have hplace : (0 : ℚ) < lastPlace (n / d) := by exact_mod_cast hpos
  have hnearest := abs_nearestDiv_sub_le_abs n (Nat.mul_pos hd hpos) k
  have hscaled : ∀ x : ℚ, |x * lastPlace (n / d) - n / d| =
      |x - n / (d * lastPlace (n / d) : ℕ)| * lastPlace (n / d) := by
    intro x
    have hdivisor : (d : ℚ) ≠ 0 := by exact_mod_cast hd.ne'
    rw [← abs_of_pos hplace, ← abs_mul, abs_of_pos hplace, sub_mul]
    congr 2
    push_cast
    field_simp
  rw [roundUnits, Nat.cast_mul, Nat.cast_mul, hscaled, hscaled]
  exact mul_le_mul_of_nonneg_right hnearest hplace.le

/-- What is rounded to 53 bits is as near as any count of units with so many bits. A shorter count
is farther away than the power of two between it and the quotient. -/
theorem roundUnits_nearest (n : ℕ) {d b : ℕ} (hd : 0 < d) (hb : lastPlace b ∣ b) :
    |(roundUnits n d : ℚ) - n / d| ≤ |(b : ℚ) - n / d| := by
  by_cases hlow : b.log2 < (n / d).log2 ∧ 52 < (n / d).log2
  · have hne : n / d ≠ 0 := by
      intro hzero
      rw [hzero] at hlow
      exact absurd hlow.2 (by decide)
    have hbelow : (b : ℚ) ≤ twoTo (n / d).log2 := by
      have hlt : b < twoTo (n / d).log2 :=
        Nat.lt_of_lt_of_le (lt_twoTo_log2_succ b) (twoTo_le hlow.1)
      exact_mod_cast hlt.le
    have habove : (twoTo (n / d).log2 : ℚ) ≤ n / d := by
      have hle : twoTo (n / d).log2 ≤ n / d := Nat.log2_self_le hne
      exact (Nat.cast_le.2 hle).trans Nat.cast_div_le
    have hpower : twoTo 52 * lastPlace (n / d) = twoTo (n / d).log2 := by
      rw [lastPlace, ← twoTo_add, Nat.add_sub_cancel' hlow.2.le]
    have hle := roundUnits_nearest_multiple n hd (twoTo 52)
    rw [hpower] at hle
    refine hle.trans ?_
    rw [abs_of_nonpos (by linarith), abs_of_nonpos (by linarith)]
    linarith
  · have hdvd : lastPlace (n / d) ∣ lastPlace b := twoTo_dvd (by omega)
    obtain ⟨k, hk⟩ := hdvd.trans hb
    have hle := roundUnits_nearest_multiple n hd k
    rwa [Nat.mul_comm, ← hk] at hle

theorem nearest_of_nearest (h : nearest n d = some r) : r.Nearest (n / (d * unitsPerOne)) := by
  unfold nearest at h
  split at h
  · rename_i hfits
    obtain rfl := Option.some.inj h
    intro b
    have hscaled : ∀ k : ℕ, |(k : ℚ) / unitsPerOne - n / (d * unitsPerOne)| =
        |(k : ℚ) - n / d| / unitsPerOne := by
      intro k
      rw [← div_div, ← sub_div, abs_div, abs_of_pos cast_unitsPerOne_pos]
    rw [value, value, hscaled, hscaled]
    exact div_le_div_of_nonneg_right (roundUnits_nearest n hfits.1 b.lastPlace_dvd)
      cast_unitsPerOne_pos.le
  · cases h

theorem nearest_of_ofUnits {negative s : Bool} (h : Binary64.ofUnits negative n d = .finite s r) :
    r.Nearest (n / (d * unitsPerOne)) := by
  unfold Binary64.ofUnits at h
  split at h
  · rename_i hnearest
    cases h
    exact nearest_of_nearest hnearest
  · cases h

/-- What is nearest to the smaller of two numbers is not above what is nearest to the other. -/
theorem Nearest.le (h : r.Nearest q) {r' : Magnitude} (h' : r'.Nearest q') (hlt : q < q') :
    r.value ≤ r'.value := by
  by_contra hgt
  rw [not_le] at hgt
  -- exchanging the two magnitudes would bring them nearer together
  have hleft := sq_le_sq.2 (h r')
  have hright := sq_le_sq.2 (h' r)
  have hpos := mul_pos (sub_pos.2 hgt) (sub_pos.2 hlt)
  linarith

theorem Nearest.value_eq (h : r.Nearest m.value) : r = m := by
  have hzero := h m
  rw [sub_self, abs_zero, abs_nonpos_iff, sub_eq_zero] at hzero
  exact value_inj.1 hzero

/-! ## How far apart magnitudes are -/

section Places

variable {k s : ℕ}

theorem cast_twoTo (n : ℕ) : (twoTo n : ℚ) = 2 ^ n := Nat.cast_pow 2 n

theorem mul_value_of_units (hs : s ≤ 1074) (h : m.units = k * twoTo (1074 - s)) :
    2 ^ s * m.value = k := by
  have hunits : unitsPerOne = twoTo (1074 - s) * twoTo s := by
    rw [unitsPerOne, ← twoTo_add, Nat.sub_add_cancel hs]
  have hpos : (twoTo (1074 - s) : ℚ) ≠ 0 := by exact_mod_cast (twoTo_pos _).ne'
  rw [value, h, hunits, Nat.cast_mul, Nat.cast_mul, cast_twoTo s, mul_comm (k : ℚ),
    mul_div_mul_left _ _ hpos, mul_div_cancel₀ _ (by positivity)]

theorem exists_mul_value_eq (hk : k ≤ twoTo 53) (hs : s ≤ 1074) :
    ∃ m : Magnitude, 2 ^ s * m.value = k := by
  obtain ⟨m, hm⟩ := exists_units_eq (s := 1074 - s) hk (by omega)
  exact ⟨m, mul_value_of_units hs hm⟩

/-- From `2 ^ (52 - s)` on the magnitudes are multiples of `2 ^ (-s)`. -/
theorem exists_multiple (hs : s ≤ 52) (h : (2 : ℚ) ^ 52 ≤ 2 ^ s * m.value) :
    ∃ k : ℕ, m.units = k * twoTo (1074 - s) ∧ 2 ^ s * m.value = k := by
  have hunits : twoTo 52 * unitsPerOne ≤ twoTo s * m.units := by
    rw [value, ← mul_div_assoc, le_div_iff₀ cast_unitsPerOne_pos, ← cast_twoTo, ← cast_twoTo] at h
    exact_mod_cast h
  have hlarge : twoTo (1126 - s) ≤ m.units := by
    have hpower : twoTo s * twoTo (1126 - s) = twoTo 52 * unitsPerOne := by
      rw [unitsPerOne, ← twoTo_add, ← twoTo_add, Nat.add_sub_cancel' (by omega)]
    rw [← hpower] at hunits
    exact Nat.le_of_mul_le_mul_left hunits (twoTo_pos s)
  have hlog := le_log2_of_twoTo_le (Nat.lt_of_lt_of_le (twoTo_pos _) hlarge).ne' hlarge
  obtain ⟨k, hk⟩ := (twoTo_dvd (show 1074 - s ≤ m.units.log2 - 52 by omega)).trans m.lastPlace_dvd
  rw [Nat.mul_comm] at hk
  exact ⟨k, hk, mul_value_of_units (by omega) hk⟩

theorem Nearest.mul (h : r.Nearest q) (b : Magnitude) (s : ℕ) :
    |2 ^ s * r.value - 2 ^ s * q| ≤ |2 ^ s * b.value - 2 ^ s * q| := by
  rw [← mul_sub, ← mul_sub, abs_mul, abs_mul]
  exact mul_le_mul_of_nonneg_left (h b) (abs_nonneg _)

/-- Up to `2 ^ (53 - s)` some magnitude is at most half of `2 ^ (-s)` away. -/
theorem Nearest.within (h : r.Nearest q) (hs : s ≤ 1074) (hq : 0 ≤ q)
    (hle : 2 ^ s * q ≤ 2 ^ 53) : |2 ^ s * r.value - 2 ^ s * q| ≤ 1 / 2 := by
  have hround := abs_sub_round (2 ^ s * q)
  obtain ⟨k, hk⟩ : ∃ k : ℕ, round (2 ^ s * q) = k := by
    apply Int.eq_ofNat_of_zero_le
    rw [round_eq]
    exact Int.floor_nonneg.2 (by positivity)
  rw [hk, Int.cast_natCast] at hround
  have hk53 : k ≤ twoTo 53 := by
    have hlow := (abs_le.1 hround).1
    have hlt : k < 2 ^ 53 + 1 := by exact_mod_cast (show (k : ℚ) < 2 ^ 53 + 1 by linarith)
    exact Nat.lt_succ_iff.1 hlt
  obtain ⟨b, hb⟩ := exists_mul_value_eq hk53 hs
  have hle := h.mul b s
  rw [hb, abs_sub_comm (k : ℚ)] at hle
  exact hle.trans hround

/-- Above `2 ^ (52 - s)` a magnitude that is less than half of `2 ^ (-s)` away is the nearest. -/
theorem Nearest.eq_of_near (h : r.Nearest q) (hs : s ≤ 52) (hm : (2 : ℚ) ^ 52 < 2 ^ s * m.value)
    (hq : |2 ^ s * m.value - 2 ^ s * q| < 1 / 2) : r = m := by
  have hdistance : |2 ^ s * r.value - 2 ^ s * m.value| < 1 := by
    have htriangle := abs_sub_le (2 ^ s * r.value) (2 ^ s * q) (2 ^ s * m.value)
    rw [abs_sub_comm (2 ^ s * q)] at htriangle
    have := h.mul m s
    linarith
  obtain ⟨i, -, hi⟩ := exists_multiple hs hm.le
  -- the next magnitude below is still a multiple of the same power of two
  have hr : (2 : ℚ) ^ 52 ≤ 2 ^ s * r.value := by
    have hstep : (2 : ℚ) ^ 52 + 1 ≤ i := by
      rw [hi] at hm
      exact_mod_cast hm
    have := (abs_lt.1 hdistance).1
    linarith
  obtain ⟨k, -, hk⟩ := exists_multiple hs hr
  rw [hi, hk] at hdistance
  rw [eq_of_abs_sub_lt_one hdistance, ← hi] at hk
  exact value_inj.1 (mul_left_cancel₀ (by positivity) hk)

end Places

end Magnitude

namespace Binary64

/-- A number is rounded to the magnitude that is nearest to the tenths it is written as. -/
theorem exists_toTenth (negative : Bool) (m : Magnitude) :
    ∃ r : Magnitude, (finite negative m).toTenth = finite (negative && m.tenths != 0) r ∧
      r.Nearest (m.tenths / 10) := by
  rw [toTenth]
  by_cases ht : m.tenths = 0
  · refine ⟨Magnitude.zero, ?_, ?_⟩
    · rw [ht]
      rfl
    · intro b
      rw [ht]
      simp
  · obtain ⟨bound, hbound⟩ := m.exists_tenths_le
    obtain ⟨r, hr, -⟩ :=
      exists_ofUnits_le bound (negative && m.tenths != 0) (show 0 < 10 by decide) hbound
    refine ⟨r, by rw [ofDecimal_tenths _ ht, hr], ?_⟩
    have hvalue : (m.tenths : ℚ) / 10 =
        (m.tenths * unitsPerOne : ℕ) / ((10 : ℕ) * unitsPerOne) := by
      rw [Nat.cast_mul, mul_div_mul_right _ _ cast_unitsPerOne_pos.ne', Nat.cast_ofNat]
    rw [hvalue]
    exact Magnitude.nearest_of_ofUnits hr

end Binary64

end ProgramDiagram
