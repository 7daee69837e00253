import Mathlib.Algebra.Order.Round
import Mathlib.Data.Rat.Floor
import Mathlib.Tactic.Linarith
import Mathlib.Tactic.Ring
import Mathlib.Tactic.Positivity
import ProgramDiagram.Number.Scalar

/-!
# Exact lengths

The layout in exact arithmetic: rational numbers that are only rounded where the layout rounds to a
tenth.

* `tenth`: the nearest tenth, a half going away from zero;
* `IsTenth`: the numbers that rounding leaves as they are.
-/

namespace ProgramDiagram

/-- The nearest multiple of one tenth. Two are equally near to a half; it goes to the one that is
farther from zero. -/
def tenth (x : ℚ) : ℚ := if x < 0 then -(round (10 * -x) / 10 : ℚ) else round (10 * x) / 10

instance : Scalar ℚ where
  ofNat n := n
  half x := x / 2
  less x y := x < y
  max := max
  toTenth := tenth

theorem less_iff (x y : ℚ) : Scalar.less x y = true ↔ x < y := decide_eq_true_iff

def IsTenth (x : ℚ) : Prop := ∃ n : ℤ, x = n / 10

variable {x y : ℚ}

theorem tenth_of_nonneg (h : 0 ≤ x) : tenth x = round (10 * x) / 10 := if_neg (not_lt.2 h)

theorem tenth_neg (x : ℚ) : tenth (-x) = -tenth x := by
  unfold tenth
  by_cases hneg : x < 0
  · have hpos : ¬-x < 0 := by linarith
    rw [if_pos hneg, if_neg hpos, neg_neg]
  · by_cases hzero : x = 0
    · simp [hzero]
    · have hpos : 0 < x := lt_of_le_of_ne (not_lt.1 hneg) (Ne.symm hzero)
      rw [if_neg hneg, if_pos (neg_lt_zero.2 hpos), neg_neg]

theorem isTenth_tenth (x : ℚ) : IsTenth (tenth x) := by
  unfold tenth
  split
  · exact ⟨-round (10 * -x), by push_cast; ring⟩
  · exact ⟨round (10 * x), rfl⟩

theorem isTenth_zero : IsTenth 0 := ⟨0, by simp⟩

theorem IsTenth.add (hx : IsTenth x) (hy : IsTenth y) : IsTenth (x + y) := by
  obtain ⟨m, rfl⟩ := hx
  obtain ⟨n, rfl⟩ := hy
  exact ⟨m + n, by push_cast; ring⟩

theorem IsTenth.sub (hx : IsTenth x) (hy : IsTenth y) : IsTenth (x - y) := by
  obtain ⟨m, rfl⟩ := hx
  obtain ⟨n, rfl⟩ := hy
  exact ⟨m - n, by push_cast; ring⟩

theorem IsTenth.natCast_mul (n : ℕ) (hx : IsTenth x) : IsTenth (n * x) := by
  obtain ⟨m, rfl⟩ := hx
  exact ⟨n * m, by push_cast; ring⟩

theorem IsTenth.max (hx : IsTenth x) (hy : IsTenth y) : IsTenth (max x y) := by
  cases max_choice x y with
  | inl h => rwa [h]
  | inr h => rwa [h]

theorem isTenth_sum {xs : List ℚ} (h : ∀ x ∈ xs, IsTenth x) : IsTenth xs.sum := by
  induction xs with
  | nil => exact isTenth_zero
  | cons x xs ih =>
    rw [List.sum_cons]
    exact (h x List.mem_cons_self).add (ih fun y hy => h y (List.mem_cons_of_mem x hy))

theorem tenth_nonneg (h : 0 ≤ x) : 0 ≤ tenth x := by
  rw [tenth_of_nonneg h]
  have hround : (0 : ℤ) ≤ round (10 * x) := by
    rw [round_eq]
    exact Int.floor_nonneg.2 (by linarith)
  have : (0 : ℚ) ≤ round (10 * x) := by exact_mod_cast hround
  linarith

theorem tenth_add (hx : 0 ≤ x) (hy : 0 ≤ y) (h : IsTenth y) : tenth (x + y) = tenth x + y := by
  obtain ⟨n, rfl⟩ := h
  rw [tenth_of_nonneg (add_nonneg hx hy), tenth_of_nonneg hx, mul_add,
    mul_div_cancel₀ (n : ℚ) (by norm_num), round_add_intCast]
  push_cast
  ring

@[simp] theorem tenth_zero : tenth 0 = 0 := by simp [tenth]

theorem IsTenth.tenth_eq (h : IsTenth x) : tenth x = x := by
  have of_nonneg : ∀ y : ℚ, 0 ≤ y → IsTenth y → tenth y = y := by
    intro y hy htenth
    simpa using tenth_add le_rfl hy htenth
  by_cases hx : 0 ≤ x
  · exact of_nonneg x hx h
  · have hneg : IsTenth (-x) := by
      obtain ⟨n, rfl⟩ := h
      exact ⟨-n, by push_cast; ring⟩
    have := of_nonneg (-x) (by linarith) hneg
    rw [tenth_neg] at this
    linarith

theorem tenth_mono (h : x ≤ y) : tenth x ≤ tenth y := by
  have of_nonneg : ∀ a b : ℚ, 0 ≤ a → a ≤ b → tenth a ≤ tenth b := by
    intro a b ha hab
    rw [tenth_of_nonneg ha, tenth_of_nonneg (ha.trans hab)]
    have hround : round (10 * a) ≤ round (10 * b) := by
      rw [round_eq, round_eq]
      exact Int.floor_mono (by linarith)
    have : (round (10 * a) : ℚ) ≤ round (10 * b) := by exact_mod_cast hround
    linarith
  rcases le_total 0 x with hx | hx
  · exact of_nonneg x y hx h
  · have hnegx := tenth_nonneg (x := -x) (by linarith)
    rw [tenth_neg] at hnegx
    rcases le_total 0 y with hy | hy
    · have := tenth_nonneg hy
      linarith
    · have := of_nonneg (-y) (-x) (by linarith) (by linarith)
      rw [tenth_neg, tenth_neg] at this
      linarith

/-- No tenth is nearer to a number than the one that it is rounded to. -/
theorem tenth_nearest (x : ℚ) (h : IsTenth y) : |tenth x - x| ≤ |y - x| := by
  have of_nonneg : ∀ z : ℚ, 0 ≤ z → ∀ n : ℤ, |tenth z - z| ≤ |n / 10 - z| := by
    intro z hz n
    have hdistance : ∀ m : ℚ, |m / 10 - z| = |10 * z - m| / 10 := by
      intro m
      have hscaled : m / 10 - z = -((10 * z - m) / 10) := by ring
      rw [hscaled, abs_neg, abs_div, abs_of_pos (by norm_num : (0 : ℚ) < 10)]
    have hround := round_le (10 * z) n
    rw [tenth_of_nonneg hz, hdistance, hdistance]
    linarith
  obtain ⟨n, rfl⟩ := h
  rcases le_total 0 x with hx | hx
  · exact of_nonneg x hx n
  · have hreflected := of_nonneg (-x) (by linarith) (-n)
    have hleft : tenth (-x) - -x = -(tenth x - x) := by
      rw [tenth_neg]
      ring
    have hright : ((-n : ℤ) / 10 - -x : ℚ) = -(n / 10 - x) := by
      push_cast
      ring
    rwa [hleft, hright, abs_neg, abs_neg] at hreflected

/-- A number halfway between two tenths is rounded away from zero. -/
theorem tenth_half (n : ℕ) : tenth ((2 * n + 1) / 20) = (n + 1) / 10 := by
  have hround : round (10 * ((2 * n + 1) / 20 : ℚ)) = n + 1 := by
    rw [round_eq, show (10 * ((2 * n + 1) / 20 : ℚ) + 1 / 2) = ((n + 1 : ℤ) : ℚ) by push_cast; ring,
      Int.floor_intCast]
  rw [tenth_of_nonneg (by positivity), hround]
  push_cast
  rfl

/-- A number is less than half a tenth above what it is rounded to, as halves go up. -/
theorem sub_tenth_lt (h : 0 ≤ x) : x - tenth x < 1 / 20 := by
  rw [tenth_of_nonneg h, round_eq]
  have := Int.lt_floor_add_one (10 * x + 1 / 2)
  linarith

/-- Rounding changes a number by half a tenth at most. -/
theorem abs_tenth_sub_le (x : ℚ) : |tenth x - x| ≤ 1 / 20 := by
  have of_nonneg : ∀ y : ℚ, 0 ≤ y → |tenth y - y| ≤ 1 / 20 := by
    intro y hy
    obtain ⟨hlow, hhigh⟩ := abs_le.1 (abs_sub_round (10 * y))
    rw [tenth_of_nonneg hy, abs_le]
    constructor <;> linarith
  rcases le_total 0 x with hx | hx
  · exact of_nonneg x hx
  · have hreflected := of_nonneg (-x) (by linarith)
    rwa [tenth_neg, ← neg_sub', abs_neg] at hreflected

/-- What is less than half a tenth below zero is rounded to zero. -/
theorem tenth_eq_zero (hlt : -(1 / 20) < x) (hx : x ≤ 0) : tenth x = 0 := by
  have hround : round (10 * -x) = 0 := by
    rw [round_eq]
    exact Int.floor_eq_zero_iff.2 ⟨by linarith, by linarith⟩
  rw [← neg_neg x, tenth_neg, tenth_of_nonneg (by linarith), hround]
  simp

/-- A tenth is a bound of what is rounded if it is one of what rounding gives. -/
theorem tenth_le (h : x ≤ y) (hy : IsTenth y) : tenth x ≤ y := by
  rw [← hy.tenth_eq]
  exact tenth_mono h

theorem le_tenth (hx : IsTenth x) (h : x ≤ y) : x ≤ tenth y := by
  rw [← hx.tenth_eq]
  exact tenth_mono h

end ProgramDiagram
