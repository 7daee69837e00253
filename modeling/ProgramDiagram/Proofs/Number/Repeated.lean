import ProgramDiagram.Proofs.Number.Exactness

/-!
# Rounding again

* `tenths_of_nearest`: what a magnitude is rounded to has the same tenths, so that rounding it or
  writing it gives nothing new;
* `tenths_mono`, `value_toTenth_mono`: rounding keeps the order, also among the numbers that are not
  written as a tenth next to them.
-/

namespace ProgramDiagram

namespace Magnitude

variable {a b m r r' : Magnitude} {j t : ℕ}

/-! ## The same tenths -/

/-- A magnitude less than half a tenth away from some tenths is written as them. -/
theorem tenths_of_near (h : |(t : ℚ) - 10 * r.value| < 1 / 2) : r.tenths = t := by
  have hwhole : r.isHalfway = false := by
    rw [Bool.eq_false_iff]
    intro hhalf
    obtain ⟨j, hodd, hunits⟩ := isHalfway_iff.1 hhalf
    rw [value_eq_quarters_iff.2 hunits] at h
    obtain ⟨hlow, hhigh⟩ := abs_lt.1 h
    have hlow' : 5 * j < 2 * t + 1 := by
      exact_mod_cast (show 5 * (j : ℚ) < 2 * t + 1 by linarith)
    have hhigh' : 2 * t < 5 * j + 1 := by
      exact_mod_cast (show 2 * (t : ℚ) < 5 * j + 1 by linarith)
    omega
  rw [tenths, hwhole, if_neg Bool.false_ne_true]
  exact nearestTenths_eq h

theorem five_dvd_tenths (hmoved : j % 8 = 1 ∧ 2 * m.tenths = 5 * (j + 1) ∨
    j % 8 = 7 ∧ 2 * m.tenths = 5 * (j - 1)) : 5 ∣ m.tenths := by
  omega

/-- The nearest magnitude to what a magnitude is written as is written the same. -/
theorem tenths_of_nearest (h : r.Nearest (m.tenths / 10)) : r.tenths = m.tenths := by
  rcases m.tenths_near_or_moved with hnear | ⟨j, -, -, hmoved⟩
  · by_cases hlarge : (2 : ℚ) ^ 49 < m.value
    · rw [h.eq_of_tenth hlarge hnear]
    · have hbelow : m.tenths ≤ 10 * 2 ^ 49 := by
        have hhigh := (abs_le.1 hnear).2
        rw [not_lt] at hlarge
        have hle : 2 * m.tenths ≤ 20 * 2 ^ 49 + 1 := by
          exact_mod_cast (show 2 * (m.tenths : ℚ) ≤ 20 * 2 ^ 49 + 1 by linarith)
        omega
      exact tenths_of_near (h.near_tenth hbelow)
  · -- a multiple of one half is its own nearest magnitude
    obtain ⟨p, hp⟩ := exists_value_tenths (five_dvd_tenths hmoved)
    have hexact : (m.tenths : ℚ) - 10 * p.value = 0 := by
      rw [hp]
      linarith
    rw [← hp] at h
    apply tenths_of_near
    rw [h.value_eq, hexact, abs_zero]
    norm_num

/-! ## Order -/

/-- Above `2 ^ 50` no magnitude lies between two quarters next to each other. -/
theorem succ_le_of_quarters_lt (ha : a.units = j * twoTo 1072) (hj : 2 ^ 52 ≤ j)
    (h : a.value < b.value) : (j : ℚ) + 1 ≤ 4 * b.value := by
  have hj' : (2 : ℚ) ^ 52 ≤ j := by exact_mod_cast hj
  rw [value_eq_quarters_iff.2 ha] at h
  obtain ⟨k, -, hk⟩ := exists_multiple (m := b) (s := 2) (by decide) (by linarith)
  have hlt : j < k := by exact_mod_cast (show (j : ℚ) < k by linarith)
  have hle : (j : ℚ) + 1 ≤ k := by exact_mod_cast hlt
  linarith

theorem le_pred_of_lt_quarters (hb : b.units = j * twoTo 1072) (hj : 2 ^ 52 < j)
    (h : a.value < b.value) : 4 * a.value + 1 ≤ j := by
  have hj' : (2 : ℚ) ^ 52 + 1 ≤ j := by exact_mod_cast hj
  rw [value_eq_quarters_iff.2 hb] at h
  by_cases hlarge : (2 : ℚ) ^ 52 ≤ 2 ^ 2 * a.value
  · obtain ⟨k, -, hk⟩ := exists_multiple (s := 2) (by decide) hlarge
    have hlt : k < j := by exact_mod_cast (show (k : ℚ) < j by linarith)
    have hle : (k : ℚ) + 1 ≤ j := by exact_mod_cast hlt
    linarith
  · linarith

/-- The tenths keep the order. A magnitude that is moved stays on its side of all others, as it goes
to the next even number of quarters and only every other odd one is moved up. -/
theorem tenths_mono (h : a.value ≤ b.value) : a.tenths ≤ b.tenths := by
  rcases h.eq_or_lt with heq | hlt
  · rw [value_inj.1 heq]
  rcases a.tenths_near_or_moved with hnear | ⟨j, hj, hlarge, hmoved⟩
  · have hbelow := (abs_le.1 hnear).2
    rcases b.tenths_near_or_moved with hnear' | ⟨k, hk, hlarge', hmoved'⟩
    · have habove := (abs_le.1 hnear').1
      have hle : a.tenths < b.tenths + 1 := by
        exact_mod_cast (show (a.tenths : ℚ) < b.tenths + 1 by linarith)
      omega
    · have hpred := le_pred_of_lt_quarters hk (by omega) hlt
      have hle : 2 * a.tenths + 4 ≤ 5 * k := by
        exact_mod_cast (show 2 * (a.tenths : ℚ) + 4 ≤ 5 * k by linarith)
      omega
  · rcases b.tenths_near_or_moved with hnear' | ⟨k, hk, -, hmoved'⟩
    · have habove := (abs_le.1 hnear').1
      have hsucc := succ_le_of_quarters_lt hj (by omega) hlt
      have hle : 5 * j + 4 ≤ 2 * b.tenths := by
        exact_mod_cast (show 5 * (j : ℚ) + 4 ≤ 2 * b.tenths by linarith)
      omega
    · rw [value_eq_quarters_iff.2 hj, value_eq_quarters_iff.2 hk] at hlt
      have hjk : j < k := by exact_mod_cast (show (j : ℚ) < k by linarith)
      omega

/-- The magnitudes that two others are rounded to are in the same order. -/
theorem Nearest.mono (hr : r.Nearest (a.tenths / 10)) (hr' : r'.Nearest (b.tenths / 10))
    (h : a.value ≤ b.value) : r.value ≤ r'.value := by
  rcases (tenths_mono h).eq_or_lt with heq | hlt
  · by_contra hne
    have hne' : r ≠ r' := fun hsame => hne (hsame ▸ le_rfl)
    rw [← heq] at hr'
    exact lt_asymm (hr.lt_of_ne hne'.symm) (hr'.lt_of_ne hne')
  · have hlt' : (a.tenths : ℚ) < b.tenths := by exact_mod_cast hlt
    exact hr.le hr' (by linarith)

theorem Nearest.value_eq_zero (hr : r.Nearest (a.tenths / 10)) (h : a.tenths = 0) :
    r.value = 0 := by
  rw [h, Nat.cast_zero, zero_div, ← value_zero] at hr
  rw [hr.value_eq, value_zero]

end Magnitude

namespace Binary64

variable {x y : Binary64}

/-! ## Numbers with their signs -/

theorem toTenth_zero : zero.toTenth = zero := by
  rw [zero, toTenth, Magnitude.tenths_eq_zero Magnitude.value_zero]
  rfl

theorem fixedText_zero : zero.fixedText = "0.0" := by
  rw [zero, fixedText, Magnitude.tenths_eq_zero Magnitude.value_zero]
  rfl

theorem toTenth_toTenth (x : Binary64) : x.toTenth.toTenth = x.toTenth := by
  cases x with
  | nan | infinite => exact toTenth_zero
  | finite negative m =>
    obtain ⟨r, hr, hnearest⟩ := exists_toTenth negative m
    have hsame := Magnitude.tenths_of_nearest hnearest
    rw [hr, toTenth, hsame, Bool.and_assoc, Bool.and_self, ← hr, toTenth]

theorem fixedText_toTenth (x : Binary64) : x.toTenth.fixedText = x.fixedText := by
  cases x with
  | nan | infinite => exact fixedText_zero
  | finite negative m =>
    obtain ⟨r, hr, hnearest⟩ := exists_toTenth negative m
    have hsame := Magnitude.tenths_of_nearest hnearest
    rw [hr, fixedText, hsame, Bool.and_assoc, Bool.and_self, fixedText]

theorem exists_value_toTenth (negative : Bool) (m : Magnitude) :
    ∃ r : Magnitude, r.Nearest (m.tenths / 10) ∧
      (finite negative m).toTenth.value = if negative then -r.value else r.value := by
  obtain ⟨r, hr, hnearest⟩ := exists_toTenth negative m
  refine ⟨r, hnearest, ?_⟩
  rw [hr]
  by_cases ht : m.tenths = 0
  · simp [value, ht, hnearest.value_eq_zero ht]
  · simp [value, ht]

theorem value_toTenth_mono (hx : x.isFinite) (hy : y.isFinite) (h : x.value ≤ y.value) :
    x.toTenth.value ≤ y.toTenth.value := by
  cases x with
  | nan | infinite => cases hx
  | finite s a =>
    cases y with
    | nan | infinite => cases hy
    | finite s' b =>
      obtain ⟨r, hr, hleft⟩ := exists_value_toTenth s a
      obtain ⟨r', hr', hright⟩ := exists_value_toTenth s' b
      have ha := a.value_nonneg
      have hb := b.value_nonneg
      have hrpos := r.value_nonneg
      have hrpos' := r'.value_nonneg
      rw [hleft, hright]
      cases s with
      | false =>
        cases s' with
        | false => exact hr.mono hr' h
        | true =>
          -- only zero is not greater than a negative zero
          have hle : a.value ≤ -b.value := h
          have hzero := hr.value_eq_zero (Magnitude.tenths_eq_zero (by linarith))
          have hzero' := hr'.value_eq_zero (Magnitude.tenths_eq_zero (by linarith))
          simp [hzero, hzero']
      | true =>
        cases s' with
        | false =>
          show -r.value ≤ r'.value
          linarith
        | true =>
          have hle : b.value ≤ a.value := neg_le_neg_iff.1 h
          exact neg_le_neg (hr'.mono hr hle)

/-- A number that was rounded before is not changed by rounding and is written the same, and
rounding puts no two numbers in another order. -/
theorem toTenth_repeated :
    (∀ x : Binary64, x.toTenth.toTenth = x.toTenth ∧ x.toTenth.fixedText = x.fixedText) ∧
      ∀ x y : Binary64, x.isFinite → y.isFinite → x.value ≤ y.value →
        x.toTenth.value ≤ y.toTenth.value :=
  ⟨fun x => ⟨toTenth_toTenth x, fixedText_toTenth x⟩, fun _ _ => value_toTenth_mono⟩

/-- Two neighbours of which the smaller one is moved. -/
theorem toTenth_repeated_quarters : ∃ x y : Binary64, x.isFinite ∧ y.isFinite ∧
    x.value = 7205759403792801 / 4 ∧ y.value = 7205759403792802 / 4 ∧ x.value ≤ y.value ∧
      x.toTenth.value ≤ y.toTenth.value := by
  have hexists : ∀ k : ℕ, k ≤ twoTo 53 → ∃ m : Magnitude, (finite false m).value = k / 4 := by
    intro k hk
    obtain ⟨m, hm⟩ := Magnitude.exists_mul_value_eq (s := 2) hk (by decide)
    refine ⟨m, ?_⟩
    show m.value = k / 4
    linarith
  obtain ⟨a, ha⟩ := hexists 7205759403792801 (by decide)
  obtain ⟨b, hb⟩ := hexists 7205759403792802 (by decide)
  have hle : (finite false a).value ≤ (finite false b).value := by
    rw [ha, hb]
    norm_num
  exact ⟨_, _, rfl, rfl, by rw [ha]; norm_num, by rw [hb]; norm_num, hle,
    toTenth_repeated.2 _ _ rfl rfl hle⟩

end Binary64

end ProgramDiagram
