/-!
# Rounding a quotient

A quotient of naturals rounds to the nearest natural, a half going to the even neighbour.

* `nearestDiv_mul_right`: an exact quotient is its own rounding.
* `nearestDiv_le_of_le`: what is below an integer bound rounds below it.
-/

namespace ProgramDiagram

/-- The natural nearest to `n / d`; a half goes to the even neighbour. -/
def nearestDiv (n d : Nat) : Nat :=
  if 2 * (n % d) < d then n / d
  else if d < 2 * (n % d) then n / d + 1
  else n / d + n / d % 2

theorem nearestDiv_bounds (n d : Nat) : n / d ≤ nearestDiv n d ∧ nearestDiv n d ≤ n / d + 1 := by
  unfold nearestDiv
  split
  · omega
  · split <;> omega

theorem nearestDiv_mul_right (k : Nat) {d : Nat} (hd : 0 < d) : nearestDiv (k * d) d = k := by
  simp [nearestDiv, Nat.mul_div_cancel k hd, hd]

theorem nearestDiv_le_of_le {n d b : Nat} (hd : 0 < d) (h : n ≤ b * d) : nearestDiv n d ≤ b := by
  have hq : n / d ≤ b := by
    rw [Nat.div_le_iff_le_mul_add_pred hd, Nat.mul_comm]
    omega
  by_cases heq : n / d = b
  · have hn : n = b * d := by
      have h' := Nat.div_add_mod n d
      rw [heq, Nat.mul_comm] at h'
      omega
    exact hn ▸ Nat.le_of_eq (nearestDiv_mul_right b hd)
  · have := (nearestDiv_bounds n d).2
    omega

end ProgramDiagram
