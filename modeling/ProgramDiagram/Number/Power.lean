/-!
# Powers of two and ten

* `twoTo_add`, `twoTo_dvd`: powers of two multiply and divide as their exponents add and compare.
-/

namespace ProgramDiagram

def twoTo (n : Nat) : Nat := Nat.pow 2 n

def tenTo (n : Nat) : Nat := Nat.pow 10 n

theorem twoTo_pos (n : Nat) : 0 < twoTo n := Nat.two_pow_pos n

theorem tenTo_pos (n : Nat) : 0 < tenTo n := Nat.pow_pos (by decide)

theorem twoTo_add (m n : Nat) : twoTo (m + n) = twoTo m * twoTo n := Nat.pow_add 2 m n

theorem twoTo_le {m n : Nat} (h : m ≤ n) : twoTo m ≤ twoTo n := Nat.pow_le_pow_right (by decide) h

theorem twoTo_dvd {m n : Nat} (h : m ≤ n) : twoTo m ∣ twoTo n := Nat.pow_dvd_pow 2 h

theorem log2_twoTo (n : Nat) : (twoTo n).log2 = n := Nat.log2_two_pow

theorem lt_twoTo_log2_succ (n : Nat) : n < twoTo (n.log2 + 1) := Nat.lt_log2_self

theorem log2_lt_of_lt_twoTo {n k : Nat} (hn : n ≠ 0) (h : n < twoTo k) : n.log2 < k :=
  (Nat.log2_lt hn).2 h

end ProgramDiagram
