import Mathlib.Algebra.Order.Ring.Int

/-!
Proportions of whole numbers. What `n` of `k` steps are out of `m` steps is rounded down. The
result follows `n`, reaches both ends, and is exact when there are as many steps as before.
Nothing in this module refers to a particular program.
-/
namespace ClantoDesk.Proportion

/-- Of `m` steps, as many as `n` are of `k`. -/
def part (n k m : ℕ) : ℕ := n * m / k

@[simp] theorem part_zero (k m : ℕ) : part 0 k m = 0 := by simp [part]

theorem part_full (k m : ℕ) (hk : 0 < k) : part k k m = m := Nat.mul_div_cancel_left m hk

theorem part_same (n k : ℕ) (hk : 0 < k) : part n k k = n := Nat.mul_div_cancel n hk

theorem part_mono (n n' k m : ℕ) (hn : n ≤ n') : part n k m ≤ part n' k m :=
  Nat.div_le_div_right (Nat.mul_le_mul_right m hn)

theorem part_le (n k m : ℕ) (hn : n ≤ k) : part n k m ≤ m :=
  Nat.div_le_of_le_mul (Nat.mul_le_mul_right m hn)

theorem part_lt (n k m : ℕ) (hn : n < k) (hm : 0 < m) : part n k m < m :=
  Nat.div_lt_of_lt_mul (Nat.mul_lt_mul_of_pos_right hn hm)

theorem part_bounds (n k m : ℕ) (hk : 0 < k) :
    part n k m * k ≤ n * m ∧ n * m < (part n k m + 1) * k :=
  ⟨Nat.div_mul_le_self _ _, Nat.lt_mul_of_div_lt (Nat.lt_succ_self _) hk⟩

end ClantoDesk.Proportion
