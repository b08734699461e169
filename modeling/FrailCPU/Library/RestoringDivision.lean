import Mathlib.Tactic

/-!
# Restoring division

The shift-and-subtract division of numbers of `w` bits in one register of twice the
width. The partial remainder stands in the upper half. The digits of the dividend that
are still to come are in the lower half, and they are pushed out by the digits of the
quotient. One step of the register is `step`; after `k` steps the upper `k` digits of the
dividend are divided (`iterate_step`), and after `w` steps all of them.
-/

namespace RestoringDivision

variable {w a b k n : ℕ}

/-- Shift to the left, and subtract the divisor from the upper half if it fits. A bit
that is shifted out is lost. -/
def step (w b p : ℕ) : ℕ :=
  let q := 2 * p % 2 ^ (2 * w)
  if b ≤ q / 2 ^ w then q - b * 2 ^ w + 1 else q

/-- A step on a register with the halves `r` and `x`, when no bit is lost. -/
theorem step_halves {r x : ℕ} (hr : 2 * r + 2 * x / 2 ^ w < 2 ^ w) :
    step w b (r * 2 ^ w + x) =
      if b ≤ 2 * r + 2 * x / 2 ^ w then
        (2 * r + 2 * x / 2 ^ w - b) * 2 ^ w + (2 * x % 2 ^ w + 1)
      else (2 * r + 2 * x / 2 ^ w) * 2 ^ w + 2 * x % 2 ^ w := by
  have hpos : 0 < 2 ^ w := Nat.two_pow_pos w
  have hx := Nat.div_add_mod (2 * x) (2 ^ w)
  have hdouble : 2 * (r * 2 ^ w + x) =
      (2 * r + 2 * x / 2 ^ w) * 2 ^ w + 2 * x % 2 ^ w := by
    calc 2 * (r * 2 ^ w + x) = 2 * r * 2 ^ w + 2 * x := by ring
      _ = 2 * r * 2 ^ w + (2 ^ w * (2 * x / 2 ^ w) + 2 * x % 2 ^ w) := by rw [hx]
      _ = (2 * r + 2 * x / 2 ^ w) * 2 ^ w + 2 * x % 2 ^ w := by ring
  have hlow : 2 * x % 2 ^ w < 2 ^ w := Nat.mod_lt _ hpos
  have hfit : 2 * (r * 2 ^ w + x) < 2 ^ (2 * w) := by
    rw [hdouble, two_mul w, pow_add]
    nlinarith
  have hhi : 2 * (r * 2 ^ w + x) / 2 ^ w = 2 * r + 2 * x / 2 ^ w := by
    rw [hdouble, Nat.add_comm, Nat.add_mul_div_right _ _ hpos, Nat.div_eq_of_lt hlow,
      Nat.zero_add]
  simp only [step, Nat.mod_eq_of_lt hfit, hhi]
  split
  · rename_i h
    have := Nat.mul_le_mul_right (2 ^ w) h
    rw [hdouble, Nat.sub_mul]
    omega
  · exact hdouble

/-- The next digit of the dividend: the quotient gains a one exactly when the divisor
fits into the remainder that the digit was appended to. -/
theorem div_mod_of_le (hb : 0 < b) (h : b ≤ 2 * (n / 2 % b) + n % 2) :
    n / b = 2 * (n / 2 / b) + 1 ∧ n % b = 2 * (n / 2 % b) + n % 2 - b := by
  have hmod := Nat.mod_lt (n / 2) hb
  have hdm := Nat.div_add_mod (n / 2) b
  have hdouble : b * (2 * (n / 2 / b) + 1) = 2 * (b * (n / 2 / b)) + b := by ring
  rw [Nat.div_mod_unique hb, hdouble]
  omega

theorem div_mod_of_lt (hb : 0 < b) (h : 2 * (n / 2 % b) + n % 2 < b) :
    n / b = 2 * (n / 2 / b) ∧ n % b = 2 * (n / 2 % b) + n % 2 := by
  have hdm := Nat.div_add_mod (n / 2) b
  have hdouble : b * (2 * (n / 2 / b)) = 2 * (b * (n / 2 / b)) := by ring
  rw [Nat.div_mod_unique hb, hdouble]
  omega

/-- After `k` steps the upper `k` digits of the dividend are divided. -/
theorem iterate_step (ha : a < 2 ^ w) (hb : 0 < b) (hk : k ≤ w) :
    (step w b)^[k] a =
      a / 2 ^ (w - k) % b * 2 ^ w + (a % 2 ^ (w - k) * 2 ^ k + a / 2 ^ (w - k) / b) := by
  induction k with
  | zero => simp [Nat.div_eq_of_lt ha, Nat.mod_eq_of_lt ha]
  | succ k ih =>
      obtain ⟨m, hm⟩ : ∃ m, w = m + (k + 1) := ⟨w - (k + 1), by omega⟩
      have h1 : w - k = m + 1 := by omega
      have h2 : w - (k + 1) = m := by omega
      rw [Function.iterate_succ_apply', ih (by omega), h1, h2]
      -- `n` is the part of the dividend with the next digit, `y` the part below it
      generalize hn : a / 2 ^ m = n
      generalize hy : a % 2 ^ m = y
      have hup : a / 2 ^ (m + 1) = n / 2 := by
        rw [pow_succ, ← Nat.div_div_eq_div_mul, hn]
      have hlow : a % 2 ^ (m + 1) = n % 2 * 2 ^ m + y := by
        rw [pow_succ, Nat.mod_mul, hn, hy, Nat.add_comm, Nat.mul_comm]
      rw [hup, hlow]
      have hnk : n < 2 ^ (k + 1) := by
        rw [← hn]
        apply Nat.div_lt_of_lt_mul
        rwa [← pow_add, ← hm]
      have hyk : y < 2 ^ m := hy ▸ Nat.mod_lt _ (Nat.two_pow_pos m)
      have hw : 2 ^ w = 2 ^ m * 2 ^ (k + 1) := by rw [hm, pow_add]
      have hq : n / 2 / b < 2 ^ k := by
        have := Nat.div_le_self (n / 2) b
        rw [pow_succ] at hnk
        omega
      have hrest : y * 2 ^ (k + 1) + 2 * (n / 2 / b) + 1 < 2 ^ w + 1 := by
        rw [hw, pow_succ] at *
        nlinarith
      have hx : 2 * ((n % 2 * 2 ^ m + y) * 2 ^ k + n / 2 / b) =
          2 ^ w * (n % 2) + (y * 2 ^ (k + 1) + 2 * (n / 2 / b)) := by
        rw [hw, pow_succ]
        ring
      have hxd : 2 * ((n % 2 * 2 ^ m + y) * 2 ^ k + n / 2 / b) / 2 ^ w = n % 2 := by
        rw [hx, Nat.mul_add_div (Nat.two_pow_pos w), Nat.div_eq_of_lt (by omega), Nat.add_zero]
      have hxm : 2 * ((n % 2 * 2 ^ m + y) * 2 ^ k + n / 2 / b) % 2 ^ w =
          y * 2 ^ (k + 1) + 2 * (n / 2 / b) := by
        rw [hx, Nat.mul_add_mod, Nat.mod_eq_of_lt (by omega)]
      have hr : 2 * (n / 2 % b) + n % 2 < 2 ^ w := by
        have := Nat.mod_le (n / 2) b
        have : 2 ^ (k + 1) ≤ 2 ^ w := Nat.pow_le_pow_right (by omega) (by omega)
        omega
      rw [step_halves (by rw [hxd]; exact hr), hxd, hxm]
      split
      · rename_i h
        obtain ⟨hdiv, hrem⟩ := div_mod_of_le hb h
        rw [hdiv, hrem, Nat.add_assoc]
      · rename_i h
        obtain ⟨hdiv, hrem⟩ := div_mod_of_lt hb (Nat.lt_of_not_le h)
        rw [hdiv, hrem]

theorem iterate_step_width (ha : a < 2 ^ w) (hb : 0 < b) :
    (step w b)^[w] a = a % b * 2 ^ w + a / b := by
  rw [iterate_step ha hb (Nat.le_refl w)]
  simp [Nat.mod_one]

end RestoringDivision
