import Mathlib.Algebra.Order.Field.Rat
import Mathlib.Tactic.Positivity
import Mathlib.Tactic.Ring

/-! # Quotients as floats

A quotient of whole numbers as a float has 53 bits, and is the nearest number that has so few.
Rounding never changes the order of two quotients, but it may take away their difference.
-/

namespace Double

variable {n m d k : ℕ}

/-- The whole number that is nearest to `n / d`, the even one of two that are equally near. -/
def nearest (n d : ℕ) : ℕ :=
  if d < 2 * (n % d) ∨ (d = 2 * (n % d) ∧ n / d % 2 = 1) then n / d + 1 else n / d

/-- The bits of `n / d` that 53 bits have no room for. -/
def excess (n d : ℕ) : ℕ := Nat.log2 (n / d) - 52

/-- The number of 53 bits that is nearest to `n / d`, which has at least as many. -/
def round (n d : ℕ) : ℕ := nearest n (d * 2 ^ excess n d) * 2 ^ excess n d

/-- How far a quotient by `d` is shifted so that it has 53 bits, unless it is zero. -/
def shift (d : ℕ) : ℕ := 54 + Nat.log2 d

/-- `n / d` as a float. -/
def quotient (n d : ℕ) : ℚ := (round (n * 2 ^ shift d) d : ℚ) / 2 ^ shift d

/-! ### Whole numbers -/

theorem le_nearest (hd : 0 < d) (h : k * d ≤ n) : k ≤ nearest n d := by
  have hk : k ≤ n / d := (Nat.le_div_iff_mul_le hd).mpr h
  rw [nearest]
  split <;> omega

theorem nearest_le (hd : 0 < d) (h : n ≤ k * d) : nearest n d ≤ k := by
  have hdiv := Nat.div_add_mod n d
  rcases Nat.lt_or_ge (n / d) k with hlt | hge
  · rw [nearest]
    split <;> omega
  · have hk : d * k ≤ d * (n / d) := Nat.mul_le_mul_left d hge
    rw [Nat.mul_comm] at h
    have hmod : n % d = 0 := by omega
    have heq : n / d = k := by
      apply le_antisymm _ hge
      exact Nat.le_of_mul_le_mul_left (by omega) hd
    rw [nearest, hmod, if_neg (by omega), heq]

theorem nearest_mono (hd : 0 < d) (h : n ≤ m) : nearest n d ≤ nearest m d := by
  have hn := Nat.div_add_mod n d
  have hm := Nat.div_add_mod m d
  rcases (Nat.div_le_div_right (c := d) h).lt_or_eq with hlt | heq
  · calc nearest n d ≤ n / d + 1 := by rw [nearest]; split <;> omega
      _ ≤ m / d := hlt
      _ ≤ nearest m d := le_nearest hd (Nat.div_mul_le_self m d)
  · rw [nearest, nearest, heq]
    rw [heq] at hn
    split <;> split <;> omega

theorem nearest_error (hd : 0 < d) :
    2 * n ≤ 2 * (nearest n d * d) + d ∧ 2 * (nearest n d * d) ≤ 2 * n + d := by
  have hdiv := Nat.div_add_mod n d
  have hmod := Nat.mod_lt n hd
  rw [nearest]
  split
  · rw [Nat.add_mul, Nat.mul_comm (n / d)]
    omega
  · rw [Nat.mul_comm (n / d)]
    omega

/-! ### Numbers of 53 bits -/

theorem excess_mono (h : n ≤ m) : excess n d ≤ excess m d := by
  have hdiv : n / d ≤ m / d := Nat.div_le_div_right h
  have hlog : Nat.log2 (n / d) ≤ Nat.log2 (m / d) := by
    rcases Nat.eq_zero_or_pos (n / d) with hzero | hpos
    · rw [hzero]
      exact Nat.zero_le _
    · rw [Nat.le_log2 (by omega)]
      exact (Nat.log2_self_le (by omega)).trans hdiv
  exact Nat.sub_le_sub_right hlog 52

theorem le_of_excess (hd : 0 < d) : n ≤ 2 ^ 53 * (d * 2 ^ excess n d) := by
  have hlog : n / d < 2 ^ (53 + excess n d) := by
    apply Nat.lt_log2_self.trans_le
    apply Nat.pow_le_pow_right (by decide)
    rw [excess]
    omega
  calc n ≤ d * (n / d + 1) := (Nat.lt_mul_div_succ n hd).le
    _ ≤ d * 2 ^ (53 + excess n d) := Nat.mul_le_mul_left d hlog
    _ = 2 ^ 53 * (d * 2 ^ excess n d) := by ring

theorem of_excess_pos (h : 0 < excess n d) : 2 ^ 52 * (d * 2 ^ excess n d) ≤ n := by
  have hlog : 52 + excess n d = Nat.log2 (n / d) := by
    rw [excess] at h ⊢
    omega
  have hne : n / d ≠ 0 := by
    intro hzero
    rw [excess, hzero] at h
    exact absurd h (by decide)
  calc 2 ^ 52 * (d * 2 ^ excess n d) = d * 2 ^ (52 + excess n d) := by ring
    _ ≤ d * (n / d) := by
      rw [hlog]
      exact Nat.mul_le_mul_left d (Nat.log2_self_le hne)
    _ ≤ n := Nat.mul_div_le n d

theorem round_mono (hd : 0 < d) (h : n ≤ m) : round n d ≤ round m d := by
  have hunit : ∀ e, 0 < d * 2 ^ e := fun e => Nat.mul_pos hd (Nat.two_pow_pos e)
  rcases (excess_mono (d := d) h).lt_or_eq with hlt | heq
  · -- The smaller number has fewer bits, and neither passes the power of two between them.
    have hbelow := nearest_le (hunit _) (le_of_excess (n := n) hd)
    have habove := le_nearest (hunit _) (of_excess_pos (Nat.zero_lt_of_lt hlt))
    calc round n d ≤ 2 ^ 53 * 2 ^ excess n d := Nat.mul_le_mul_right _ hbelow
      _ = 2 ^ 52 * 2 ^ (excess n d + 1) := by ring
      _ ≤ 2 ^ 52 * 2 ^ excess m d :=
        Nat.mul_le_mul_left _ (Nat.pow_le_pow_right (by decide) hlt)
      _ ≤ round m d := Nat.mul_le_mul_right _ habove
  · rw [round, round, heq]
    exact Nat.mul_le_mul_right _ (nearest_mono (hunit _) h)

theorem round_error (hd : 0 < d) : 2 * n ≤ 2 * (round n d * d) + d * 2 ^ excess n d ∧
    2 * (round n d * d) ≤ 2 * n + d * 2 ^ excess n d := by
  have hunit : 0 < d * 2 ^ excess n d := Nat.mul_pos hd (Nat.two_pow_pos _)
  have hshift : round n d * d = nearest n (d * 2 ^ excess n d) * (d * 2 ^ excess n d) := by
    rw [round]
    ring
  rw [hshift]
  exact nearest_error hunit

theorem quotient_mono (hd : 0 < d) (h : n ≤ m) : quotient n d ≤ quotient m d := by
  have hround := round_mono hd (Nat.mul_le_mul_right (2 ^ shift d) h)
  rw [quotient, quotient]
  exact div_le_div_of_nonneg_right (Nat.cast_le.mpr hround) (by positivity)

theorem excess_le (h : n < d * 2 ^ (k + 53)) : excess n d ≤ k := by
  rw [excess]
  rcases Nat.eq_zero_or_pos (n / d) with hzero | hpos
  · rw [hzero]
    exact Nat.zero_le _
  · have hlog : Nat.log2 (n / d) < k + 53 := by
      rw [Nat.log2_lt (by omega)]
      exact Nat.div_lt_of_lt_mul h
    omega

/-- Quotients that are the same float are less than a unit in the last place apart; `k` bits before
the point leave `53 - k` behind it. -/
theorem le_of_quotient_eq (hd : 0 < d) (hk : k ≤ 53) (hle : n ≤ m) (hm : m < d * 2 ^ k)
    (h : quotient n d = quotient m d) : (m - n) * 2 ^ (53 - k) ≤ d := by
  have hround : round (n * 2 ^ shift d) d = round (m * 2 ^ shift d) d := by
    rw [quotient, quotient, div_left_inj' (by positivity)] at h
    exact Nat.cast_injective h
  obtain ⟨e, he⟩ : ∃ e, shift d + k = e + 53 := ⟨shift d + k - 53, by rw [shift]; omega⟩
  have hexcess : ∀ l ≤ m, d * 2 ^ excess (l * 2 ^ shift d) d ≤ d * 2 ^ e := by
    intro l hl
    apply Nat.mul_le_mul_left d
    apply Nat.pow_le_pow_right (by decide)
    apply excess_le
    rw [← he, Nat.pow_add, Nat.mul_comm (2 ^ shift d), ← Nat.mul_assoc]
    exact Nat.mul_lt_mul_of_pos_right (hl.trans_lt hm) (Nat.two_pow_pos _)
  have hbelow := (round_error (n := m * 2 ^ shift d) hd).1.trans
    (Nat.add_le_add_left (hexcess m le_rfl) _)
  have habove := (round_error (n := n * 2 ^ shift d) hd).2.trans
    (Nat.add_le_add_left (hexcess n hle) _)
  rw [hround] at habove
  have hpow : 2 ^ shift d = 2 ^ (53 - k) * 2 ^ e := by
    rw [← Nat.pow_add]
    congr 1
    omega
  have hscaled : (m - n) * 2 ^ (53 - k) * 2 ^ e ≤ d * 2 ^ e := by
    rw [Nat.mul_assoc, ← hpow, Nat.sub_mul]
    omega
  exact Nat.le_of_mul_le_mul_right hscaled (Nat.two_pow_pos e)

/-- Times that are only a nanosecond apart may be the same float of seconds. -/
example : quotient 1700000000000000001 1000000000 = quotient 1700000000000000000 1000000000 := by
  decide +kernel

end Double
