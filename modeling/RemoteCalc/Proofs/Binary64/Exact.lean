import RemoteCalc.Binary64.Rounding
import RemoteCalc.Proofs.Binary64.Bits

/-! Rounding leaves a number alone that is the magnitude of a double. -/

namespace RemoteCalc.Binary64

theorem exponent_eq (k : Nat) : exponent k = k / 2 ^ 52 - 1 :=
  congrArg (· - 1) (Nat.shiftRight_eq_div_pow k 52)

theorem significand_eq (k : Nat) : significand k = k - exponent k * 2 ^ 52 :=
  congrArg (k - ·) (Nat.shiftLeft_eq (exponent k) 52)

theorem units_eq (k : Nat) : units k = significand k * 2 ^ exponent k :=
  Nat.shiftLeft_eq (significand k) (exponent k)

theorem exponent_add_significand (k : Nat) : exponent k * 2 ^ 52 + significand k = k := by
  simp only [significand_eq, exponent_eq]
  omega

theorem units_mul (k d : Nat) : units k * d = significand k * (d * 2 ^ exponent k) := by
  rw [units_eq, Nat.mul_assoc, Nat.mul_comm (2 ^ exponent k)]

theorem log2_units (k : Nat) : (units k).log2 - 52 = exponent k := by
  by_cases h : k < 2 ^ 53
  · have he : exponent k = 0 := by rw [exponent_eq]; omega
    have hu : units k = k := by simp [units_eq, significand_eq, he]
    rw [he, hu]
    by_cases hk : k = 0
    · simp [hk]
    · have := (Nat.log2_lt hk).2 h
      omega
  · have hlo : 2 ^ 52 ≤ significand k := by simp only [significand_eq, exponent_eq]; omega
    have hhi : significand k < 2 ^ 53 := by simp only [significand_eq, exponent_eq]; omega
    have hpos := Nat.two_pow_pos (exponent k)
    have hlog : (units k).log2 = 52 + exponent k := by
      apply log2_of_lt
      · rw [units_eq, Nat.pow_add]
        exact Nat.mul_le_mul_right _ hlo
      · rw [units_eq, Nat.add_right_comm, Nat.pow_add]
        exact Nat.mul_lt_mul_of_pos_right hhi hpos
    omega

theorem roundHalfEven_mul {d : Nat} (h : 0 < d) (q : Nat) : roundHalfEven (q * d) d = q := by
  simp [roundHalfEven, Nat.mul_div_cancel _ h, h]

/-- A quotient that is a magnitude rounds to it. -/
theorem nearest_of_eq {n d k : Nat} (hd : 0 < d) (hk : k < infinity)
    (h : n * one = units k * d) : nearest n d = k := by
  have hpos : 0 < d * 2 ^ exponent k := Nat.mul_pos hd (Nat.two_pow_pos _)
  simp only [nearest, h, Nat.mul_div_cancel _ hd, log2_units, Nat.shiftLeft_eq]
  rw [units_mul, roundHalfEven_mul hpos, exponent_add_significand]
  exact Nat.min_eq_left (Nat.le_of_lt hk)

end RemoteCalc.Binary64
