import RemoteCalc.Proofs.Binary64.Exact

/-!
Rounding and the order of magnitudes: a larger quotient rounds to no smaller double, and a quotient
that is nearer to a magnitude than half the least gap around it rounds to it.
-/

namespace RemoteCalc.Binary64

variable {n d q n' d' q' k k' : Nat}

/-- No whole number is nearer to `n / d` than `q`, which is even if another is as near. -/
structure Rounds (n d q : Nat) : Prop where
  below : 2 * n ≤ 2 * (q * d) + d
  above : 2 * (q * d) ≤ 2 * n + d
  even : 2 * n = 2 * (q * d) + d ∨ 2 * (q * d) = 2 * n + d → q % 2 = 0

theorem rounds_roundHalfEven (n : Nat) (hd : 0 < d) : Rounds n d (roundHalfEven n d) := by
  have hsplit : n = n / d * d + n % d := by rw [Nat.mul_comm, Nat.div_add_mod]
  have hmod := Nat.mod_lt n hd
  have hsucc : (n / d + 1) * d = n / d * d + d := Nat.succ_mul _ _
  simp only [roundHalfEven]
  split
  · constructor
    all_goals omega
  · split
    · constructor
      all_goals omega
    · obtain he | ho := Nat.mod_two_eq_zero_or_one (n / d)
      · rw [he, Nat.add_zero]
        constructor
        all_goals omega
      · rw [ho]
        constructor
        all_goals omega

theorem Rounds.mono (h : Rounds n d q) (h' : Rounds n' d' q') (hd : 0 < d) (hd' : 0 < d')
    (hle : n * d' ≤ n' * d) : q ≤ q' := by
  by_contra hlt
  have hsucc : q' + 1 ≤ q := by omega
  have hpos : 0 < d * d' := Nat.mul_pos hd hd'
  have habove : 2 * (q * (d * d')) ≤ 2 * (n * d') + d * d' := by
    linarith [Nat.mul_le_mul_right d' h.above]
  have hbelow : 2 * (n' * d) ≤ 2 * (q' * (d * d')) + d * d' := by
    linarith [Nat.mul_le_mul_right d h'.below]
  have hgap : q' * (d * d') + d * d' ≤ q * (d * d') := by
    rw [← Nat.succ_mul]
    exact Nat.mul_le_mul_right _ hsucc
  -- nothing is left between the two, so both are ties and both are even
  have hq : q = q' + 1 := by
    apply Nat.eq_of_mul_eq_mul_right hpos
    rw [Nat.succ_mul]
    omega
  have htie : 2 * (q * d) = 2 * n + d := by
    apply Nat.eq_of_mul_eq_mul_right hd'
    linarith
  have htie' : 2 * n' = 2 * (q' * d') + d' := by
    apply Nat.eq_of_mul_eq_mul_right hd
    linarith
  have heven := h.even (.inr htie)
  have heven' := h'.even (.inl htie')
  omega

theorem roundHalfEven_mono (hd : 0 < d) (hd' : 0 < d') (hle : n * d' ≤ n' * d) :
    roundHalfEven n d ≤ roundHalfEven n' d' :=
  (rounds_roundHalfEven n hd).mono (rounds_roundHalfEven n' hd') hd hd' hle

theorem le_roundHalfEven (hd : 0 < d) (h : q * d ≤ n) : q ≤ roundHalfEven n d := by
  have hround := roundHalfEven_mono hd hd (Nat.mul_le_mul_right d h)
  rwa [roundHalfEven_mul hd] at hround

theorem roundHalfEven_le (hd : 0 < d) (h : n ≤ q * d) : roundHalfEven n d ≤ q := by
  have hround := roundHalfEven_mono hd hd (Nat.mul_le_mul_right d h)
  rwa [roundHalfEven_mul hd] at hround

theorem roundHalfEven_eq (hd : 0 < d) (hlo : 2 * (q * d) < 2 * n + d)
    (hhi : 2 * n < 2 * (q * d) + d) : roundHalfEven n d = q := by
  obtain ⟨hbelow, habove, -⟩ := rounds_roundHalfEven n hd
  apply Nat.le_antisymm
  · apply Nat.le_of_lt_succ
    apply Nat.lt_of_mul_lt_mul_right (a := d)
    rw [Nat.succ_mul]
    omega
  · apply Nat.le_of_lt_succ
    apply Nat.lt_of_mul_lt_mul_right (a := d)
    rw [Nat.succ_mul]
    omega

/-- A quotient that gets the exponent `e`. -/
structure Scaled (n d e : Nat) : Prop where
  lt : n < 2 ^ 53 * (d * 2 ^ e)
  le : 0 < e → 2 ^ 52 * (d * 2 ^ e) ≤ n

theorem scaled_log2 (n : Nat) (hd : 0 < d) : Scaled n d ((n / d).log2 - 52) where
  lt := by
    have hlog := @Nat.lt_log2_self (n / d)
    have hexp : (n / d).log2 + 1 ≤ 53 + ((n / d).log2 - 52) := by omega
    have hlt : n / d < 2 ^ (53 + ((n / d).log2 - 52)) :=
      Nat.lt_of_lt_of_le hlog (Nat.pow_le_pow_right (by decide) hexp)
    rw [Nat.div_lt_iff_lt_mul hd, Nat.pow_add] at hlt
    linarith
  le := by
    intro he
    have hne : n / d ≠ 0 := by
      intro hzero
      rw [hzero] at he
      exact absurd he (by decide)
    have hlog := Nat.log2_self_le hne
    have hexp : (n / d).log2 = 52 + ((n / d).log2 - 52) := by omega
    rw [hexp, Nat.pow_add, Nat.le_div_iff_mul_le hd] at hlog
    linarith

theorem Scaled.log2_eq {e : Nat} (h : Scaled n d e) (hd : 0 < d) : (n / d).log2 - 52 = e := by
  have hlt : n / d < 2 ^ (53 + e) := by
    rw [Nat.div_lt_iff_lt_mul hd, Nat.pow_add]
    linarith [h.lt]
  by_cases he : e = 0
  · by_cases hzero : n / d = 0
    · rw [hzero, he]
      decide
    · rw [he, Nat.add_zero, ← Nat.log2_lt hzero] at hlt
      omega
  · have hle : 2 ^ (52 + e) ≤ n / d := by
      rw [Nat.le_div_iff_mul_le hd, Nat.pow_add]
      linarith [h.le (Nat.pos_of_ne_zero he)]
    have hexp : 53 + e = 52 + e + 1 := by omega
    rw [hexp] at hlt
    rw [log2_of_lt hle hlt, Nat.add_sub_cancel_left]

theorem Scaled.significand_le {e : Nat} (h : Scaled n d e) (hd : 0 < d) :
    roundHalfEven n (d * 2 ^ e) ≤ 2 ^ 53 :=
  roundHalfEven_le (Nat.mul_pos hd (Nat.two_pow_pos e)) (Nat.le_of_lt h.lt)

theorem Scaled.le_significand {e : Nat} (h : Scaled n d e) (hd : 0 < d) (he : 0 < e) :
    2 ^ 52 ≤ roundHalfEven n (d * 2 ^ e) :=
  le_roundHalfEven (Nat.mul_pos hd (Nat.two_pow_pos e)) (h.le he)

theorem nearest_eq {e : Nat} (hd : 0 < d) (h : Scaled (n * one) d e) :
    nearest n d = min (e * 2 ^ 52 + roundHalfEven (n * one) (d * 2 ^ e)) infinity := by
  simp only [nearest, h.log2_eq hd, Nat.shiftLeft_eq]

theorem Scaled.mono {e e' : Nat} (h : Scaled n d e) (h' : Scaled n' d' e') (hd : 0 < d)
    (hle : n * d' ≤ n' * d) : e ≤ e' := by
  by_contra hlt
  have hpow : 2 * 2 ^ e' ≤ 2 ^ e := by
    rw [← Nat.pow_succ']
    exact Nat.pow_le_pow_right (by decide) (by omega)
  have hlow := Nat.mul_le_mul_right d' (h.le (by omega))
  have hhigh := Nat.mul_lt_mul_of_pos_right h'.lt hd
  have hmid := Nat.mul_le_mul_left (2 ^ 52 * (d * d')) hpow
  linarith

/-- A larger quotient rounds to no smaller double. -/
theorem nearest_mono (hd : 0 < d) (hd' : 0 < d') (hle : n * d' ≤ n' * d) :
    nearest n d ≤ nearest n' d' := by
  have hone : n * one * d' ≤ n' * one * d := by
    rw [Nat.mul_right_comm, Nat.mul_right_comm n']
    exact Nat.mul_le_mul_right one hle
  have hs := scaled_log2 (n * one) hd
  have hs' := scaled_log2 (n' * one) hd'
  rw [nearest_eq hd hs, nearest_eq hd' hs']
  apply min_le_min_right
  obtain heq | hlt := Nat.eq_or_lt_of_le (hs.mono hs' hd hone)
  · rw [← heq]
    apply Nat.add_le_add_left
    have hpow := Nat.two_pow_pos ((n * one / d).log2 - 52)
    apply roundHalfEven_mono (Nat.mul_pos hd hpow) (Nat.mul_pos hd' hpow)
    rw [← Nat.mul_assoc, ← Nat.mul_assoc]
    exact Nat.mul_le_mul_right _ hone
  · -- the carry of one exponent is the least significand of the next
    have hsignificand := hs.significand_le hd
    have hsignificand' := hs'.le_significand hd' (by omega)
    omega

theorem significand_lt (k : Nat) : significand k < 2 ^ 53 := by
  simp only [significand_eq, exponent_eq]
  omega

theorem le_significand (h : 0 < exponent k) : 2 ^ 52 ≤ significand k := by
  simp only [significand_eq, exponent_eq] at h ⊢
  omega

theorem units_mono (h : k ≤ k') : units k ≤ units k' := by
  have hexp : exponent k ≤ exponent k' := by
    simp only [exponent_eq]
    omega
  rw [units_eq, units_eq]
  obtain heq | hlt := Nat.eq_or_lt_of_le hexp
  · rw [heq]
    apply Nat.mul_le_mul_right
    simp only [significand_eq, heq]
    omega
  · have hpow : 2 * 2 ^ exponent k ≤ 2 ^ exponent k' := by
      rw [← Nat.pow_succ']
      exact Nat.pow_le_pow_right (by decide) hlt
    calc significand k * 2 ^ exponent k ≤ 2 ^ 53 * 2 ^ exponent k :=
          Nat.mul_le_mul_right _ (Nat.le_of_lt (significand_lt k))
      _ = 2 ^ 52 * (2 * 2 ^ exponent k) := by ring
      _ ≤ 2 ^ 52 * 2 ^ exponent k' := Nat.mul_le_mul_left _ hpow
      _ ≤ significand k' * 2 ^ exponent k' :=
          Nat.mul_le_mul_right _ (le_significand (Nat.zero_lt_of_lt hlt))

/-- The two differ by less than one part in 2^54 of the second. -/
structure Close (n m : Nat) : Prop where
  lo : (2 ^ 54 - 1) * m < 2 ^ 54 * n
  hi : 2 ^ 54 * n < (2 ^ 54 + 1) * m

theorem close_mul_right_iff {n m c : Nat} (hc : 0 < c) : Close (n * c) (m * c) ↔ Close n m := by
  constructor
  · intro h
    constructor
    case lo =>
      apply Nat.lt_of_mul_lt_mul_right (a := c)
      rw [Nat.mul_assoc, Nat.mul_assoc]
      exact h.lo
    case hi =>
      apply Nat.lt_of_mul_lt_mul_right (a := c)
      rw [Nat.mul_assoc, Nat.mul_assoc]
      exact h.hi
  · intro h
    constructor
    case lo =>
      rw [← Nat.mul_assoc, ← Nat.mul_assoc]
      exact Nat.mul_lt_mul_of_pos_right h.lo hc
    case hi =>
      rw [← Nat.mul_assoc, ← Nat.mul_assoc]
      exact Nat.mul_lt_mul_of_pos_right h.hi hc

section Close

variable {s e : Nat}

/-- What is close to a multiple of less than 2^53 is less than half away from it. -/
theorem Close.roundHalfEven_eq (h : Close n (s * d)) (hd : 0 < d) (hs : s < 2 ^ 53) :
    roundHalfEven n d = s := by
  obtain ⟨hlo, hhi⟩ := h
  have hbound : s * d ≤ (2 ^ 53 - 1) * d := Nat.mul_le_mul_right d (by omega)
  apply Binary64.roundHalfEven_eq hd
  · omega
  · omega

theorem Close.lt (h : Close n (s * d)) (hs : s < 2 ^ 53) : n < 2 ^ 53 * d := by
  obtain ⟨hlo, hhi⟩ := h
  have hbound : s * d ≤ (2 ^ 53 - 1) * d := Nat.mul_le_mul_right d (by omega)
  omega

/-- Only the least of the normal significands is so close to less than itself. -/
theorem Close.eq_of_lt (h : Close n (s * d)) (hs : 2 ^ 52 ≤ s) (hlt : n < 2 ^ 52 * d) :
    s = 2 ^ 52 := by
  obtain ⟨hlo, hhi⟩ := h
  by_contra hne
  have hnext : (2 ^ 52 + 1) * d ≤ s * d := Nat.mul_le_mul_right d (by omega)
  omega

theorem Scaled.nearest_eq (h : Scaled (n * one) d e) (hd : 0 < d) (hk : k < infinity)
    (hround : roundHalfEven (n * one) (d * 2 ^ e) = s) (hsum : e * 2 ^ 52 + s = k) :
    nearest n d = k := by
  rw [Binary64.nearest_eq hd h, hround, hsum]
  exact Nat.min_eq_left (Nat.le_of_lt hk)

/-- Just below the least magnitude of an exponent the gap is halved. The significand there is half
of what it is above, and carries. -/
theorem Close.nearest_eq_of_lt (h : Close (n * one) (units k * d)) (hd : 0 < d)
    (hk : k < infinity) (he : exponent k = e + 1)
    (hlt : n * one < 2 ^ 52 * (d * 2 ^ exponent k)) : nearest n d = k := by
  rw [units_mul] at h
  have hleast : significand k = 2 ^ 52 := h.eq_of_lt (le_significand (by omega)) hlt
  have hsum := exponent_add_significand k
  have hhalf : d * 2 ^ exponent k = 2 * (d * 2 ^ e) := by
    rw [he, Nat.pow_succ]
    ring
  rw [hleast, hhalf] at h
  rw [hhalf] at hlt
  obtain ⟨hlo, hhi⟩ := h
  have hscaled : Scaled (n * one) d e := ⟨by omega, by omega⟩
  have hround : roundHalfEven (n * one) (d * 2 ^ e) = 2 ^ 53 :=
    Binary64.roundHalfEven_eq (by omega) (by omega) (by omega)
  apply hscaled.nearest_eq hd hk hround
  rw [← hsum, hleast, he]
  ring

/-- A quotient that is close to a magnitude rounds to it. -/
theorem Close.nearest_eq (h : Close (n * one) (units k * d)) (hd : 0 < d) (hk : k < infinity) :
    nearest n d = k := by
  have hD : 0 < d * 2 ^ exponent k := Nat.mul_pos hd (Nat.two_pow_pos _)
  by_cases hedge : 0 < exponent k ∧ n * one < 2 ^ 52 * (d * 2 ^ exponent k)
  · obtain ⟨hpos, hlt⟩ := hedge
    obtain ⟨e, he⟩ := Nat.exists_eq_add_one.2 hpos
    exact h.nearest_eq_of_lt hd hk he hlt
  · rw [units_mul] at h
    have hscaled : Scaled (n * one) d (exponent k) := by
      constructor
      case lt => exact h.lt (significand_lt k)
      case le =>
        intro hpos
        exact Nat.le_of_not_lt fun hlt => hedge ⟨hpos, hlt⟩
    exact hscaled.nearest_eq hd hk (h.roundHalfEven_eq hD (significand_lt k))
      (exponent_add_significand k)

end Close

end RemoteCalc.Binary64
