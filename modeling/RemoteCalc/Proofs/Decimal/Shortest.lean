import RemoteCalc.Proofs.Binary64.Order
import RemoteCalc.Proofs.Decimal.ReadBack

/-!
Seventeen digits are enough for every double. A step of the grid of decimals with so many is less
than 10^-16 of the value, so one of the value's two neighbours is nearer than 2^-54 of it, and reads
back as the value.
-/

namespace RemoteCalc.Decimal

open Binary64 (units one infinity)

theorem lt_pow_length (n : Nat) : n < 10 ^ (numeral n).length := by
  have hpos : 0 < (numeral n).length := List.length_pos_of_ne_nil (numeral_ne_nil n)
  exact (Nat.length_toDigits_le_iff (by decide) hpos).1 (Nat.le_refl _)

theorem lt_length_iff {n e : Nat} (he : 0 < e) : e < (numeral n).length ↔ 10 ^ e ≤ n := by
  rw [← Nat.not_le, numeral, Nat.length_toDigits_le_iff (by decide) he, Nat.not_lt]

/-- A decimal on a grid of `scale` places is a quotient. -/
theorem nearest_grid {m j : Nat} (hm : m ≠ 0) (hj : j ≤ scale + 400) :
    ∃ n d, 0 < d ∧ nearest ⟨m, (j : Int) - scale⟩ = Binary64.nearest n d ∧
      n * 10 ^ scale = m * 10 ^ j * d := by
  obtain hle | hlt := le_or_gt scale j
  · obtain ⟨e, rfl⟩ := Nat.exists_eq_add_of_le hle
    have hexp : ((scale + e : Nat) : Int) - scale = .ofNat e := by
      rw [Int.ofNat_eq_natCast]
      omega
    refine ⟨m * 10 ^ e, 1, Nat.one_pos, ?_, ?_⟩
    · rw [hexp]
      exact nearest_ofNat hm (by omega)
    · rw [Nat.pow_add]
      ring
  · obtain ⟨e, he⟩ : ∃ e, scale = j + (e + 1) := ⟨scale - j - 1, by omega⟩
    have hexp : (j : Int) - scale = .negSucc e := by
      rw [Int.negSucc_eq]
      omega
    refine ⟨m, 10 ^ (e + 1), Nat.pow_pos (by decide), ?_, ?_⟩
    · rw [hexp]
      apply nearest_negSucc hm
      have hscale : scale = 342 := rfl
      omega
    · rw [he, Nat.pow_add, Nat.mul_assoc]

/-- A decimal on the grid that is close to a magnitude reads back as it. -/
theorem nearest_grid_of_close {k m j : Nat} (hk : k < infinity) (hm : m ≠ 0)
    (hj : j ≤ scale + 400)
    (h : Binary64.Close (m * (10 ^ j * one)) (units k * 10 ^ scale)) :
    nearest ⟨m, (j : Int) - scale⟩ = k := by
  obtain ⟨n, d, hd, hnearest, hgrid⟩ := nearest_grid hm hj
  have hpow : 0 < 10 ^ scale := Nat.pow_pos (by decide)
  have hvalue : m * (10 ^ j * one) * d = n * one * 10 ^ scale := by
    calc m * (10 ^ j * one) * d = m * 10 ^ j * d * one := by ring
      _ = n * 10 ^ scale * one := by rw [hgrid]
      _ = n * one * 10 ^ scale := Nat.mul_right_comm _ _ _
  have hunits : units k * 10 ^ scale * d = units k * d * 10 ^ scale := Nat.mul_right_comm _ _ _
  rw [← Binary64.close_mul_right_iff hd, hvalue, hunits, Binary64.close_mul_right_iff hpow] at h
  rw [hnearest]
  exact h.nearest_eq hd hk

/-- On a grid where the value has seventeen digits, a neighbour reads back as the value. -/
theorem nearest_neighbour {k j : Nat} (hk : k < infinity) (hj : j ≤ scale + 400)
    (hwide : 10 ^ 16 ≤ scaled k / 10 ^ j) :
    nearest ⟨scaled k / 10 ^ j, (j : Int) - scale⟩ = k ∨
      nearest ⟨scaled k / 10 ^ j + 1, (j : Int) - scale⟩ = k := by
  obtain ⟨q, hq⟩ : ∃ q, scaled k / 10 ^ j = q := ⟨_, rfl⟩
  obtain ⟨V, hV⟩ : ∃ V, units k * 10 ^ scale = V := ⟨_, rfl⟩
  have hone : 0 < one := by decide
  have hpow : 0 < 10 ^ j := Nat.pow_pos (by decide)
  have hstep : 0 < 10 ^ j * one := Nat.mul_pos hpow hone
  have hscaled : scaled k = V / one := by rw [scaled, Nat.pow_eq, hV]
  rw [hq] at hwide
  -- the value is between its neighbours
  have hlow : q * (10 ^ j * one) ≤ V := by
    rw [← hq, hscaled, ← Nat.mul_assoc]
    calc V / one / 10 ^ j * 10 ^ j * one ≤ V / one * one :=
          Nat.mul_le_mul_right _ (Nat.div_mul_le_self _ _)
      _ ≤ V := Nat.div_mul_le_self _ _
  have hhigh : V < (q + 1) * (10 ^ j * one) := by
    rw [← Nat.div_lt_iff_lt_mul hstep, Nat.mul_comm (10 ^ j), ← Nat.div_div_eq_div_mul,
      ← hscaled, hq]
    exact Nat.lt_succ_self q
  have hsmall : 10 ^ 16 * (10 ^ j * one) ≤ q * (10 ^ j * one) := Nat.mul_le_mul_right _ hwide
  rw [Nat.succ_mul] at hhigh
  rw [hq]
  by_cases hnear : 2 * V ≤ 2 * (q * (10 ^ j * one)) + 10 ^ j * one
  · left
    apply nearest_grid_of_close hk (by omega) hj
    rw [hV]
    exact ⟨by omega, by omega⟩
  · right
    apply nearest_grid_of_close hk (Nat.succ_ne_zero q) hj
    rw [hV, Nat.succ_mul]
    exact ⟨by omega, by omega⟩

theorem scaled_mono {k k' : Nat} (h : k ≤ k') : scaled k ≤ scaled k' :=
  Nat.div_le_div_right (Nat.mul_le_mul_right _ (Binary64.units_mono h))

theorem le_length_scaled {k : Nat} (h : 0 < k) : 17 ≤ (numeral (scaled k)).length := by
  have hleast : 10 ^ 16 ≤ scaled 1 := by decide +kernel
  exact (lt_length_iff (by decide)).2 (Nat.le_trans hleast (scaled_mono h))

theorem length_scaled_le {k : Nat} (hk : k < infinity) :
    (numeral (scaled k)).length ≤ 17 + (scale + 400) := by
  have hmost : scaled infinity < 10 ^ (17 + (scale + 400)) := by decide +kernel
  rw [numeral, Nat.length_toDigits_le_iff (by decide) (by decide)]
  exact Nat.lt_of_le_of_lt (scaled_mono (Nat.le_of_lt hk)) hmost

theorem onGrid?_eq_some {k v j : Nat} (hv : v / 10 ^ j ≠ 9)
    (h : nearest ⟨v / 10 ^ j, (j : Int) - scale⟩ = k ∨
      nearest ⟨v / 10 ^ j + 1, (j : Int) - scale⟩ = k) : ∃ d, onGrid? k v j = some d := by
  have hstep : Nat.pow 10 j = 10 ^ j := rfl
  rw [onGrid?, hstep, if_neg hv]
  split
  · exact ⟨_, rfl⟩
  · rename_i hbelow
    split
    · exact ⟨_, rfl⟩
    · rename_i habove
      rw [beq_iff_eq] at habove
      obtain hfits | hfits := h
      · simp [hfits, habove] at hbelow
      · exact absurd hfits habove

/-- The search for a shortest decimal always finds one. -/
theorem shortest_onGrid {k : Nat} (h : 0 < k) (hk : k < infinity) :
    ∃ n, n ≤ 17 ∧
      onGrid? k (scaled k) ((numeral (scaled k)).length - n) = some (shortest k) := by
  have hlength := le_length_scaled h
  have hlength' := length_scaled_le hk
  obtain ⟨j, hj⟩ : ∃ j, (numeral (scaled k)).length = 16 + j + 1 :=
    ⟨(numeral (scaled k)).length - 17, by omega⟩
  have hwide : 10 ^ 16 ≤ scaled k / 10 ^ j := by
    rw [Nat.le_div_iff_mul_le (Nat.pow_pos (by decide)), ← Nat.pow_add]
    exact (lt_length_iff (by omega)).1 (by omega)
  have hgrid := nearest_neighbour hk (by omega) hwide
  obtain ⟨d, hd⟩ := onGrid?_eq_some (by omega) hgrid
  have hlast : (numeral (scaled k)).length - 17 = j := by omega
  cases hfind : (List.range' 1 17).findSome? fun n =>
      onGrid? k (scaled k) ((numeral (scaled k)).length - n) with
  | none =>
    have hnone := List.findSome?_eq_none_iff.1 hfind 17 (by decide)
    rw [hlast, hd] at hnone
    cases hnone
  | some d' =>
    obtain ⟨n, hn, hd'⟩ := List.exists_of_findSome?_eq_some hfind
    refine ⟨n, ?_, ?_⟩
    · have hrange := List.mem_range'_1.1 hn
      omega
    · rw [shortest, hfind, hd']
      rfl

theorem digits_onGrid? {k v j : Nat} {d : Decimal} (h : onGrid? k v j = some d) :
    d.digits ≤ v / 10 ^ j + 1 := by
  have hstep : Nat.pow 10 j = 10 ^ j := rfl
  rw [onGrid?, hstep] at h
  obtain ⟨above, habove⟩ : ∃ above : Decimal, (if v / 10 ^ j = 9 then
    ⟨1, (j : Int) - scale + 1⟩ else ⟨v / 10 ^ j + 1, (j : Int) - scale⟩) = above := ⟨_, rfl⟩
  have hdigits : above.digits ≤ v / 10 ^ j + 1 := by
    rw [← habove]
    split
    · exact Nat.succ_le_succ (Nat.zero_le _)
    · exact Nat.le_refl _
  rw [habove] at h
  split at h
  · cases h
    exact Nat.le_succ _
  · split at h
    · cases h
      exact hdigits
    · cases h

/-- A shortest decimal has seventeen digits at most, or is a power of ten. -/
theorem digits_shortest_le {k : Nat} (h : 0 < k) (hk : k < infinity) :
    (shortest k).digits ≤ 10 ^ 17 := by
  obtain ⟨n, hn, hgrid⟩ := shortest_onGrid h hk
  obtain ⟨w, hw⟩ : ∃ w, (numeral (scaled k)).length = w := ⟨_, rfl⟩
  have hv := lt_pow_length (scaled k)
  have hdigits := digits_onGrid? hgrid
  rw [hw] at hv hdigits
  have hlt : scaled k / 10 ^ (w - n) < 10 ^ n := by
    rw [Nat.div_lt_iff_lt_mul (Nat.pow_pos (by decide)), ← Nat.pow_add]
    exact Nat.lt_of_lt_of_le hv (Nat.pow_le_pow_right (by decide) (by omega))
  have hmost : 10 ^ n ≤ 10 ^ 17 := Nat.pow_le_pow_right (by decide) hn
  omega

end RemoteCalc.Decimal
