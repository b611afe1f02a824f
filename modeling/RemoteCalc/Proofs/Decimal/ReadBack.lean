import RemoteCalc.Proofs.Binary64.Exact
import RemoteCalc.Proofs.Decimal.Plain

/-! The text of a double is read as that double, whichever double it is. -/

namespace RemoteCalc.Decimal

theorem onGrid?_nearest {k v j : Nat} {d : Decimal} (h : onGrid? k v j = some d) :
    d.nearest = k := by
  unfold onGrid? at h
  extract_lets step e below above fitsBelow fitsAbove at h
  split at h
  · rename_i hfit
    rw [Bool.and_eq_true] at hfit
    rw [← Option.some.inj h]
    exact beq_iff_eq.1 hfit.1
  · split at h
    · rename_i hfit
      rw [← Option.some.inj h]
      exact beq_iff_eq.1 hfit
    · cases h

theorem units_pos {k : Nat} (h : 0 < k) : 0 < Binary64.units k := by
  have hs : 0 < Binary64.significand k := by
    rw [Binary64.significand_eq, Binary64.exponent_eq]
    omega
  rw [Binary64.units_eq]
  exact Nat.mul_pos hs (Nat.two_pow_pos _)

theorem mul_pow_five_shiftLeft (m n : Nat) : m * 5 ^ n * 1 <<< n = m * 10 ^ n := by
  rw [Nat.one_shiftLeft, Nat.mul_assoc, ← Nat.mul_pow]

/-- The magnitude itself has digits enough that it is not taken for zero. -/
theorem exact_nearest {k : Nat} (h : 0 < k) (hk : k < Binary64.infinity) :
    (exact k).nearest = k := by
  have hpow (n : Nat) : 0 < 5 ^ n := Nat.pow_pos (by decide)
  have hpos := Nat.mul_pos (units_pos h) (hpow 1074)
  have hlong : 1073 < 400 + (numeral (Binary64.units k * 5 ^ 1074)).length := by
    apply Nat.lt_of_not_le
    intro hlen
    have hshort : (numeral (Binary64.units k * 5 ^ 1074)).length ≤ 673 := by omega
    rw [numeral, Nat.length_toDigits_le_iff (by decide) (by decide)] at hshort
    have hlarge : 10 ^ 673 ≤ 5 ^ 1074 := by decide +kernel
    have hunits : 5 ^ 1074 ≤ Binary64.units k * 5 ^ 1074 := Nat.le_mul_of_pos_left _ (units_pos h)
    omega
  have hgrid := mul_pow_five_shiftLeft (Binary64.units k) (1073 + 1)
  have hexact : exact k = ⟨Binary64.units k * 5 ^ 1074, .negSucc 1073⟩ := rfl
  rw [hexact, nearest_negSucc (Nat.ne_of_gt hpos) hlong]
  exact Binary64.nearest_of_eq (Nat.pow_pos (by decide)) hk hgrid

theorem shortest_nearest {k : Nat} (h : 0 < k) (hk : k < Binary64.infinity) :
    (shortest k).nearest = k := by
  rw [shortest]
  cases hfind : (List.range' 1 17).findSome? fun n =>
      onGrid? k (scaled k) ((numeral (scaled k)).length - n) with
  | none =>
    exact exact_nearest h hk
  | some d =>
    obtain ⟨n, -, hd⟩ := List.exists_of_findSome?_eq_some hfind
    exact onGrid?_nearest hd

theorem plain_magnitude {k : Nat} (hk : k < Binary64.infinity) :
    ∃ e, Plain (if k = 0 then ['0'] else (shortest k).positional) e ∧ e.nearest = k := by
  by_cases h : k = 0
  · rw [if_pos h, h]
    exact ⟨_, .whole (List.cons_ne_nil _ _) (digits_numeral 0), rfl⟩
  · rw [if_neg h]
    have hpos : 0 < k := Nat.pos_of_ne_zero h
    have hnear := shortest_nearest hpos hk
    obtain ⟨e, hplain, he⟩ := plain_positional (hnear ▸ Nat.ne_of_lt hk)
    exact ⟨e, hplain, he.trans hnear⟩

/-- Reading takes every double's text back to that double. -/
theorem readFloat?_display (x : Float) : readFloat? (display x) = some x := by
  rw [display, signed]
  by_cases hnan : Binary64.isNaN x
  · rw [if_pos hnan, Binary64.eq_nan hnan]
    rfl
  have hord := Binary64.ofOrdinal_ordinal x
  rw [if_neg hnan]
  by_cases hinf : Binary64.isInfinite x
  · rw [if_pos hinf]
    rw [Binary64.isInfinite, decide_eq_true_eq] at hinf
    rw [hinf] at hord
    cases hneg : Binary64.isNegative x with
    | false =>
      rw [hneg] at hord
      exact congrArg some hord
    | true =>
      rw [hneg] at hord
      exact congrArg some hord
  · rw [if_neg hinf]
    have hk : Binary64.ordinal x < Binary64.infinity := by
      simp only [Binary64.isInfinite, Binary64.isNaN, decide_eq_true_eq] at hinf hnan
      omega
    obtain ⟨e, hplain, he⟩ := plain_magnitude hk
    cases hneg : Binary64.isNegative x with
    | false =>
      rw [hneg, ← he] at hord
      rw [if_neg (by decide), hplain.readFloat?_eq, hord]
    | true =>
      rw [hneg, ← he] at hord
      rw [if_pos rfl, hplain.readFloat?_neg, hord]

end RemoteCalc.Decimal
