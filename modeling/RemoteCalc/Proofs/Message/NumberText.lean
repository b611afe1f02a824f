import RemoteCalc.Proofs.Message.RoundTrip
import RemoteCalc.Proofs.Message.WideNumber

/-!
What becomes of a number in a message. Its exact text is written if that fits; a number whose text
does not fit is either next to nothing, and written as a zero of its sign, or too large, and not
written.
-/

namespace RemoteCalc

open Decimal Binary64

namespace Binary64

/-- The value of a finite double. -/
def toRat? (x : Float) : Option ℚ :=
  if ordinal x < infinity then
    some (if isNegative x then -((units (ordinal x) : ℚ) / one) else (units (ordinal x) : ℚ) / one)
  else none

variable {x : Float} {q : ℚ}

theorem cast_one_pos : (0 : ℚ) < one := by
  have hone : 0 < one := by decide
  exact_mod_cast hone

theorem exists_toRat? (h : ordinal x < infinity) : ∃ q, toRat? x = some q := ⟨_, if_pos h⟩

theorem finite_of_toRat? (h : toRat? x = some q) : ordinal x < infinity := by
  rw [toRat?] at h
  split at h
  · assumption
  · cases h

/-- The sign and the magnitude of a value. -/
theorem toRat?_cases (h : toRat? x = some q) : |q| = (units (ordinal x) : ℚ) / one ∧
    if isNegative x then q = -|q| else q = |q| := by
  have hnonneg : 0 ≤ (units (ordinal x) : ℚ) / one := div_nonneg (Nat.cast_nonneg _) cast_one_pos.le
  rw [toRat?, if_pos (finite_of_toRat? h)] at h
  cases h
  cases isNegative x with
  | false => simp [abs_of_nonneg hnonneg]
  | true => simp [abs_of_nonneg hnonneg]

theorem le_abs_iff (h : toRat? x = some q) (n : ℕ) :
    (n : ℚ) ≤ |q| ↔ n * one ≤ units (ordinal x) := by
  rw [(toRat?_cases h).1, le_div_iff₀ cast_one_pos]
  norm_cast

theorem abs_lt_iff (h : toRat? x = some q) {n : ℕ} (hn : 0 < n) :
    |q| < 1 / n ↔ units (ordinal x) * n < one := by
  have hn : (0 : ℚ) < n := by exact_mod_cast hn
  rw [(toRat?_cases h).1, div_lt_div_iff₀ cast_one_pos hn, one_mul]
  norm_cast

/-- The bounds beyond which a number is not written are those of its width. -/
theorem bounds_iff (h : toRat? x = some q) : (10 ^ 64 ≤ q ∨ q ≤ -10 ^ 63) ↔
    10 ^ (NumberField.maxWidth - (isNegative x).toNat) * one ≤ units (ordinal x) := by
  have hsign := (toRat?_cases h).2
  have hnonneg := abs_nonneg q
  have hpow : (0 : ℚ) < 10 ^ 63 := by positivity
  rw [← le_abs_iff h]
  cases hneg : isNegative x with
  | false =>
    have hq : q = |q| := by simpa only [hneg, Bool.false_eq_true, if_false] using hsign
    have hcast : ((10 ^ (NumberField.maxWidth - false.toNat) : ℕ) : ℚ) = 10 ^ 64 := by norm_cast
    rw [hcast, ← hq]
    constructor
    · rintro (hlarge | hlarge)
      · exact hlarge
      · linarith
    · exact .inl
  | true =>
    have hq : q = -|q| := by simpa only [hneg, if_true] using hsign
    have hcast : ((10 ^ (NumberField.maxWidth - true.toNat) : ℕ) : ℚ) = 10 ^ 63 := by norm_cast
    rw [hcast]
    constructor
    · rintro (hlarge | hlarge)
      · have hpow' : (0 : ℚ) < 10 ^ 64 := by positivity
        linarith
      · linarith
    · intro hlarge
      right
      linarith

end Binary64

namespace NumberField

variable {x : Float} {t : Text}

theorem write_zero (negative : Bool) :
    write (ofOrdinal negative 0) = .ok (withSign negative ['0']) := by
  cases negative with
  | false => rfl
  | true => rfl

theorem finite_of_wide (hwide : maxWidth < (display x).length) : ordinal x < infinity := by
  obtain ⟨t, hshort, -, heq⟩ | ⟨hk, -⟩ := signed_cases x
  · rw [display, heq] at hwide
    omega
  · exact hk

theorem write_wide (hwide : maxWidth < (display x).length) : ∃ q, toRat? x = some q ∧
    (|q| < 1 → write x = .ok (withSign (isNegative x) ['0'])) ∧
    (1 ≤ |q| → ∃ e, write x = .error e) := by
  obtain ⟨q, hq⟩ := exists_toRat? (finite_of_wide hwide)
  have hone := le_abs_iff hq 1
  rw [Nat.cast_one, Nat.one_mul] at hone
  refine ⟨q, hq, ?_, ?_⟩
  · intro hsmall
    apply (write_of_wide hwide).1
    exact Nat.lt_of_not_le fun hle => not_le_of_gt hsmall (hone.2 hle)
  · intro hlarge
    exact (write_of_wide hwide).2 (hone.1 hlarge)

theorem write_error_iff : (∃ e, write x = .error e) ↔
    ∃ q, toRat? x = some q ∧ (10 ^ 64 ≤ q ∨ q ≤ -10 ^ 63) := by
  constructor
  · rintro ⟨e, he⟩
    have hwide : maxWidth < (display x).length := by
      apply Nat.lt_of_not_le
      intro hfits
      rw [write_of_fits hfits] at he
      cases he
    obtain ⟨q, hq⟩ := exists_toRat? (finite_of_wide hwide)
    refine ⟨q, hq, (bounds_iff hq).2 ?_⟩
    obtain hsmall | hlarge := wide_cases hwide
    · rw [(write_of_wide hwide).1 (by omega)] at he
      cases he
    · exact hlarge
  · rintro ⟨q, hq, hbounds⟩
    have hlarge := (bounds_iff hq).1 hbounds
    have hwide := lt_length_display (finite_of_toRat? hq) hlarge
    apply (write_of_wide hwide).2
    exact Nat.le_trans (Nat.le_mul_of_pos_left one (Nat.pow_pos (by decide))) hlarge

/-- What is written is read as the number, or as a zero of its sign if the number is next to
nothing; and writing that again changes nothing. -/
theorem exists_read_write (h : write x = .ok t) :
    ∃ y, readFloat? t = some y ∧ write y = .ok t ∧
      (y = x ∨ y = ofOrdinal (isNegative x) 0 ∧
        ∃ q, toRat? x = some q ∧ |q| < 1 / 10 ^ 44) := by
  by_cases hfits : (display x).length ≤ maxWidth
  · have hexact := write_of_fits hfits
    rw [h] at hexact
    cases hexact
    exact ⟨x, readFloat?_display x, h, .inl rfl⟩
  · have hwide := Nat.lt_of_not_le hfits
    obtain hsmall | hlarge := wide_cases hwide
    · have hzero := (write_of_wide hwide).1 (by omega)
      rw [h] at hzero
      cases hzero
      obtain ⟨q, hq⟩ := exists_toRat? (finite_of_wide hwide)
      have hbound := (abs_lt_iff hq (Nat.pow_pos (by decide))).2 hsmall
      rw [Nat.cast_pow, Nat.cast_ofNat] at hbound
      exact ⟨_, readFloat?_zero _, write_zero _, .inr ⟨rfl, q, hq, hbound⟩⟩
    · have hone : one ≤ units (ordinal x) :=
        Nat.le_trans (Nat.le_mul_of_pos_left one (Nat.pow_pos (by decide))) hlarge
      obtain ⟨e, he⟩ := (write_of_wide hwide).2 hone
      rw [h] at he
      cases he

/-- The text of a number is exact if that fits in a field; no other text is written but a zero for
a number that is next to nothing, and what is not written is large. -/
theorem write_exact (x : Float) :
    ((Utf8.encode (display x)).length ≤ maxWidth → write x = .ok (display x)) ∧
    (maxWidth < (Utf8.encode (display x)).length → ∃ q, toRat? x = some q ∧
      (|q| < 1 → write x = .ok (withSign (isNegative x) ['0'])) ∧
      (1 ≤ |q| → ∃ e, write x = .error e)) ∧
    ((∃ e, write x = .error e) ↔ ∃ q, toRat? x = some q ∧ (10 ^ 64 ≤ q ∨ q ≤ -10 ^ 63)) ∧
    ∀ t, write x = .ok t → (Utf8.encode t).length ≤ maxWidth ∧
      (∀ c ∈ t, c ≠ '#' ∧ c ≠ '$' ∧ Text.isBlank c = false) ∧
      ∃ y, fieldFloat? (Utf8.encode t) = some y ∧ write y = .ok t ∧
        (y = x ∨ y = ofOrdinal (isNegative x) 0 ∧
          ∃ q, toRat? x = some q ∧ |q| < 1 / 10 ^ 44) := by
  rw [Utf8.length_encode (readable_display x).1]
  refine ⟨write_of_fits, write_wide, write_error_iff, ?_⟩
  intro t ht
  obtain ⟨hwidth, hinert, -⟩ := readable_write ht
  rw [Utf8.length_encode hinert, fieldFloat?_encode hinert]
  exact ⟨hwidth, fun c hc => (hinert c hc).2, exists_read_write ht⟩

end NumberField

end RemoteCalc
