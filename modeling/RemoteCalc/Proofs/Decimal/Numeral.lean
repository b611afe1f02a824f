import Mathlib
import RemoteCalc.Decimal.Integer

/-! Numerals: texts of digits, their values and their lengths. -/

namespace RemoteCalc.Decimal

/-- Digits and nothing else. -/
def Digits (t : Text) : Prop := ∀ c ∈ t, c.isDigit

theorem digits_numeral (n : Nat) : Digits (numeral n) :=
  fun _ hc => Nat.isDigit_of_mem_toDigits (by decide) (by decide) hc

theorem numeral_ne_nil (n : Nat) : numeral n ≠ [] := Nat.toDigits_ne_nil

theorem digits_replicate (n : Nat) : Digits (List.replicate n '0') := by
  intro c hc
  rw [List.eq_of_mem_replicate hc]
  decide

theorem Digits.append {t u : Text} (ht : Digits t) (hu : Digits u) : Digits (t ++ u) := by
  intro c hc
  rcases List.mem_append.1 hc with hc | hc
  · exact ht c hc
  · exact hu c hc

theorem ofDigitChars_zeros_append (n : Nat) (t : Text) :
    Nat.ofDigitChars 10 (List.replicate n '0' ++ t) 0 = Nat.ofDigitChars 10 t 0 := by
  rw [Nat.ofDigitChars_append, Nat.ofDigitChars_replicate_zero, Nat.mul_zero]

theorem ofDigitChars_numeral_append (m n : Nat) :
    Nat.ofDigitChars 10 (numeral m ++ List.replicate n '0') 0 = m * 10 ^ n := by
  rw [Nat.ofDigitChars_append, numeral, Nat.ofDigitChars_ten_toDigits,
    Nat.ofDigitChars_replicate_zero, Nat.mul_comm]

theorem length_printInt32_le (i : Int32) : (printInt32 i).length ≤ 11 := by
  have hlo : -2147483648 ≤ i.toInt := Int32.le_toInt i
  have hhi : i.toInt < 2147483648 := Int32.toInt_lt i
  have hlen : (numeral i.toInt.natAbs).length ≤ 10 := by
    rw [numeral, Nat.length_toDigits_le_iff (by decide) (by decide)]
    omega
  rw [printInt32]
  split
  · rw [List.length_cons]
    omega
  · omega

end RemoteCalc.Decimal
