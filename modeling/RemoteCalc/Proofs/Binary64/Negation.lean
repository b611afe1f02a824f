import RemoteCalc.Proofs.Binary64.Bits

/-! The negative of a double is the double of the same magnitude and the other sign. -/

namespace RemoteCalc.Binary64

open Float.Model (Format UnpackedFloat)
open Float.Model.UnpackedFloat (Sign unpack unpackSign unpackExponent unpackMantissa)

/-- Two words that differ in their signs alone stand for a number and its negative. -/
theorem unpack_eq_neg {b c : BitVec Format.binary64.numBits}
    (hmantissa : unpackMantissa b = unpackMantissa c)
    (hexponent : unpackExponent b = unpackExponent c)
    (hsign : Sign.ofBitVec (unpackSign b) = -Sign.ofBitVec (unpackSign c)) :
    unpack Format.binary64 b = (unpack Format.binary64 c).neg := by
  simp only [unpack, hmantissa, hexponent, hsign]
  split_ifs <;> rfl

theorem ofBitVec_eq_neg {a b : BitVec 1} (h : a ≠ b) : Sign.ofBitVec a = -Sign.ofBitVec b := by
  have hcases : ∀ a b : BitVec 1, a ≠ b → a = 0#1 ∧ b = 1#1 ∨ a = 1#1 ∧ b = 0#1 := by decide
  obtain ⟨rfl, rfl⟩ | ⟨rfl, rfl⟩ := hcases a b h
  · rfl
  · rfl

theorem neg_eq (x : Float) : -x = ofOrdinal (!isNegative x) (ordinal x) := by
  have hlt := x.toBits.toNat_lt
  obtain ⟨w, hw⟩ : ∃ w : UInt64,
    UInt64.ofNat (if (!isNegative x) = true then 2 ^ 63 + ordinal x else ordinal x) = w := ⟨_, rfl⟩
  have hnat : w.toNat = if 2 ^ 63 ≤ x.toBits.toNat then x.toBits.toNat - 2 ^ 63
      else 2 ^ 63 + x.toBits.toNat := by
    rw [← hw, UInt64.toNat_ofNat', isNegative_eq, ordinal_eq]
    by_cases hneg : 2 ^ 63 ≤ x.toBits.toNat
    · simp only [hneg, decide_true, Bool.not_true, Bool.false_eq_true, if_false, if_true]
      omega
    · simp only [hneg, decide_false, Bool.not_false, if_false, if_true]
      omega
  have hunpack : unpack Format.binary64 w.toBitVec =
      (unpack Format.binary64 x.toBits.toBitVec).neg := by
    apply unpack_eq_neg
    · apply BitVec.eq_of_toNat_eq
      simp only [unpackMantissa, BitVec.toNat_cast, BitVec.extractLsb_toNat, UInt64.toNat_toBitVec,
        Nat.shiftRight_eq_div_pow, hnat]
      change _ / 2 ^ 0 % 2 ^ 52 = _ / 2 ^ 0 % 2 ^ 52
      split <;> omega
    · apply BitVec.eq_of_toNat_eq
      simp only [unpackExponent, BitVec.toNat_cast, BitVec.extractLsb_toNat, UInt64.toNat_toBitVec,
        Nat.shiftRight_eq_div_pow, hnat]
      change _ / 2 ^ 52 % 2 ^ 11 = _ / 2 ^ 52 % 2 ^ 11
      split <;> omega
    · apply ofBitVec_eq_neg
      intro hsame
      have hbit := congrArg BitVec.toNat hsame
      simp only [unpackSign, BitVec.toNat_cast, BitVec.extractLsb_toNat, UInt64.toNat_toBitVec,
        Nat.shiftRight_eq_div_pow, hnat] at hbit
      change _ / 2 ^ 63 % 2 ^ 1 = _ / 2 ^ 63 % 2 ^ 1 at hbit
      split at hbit <;> omega
  rw [ofOrdinal_eq, hw]
  change Float.ofModel (Float.Model.pack _) = Float.ofModel (Float.Model.pack _)
  rw [hunpack]
  rfl

end RemoteCalc.Binary64
