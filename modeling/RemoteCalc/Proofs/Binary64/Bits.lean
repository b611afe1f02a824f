import Mathlib
import RemoteCalc.Binary64.Basic

/-!
A double is its sign and the ordinal of its magnitude: nothing is lost between the word, its parts
and the number, and there is one NaN.
-/

namespace RemoteCalc.Binary64

open Float.Model (Format UnpackedFloat)
open Float.Model.UnpackedFloat (Sign packComponents unpackSign unpackExponent unpackMantissa)

theorem infinity_eq : infinity = 2047 * 2 ^ 52 := rfl

theorem isNegative_eq (x : Float) : isNegative x = decide (2 ^ 63 ≤ x.toBits.toNat) := rfl

theorem ordinal_eq (x : Float) : ordinal x = x.toBits.toNat % 2 ^ 63 := rfl

theorem ofOrdinal_eq (negative : Bool) (k : Nat) :
    ofOrdinal negative k = .ofBits (.ofNat (if negative then 2 ^ 63 + k else k)) := rfl

theorem log2_of_lt {m k : Nat} (h : 2 ^ k ≤ m) (h' : m < 2 ^ (k + 1)) : m.log2 = k :=
  (Nat.log2_eq_iff (by have := Nat.two_pow_pos k; omega)).2 ⟨h, h'⟩

/-- A word is put together from its three parts. -/
theorem packComponents_parts (b : BitVec Format.binary64.numBits) :
    packComponents Format.binary64 (Sign.ofBitVec (unpackSign b)) (unpackExponent b)
      (unpackMantissa b) = b := by
  have hs : ∀ s : BitVec 1, (Sign.ofBitVec s).toBitVec = s := by decide
  apply BitVec.eq_of_getLsbD_eq
  intro i hi
  simp only [packComponents, hs, unpackSign, unpackExponent, unpackMantissa,
    BitVec.getLsbD_append, BitVec.getLsbD_cast, BitVec.getLsbD_extractLsb]
  by_cases hm : i < 52
  · simp [hm]
  · by_cases he : i - 52 < 11
    · have hi' : 52 + (i - 52) = i := by omega
      simp [hm, he, hi']
    · have : i = 63 := by simp only [Format.numBits] at hi; omega
      subst this
      simp

/-- A significand below 2^52 is stored as it is, with the exponent field zero. -/
theorem pack_subnormal (s : Sign) {m : BitVec 52} (h : 0 < m.toNat) {e : Int} (he : e = -1074) :
    UnpackedFloat.pack Format.binary64 (.finite s m.toNat e h) =
      packComponents Format.binary64 s 0 m := by
  have hm := m.isLt
  have hlog : m.toNat.log2 < 52 := (Nat.log2_lt (by omega)).2 hm
  have hbits : m.toNat.log2 + 1 ≠ Format.binary64.mantissaBits := by
    change _ ≠ 53
    omega
  subst he
  simp only [UnpackedFloat.pack, if_neg hbits]
  rw [if_neg (by decide)]
  simp

/-- A significand from 2^52 on is stored without that bit. -/
theorem pack_normal (s : Sign) {x : BitVec 11} {m : BitVec 52} {n : Nat} {e : Int}
    (hx : x.toNat + 1 < 2 ^ 11) (hn : n = 2 ^ 52 + m.toNat) (he : e = x.toNat - 1075) (h : 0 < n) :
    UnpackedFloat.pack Format.binary64 (.finite s n e h) = packComponents Format.binary64 s x m := by
  have hm := m.isLt
  have hlog : n.log2 = 52 := log2_of_lt (by omega) (by omega)
  have hexp : (e + Format.binary64.exponentBias + Format.binary64.mantissaBitsWithoutImplicit).toNat
      = x.toNat := by
    change (e + 1023 + 52).toNat = _
    omega
  have hbits : n.log2 + 1 = Format.binary64.mantissaBits := by rw [hlog]; rfl
  simp only [UnpackedFloat.pack, hexp, if_pos hbits]
  rw [if_neg (by omega)]
  congr 1
  · simp
  · apply BitVec.eq_of_toNat_eq
    rw [hn, BitVec.toNat_ofNat]
    omega

theorem pack_unpack {b : BitVec Format.binary64.numBits} (h : Format.binary64.Valid b) :
    UnpackedFloat.pack Format.binary64 (UnpackedFloat.unpack Format.binary64 b) = b := by
  have hb := packComponents_parts b
  have hbias : (Format.binary64.exponentBias + Format.binary64.mantissaBitsWithoutImplicit : Int) =
    1075 := rfl
  simp only [UnpackedFloat.unpack, hbias]
  split
  · rename_i he
    split
    · rename_i hm
      rw [he, hm] at hb
      exact hb
    · rename_i hm
      exact (h.eq_packedNaN he hm).symm
  · rename_i he
    split
    · rename_i hz
      rw [hz] at hb
      split
      · rename_i hm
        rw [hm] at hb
        exact hb
      · rw [pack_subnormal _ _ (by simp [hz])]
        exact hb
    · rename_i hz
      have hx : (unpackExponent b).toNat + 1 < 2 ^ 11 := by
        have hlt : (unpackExponent b).toNat < 2 ^ 11 := (unpackExponent b).isLt
        have hne : (unpackExponent b).toNat ≠ 2 ^ 11 - 1 := fun hc =>
          he (BitVec.eq_of_toNat_eq (by simpa using hc))
        omega
      rw [pack_normal _ hx _ rfl]
      · exact hb
      · rw [BitVec.toNat_append, ← Nat.shiftLeft_add_eq_or_of_lt (unpackMantissa b).isLt]
        rfl

theorem ofBits_toBits (x : Float) : Float.ofBits x.toBits = x := by
  obtain ⟨⟨bits, hv⟩⟩ := x
  simp only [Float.ofBits, Float.toBits, Float.Model.ofBits, Float.Model.pack, pack_unpack hv]

theorem ofOrdinal_ordinal (x : Float) : ofOrdinal (isNegative x) (ordinal x) = x := by
  have hlt := x.toBits.toNat_lt
  have hbits : UInt64.ofNat (if isNegative x then 2 ^ 63 + ordinal x else ordinal x) = x.toBits := by
    apply UInt64.toNat_inj.1
    rw [UInt64.toNat_ofNat']
    simp only [isNegative_eq, ordinal_eq, decide_eq_true_eq]
    split <;> omega
  rw [ofOrdinal_eq, hbits, ofBits_toBits]

theorem eq_nan {x : Float} (h : isNaN x) : x = nan := by
  have hlt := x.toBits.toNat_lt
  have hv := x.toModel.valid.eq_packedNaN
  rw [isNaN, decide_eq_true_eq] at h
  rw [ordinal_eq, infinity_eq] at h
  rw [← ofBits_toBits x, nan]
  congr 1
  apply UInt64.toBitVec_inj.1
  apply hv
  · apply BitVec.eq_of_toNat_eq
    simp only [unpackExponent, BitVec.toNat_cast, BitVec.extractLsb_toNat, UInt64.toNat_toBitVec,
      Nat.shiftRight_eq_div_pow]
    change x.toBits.toNat / 2 ^ 52 % 2 ^ 11 = 2047
    omega
  · intro hz
    have hm := congrArg BitVec.toNat hz
    simp only [unpackMantissa, BitVec.toNat_cast, BitVec.extractLsb_toNat, UInt64.toNat_toBitVec,
      Nat.shiftRight_eq_div_pow] at hm
    change x.toBits.toNat / 2 ^ 0 % 2 ^ 52 = 0 at hm
    omega

end RemoteCalc.Binary64
