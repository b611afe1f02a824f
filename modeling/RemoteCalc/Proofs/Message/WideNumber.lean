import RemoteCalc.Proofs.Decimal.Shortest
import RemoteCalc.Proofs.Message.NumberField

/-!
Numbers whose exact text is too wide for a field. With seventeen digits at most, such a text has
many zeros, before the digits or after them: the number is either so small that it is written as a
zero, or so large that it is not written at all.
-/

namespace RemoteCalc

open Binary64 (units one infinity ordinal isNegative)

namespace Decimal

theorem length_pointed (places : Nat) (ds : Text) :
    (pointed places ds).length = max ds.length (places + 1) + 1 := by
  simp only [pointed, List.length_append, List.length_cons, List.length_take, List.length_drop,
    List.length_replicate]
  omega

theorem length_positional_ofNat (m e : Nat) :
    (positional ⟨m, .ofNat e⟩).length = (numeral m).length + e := by
  rw [positional, List.length_append, List.length_replicate]

theorem length_positional_negSucc (m e : Nat) :
    (positional ⟨m, .negSucc e⟩).length = max (numeral m).length (e + 2) + 1 :=
  length_pointed (e + 1) (numeral m)

theorem pow_length_le {m : Nat} (hm : m ≠ 0) : 10 ^ ((numeral m).length - 1) ≤ m := by
  obtain hone | hlt := Nat.eq_zero_or_pos ((numeral m).length - 1)
  · rw [hone]
    exact Nat.pos_of_ne_zero hm
  · exact (lt_length_iff hlt).1 (by omega)

/-- Rounding takes no decimal above the double nearest to a quotient that is not below it. -/
theorem nearest_negSucc_le {m e n d : Nat} (hd : 0 < d) (h : m * d ≤ n * 10 ^ (e + 1)) :
    nearest ⟨m, .negSucc e⟩ ≤ Binary64.nearest n d := by
  by_cases hzero : m = 0
  · rw [nearest, if_pos hzero]
    exact Nat.zero_le _
  by_cases hlow : e < 400 + (numeral m).length
  · rw [nearest_negSucc hzero hlow]
    exact Binary64.nearest_mono (Nat.pow_pos (by decide)) hd h
  · have hhigh : ¬ (400 : Int) < .negSucc e := by
      rw [Int.negSucc_eq]
      omega
    have hlow : Int.negSucc e + ((numeral m).length : Int) < -400 := by
      rw [Int.negSucc_eq]
      omega
    rw [nearest, if_neg hzero, if_neg hhigh, if_pos hlow]
    exact Nat.zero_le _

theorem nearest_ofNat_le {m e n : Nat} (he : e ≤ 400) (h : m * 10 ^ e ≤ n) :
    nearest ⟨m, .ofNat e⟩ ≤ Binary64.nearest n 1 := by
  by_cases hzero : m = 0
  · rw [nearest, if_pos hzero]
    exact Nat.zero_le _
  · rw [nearest_ofNat hzero he]
    exact Binary64.nearest_mono (by decide) (by decide) (Nat.mul_le_mul_right 1 h)

theorem le_nearest_ofNat {m e w : Nat} (h : 10 ^ w ≤ m * 10 ^ e) :
    Binary64.nearest (10 ^ w) 1 ≤ nearest ⟨m, .ofNat e⟩ := by
  have hm : m ≠ 0 := by
    rintro rfl
    rw [Nat.zero_mul] at h
    exact absurd h (Nat.not_le_of_gt (Nat.pow_pos (by decide)))
  by_cases he : e ≤ 400
  · rw [nearest_ofNat hm he]
    exact Binary64.nearest_mono (by decide) (by decide) (Nat.mul_le_mul_right 1 h)
  · have hhigh : (400 : Int) < .ofNat e := by
      rw [Int.ofNat_eq_natCast]
      omega
    rw [nearest, if_neg hm, if_pos hhigh]
    exact Nat.min_le_right _ _

end Decimal

namespace NumberField

open Decimal

theorem length_withSign (negative : Bool) (t : Text) :
    (withSign negative t).length = t.length + negative.toNat := by
  cases negative with
  | false => rfl
  | true => rfl

/-- A number too wide is far from one: it is very small, or its whole part alone is too wide. -/
theorem wide_cases {x : Float} (hwide : maxWidth < (display x).length) :
    units (ordinal x) * 10 ^ 44 < one ∨
      10 ^ (maxWidth - (isNegative x).toNat) * one ≤ units (ordinal x) := by
  have hwidth : maxWidth = 64 := rfl
  obtain ⟨t, hshort, -, heq⟩ | ⟨hk, heq⟩ := signed_cases x
  · rw [display, heq] at hwide
    omega
  rw [display, heq, length_withSign] at hwide
  have hsign := (isNegative x).toNat_le
  by_cases hzero : ordinal x = 0
  · rw [if_pos hzero, List.length_singleton] at hwide
    omega
  rw [if_neg hzero] at hwide
  have hnear := shortest_nearest (Nat.pos_of_ne_zero hzero) hk
  have hdigits := digits_shortest_le (Nat.pos_of_ne_zero hzero) hk
  obtain ⟨⟨m, e⟩, hshortest⟩ : ∃ d, shortest (ordinal x) = d := ⟨_, rfl⟩
  rw [hshortest] at hwide hnear hdigits
  cases e with
  | ofNat e =>
    -- there are no places, so it is the whole part that is too wide
    right
    rw [length_positional_ofNat] at hwide
    have hm : m ≠ 0 := by
      rintro rfl
      exact hzero hnear.symm
    have hlarge : 10 ^ (maxWidth - (isNegative x).toNat) ≤ m * 10 ^ e := by
      calc 10 ^ (maxWidth - (isNegative x).toNat) ≤ 10 ^ ((numeral m).length - 1 + e) :=
            Nat.pow_le_pow_right (by decide) (by omega)
        _ = 10 ^ ((numeral m).length - 1) * 10 ^ e := Nat.pow_add _ _ _
        _ ≤ m * 10 ^ e := Nat.mul_le_mul_right _ (pow_length_le hm)
    have hle := Binary64.units_mono (le_nearest_ofNat hlarge)
    rw [hnear] at hle
    refine Nat.le_trans ?_ hle
    -- rounding takes neither of the two bounds down
    cases isNegative x with
    | false => decide +kernel
    | true => decide +kernel
  | negSucc e =>
    -- the digits are few, so most of the width is zeros after the point
    left
    have hlength : (numeral m).length ≤ 18 := by
      rw [numeral, Nat.length_toDigits_le_iff (by decide) (by decide)]
      exact Nat.lt_of_le_of_lt hdigits (by decide)
    rw [length_positional_negSucc] at hwide
    have hbelow : m * 10 ^ 45 ≤ 1 * 10 ^ (e + 1) := by
      calc m * 10 ^ 45 ≤ 10 ^ 17 * 10 ^ 45 := Nat.mul_le_mul_right _ hdigits
        _ = 10 ^ 62 := (Nat.pow_add 10 17 45).symm
        _ ≤ 10 ^ (e + 1) := Nat.pow_le_pow_right (by decide) (by omega)
        _ = 1 * 10 ^ (e + 1) := (Nat.one_mul _).symm
    have hpos : 0 < 10 ^ 45 := Nat.pow_pos (by decide)
    have hle := Binary64.units_mono (nearest_negSucc_le hpos hbelow)
    rw [hnear] at hle
    have hsmall : units (Binary64.nearest 1 (10 ^ 45)) * 10 ^ 44 < one := by decide +kernel
    exact Nat.lt_of_le_of_lt (Nat.mul_le_mul_right _ hle) hsmall

theorem pos_of_le_units {k w : Nat} (h : 10 ^ w * one ≤ units k) : 0 < k := by
  apply Nat.pos_of_ne_zero
  rintro rfl
  have hzero : units 0 = 0 := by decide
  have hpow : 0 < 10 ^ w * one := Nat.mul_pos (Nat.pow_pos (by decide)) (by decide)
  omega

/-- A magnitude whose whole part is too wide has no text that fits. -/
theorem lt_length_shortest {k : Nat} (negative : Bool) (hk : k < infinity)
    (h : 10 ^ (maxWidth - negative.toNat) * one ≤ units k) :
    maxWidth - negative.toNat < (shortest k).positional.length := by
  obtain ⟨w, hw⟩ : ∃ w, maxWidth - negative.toNat = w := ⟨_, rfl⟩
  obtain ⟨least, hleast⟩ : ∃ k, Binary64.nearest (10 ^ w) 1 = k := ⟨_, rfl⟩
  -- the least magnitude that is not below the power of ten
  have hbelow : units (least - 1) < 10 ^ w * one := by
    rw [← hleast, ← hw]
    cases negative with
    | false => decide +kernel
    | true => decide +kernel
  have hshort : w < (shortest least).positional.length := by
    rw [← hleast, ← hw]
    cases negative with
    | false => decide +kernel
    | true => decide +kernel
  have hhalf : 17 ≤ w ∧ w ≤ 64 := by
    rw [← hw]
    cases negative with
    | false => decide
    | true => decide
  have hpos := pos_of_le_units h
  rw [hw] at h ⊢
  obtain hlt | rfl | hgt := Nat.lt_trichotomy k least
  · have hle := Binary64.units_mono (Nat.le_sub_one_of_lt hlt)
    omega
  · exact hshort
  · have hnear := shortest_nearest hpos hk
    have hdigits := digits_shortest_le hpos hk
    obtain ⟨⟨m, e⟩, hshortest⟩ : ∃ d, shortest k = d := ⟨_, rfl⟩
    rw [hshortest] at hnear hdigits ⊢
    cases e with
    | ofNat e =>
      rw [length_positional_ofNat]
      apply Nat.lt_of_not_le
      intro hlength
      have hvalue : m * 10 ^ e ≤ 10 ^ w := by
        calc m * 10 ^ e ≤ 10 ^ (numeral m).length * 10 ^ e :=
              Nat.mul_le_mul_right _ (Nat.le_of_lt (lt_pow_length m))
          _ = 10 ^ ((numeral m).length + e) := (Nat.pow_add _ _ _).symm
          _ ≤ 10 ^ w := Nat.pow_le_pow_right (by decide) hlength
      have hle := nearest_ofNat_le (by omega) hvalue
      omega
    | negSucc e =>
      have hvalue : m * 1 ≤ 10 ^ w * 10 ^ (e + 1) := by
        calc m * 1 = m := Nat.mul_one m
          _ ≤ 10 ^ 17 := hdigits
          _ ≤ 10 ^ w := Nat.pow_le_pow_right (by decide) hhalf.1
          _ ≤ 10 ^ w * 10 ^ (e + 1) := Nat.le_mul_of_pos_right _ (Nat.pow_pos (by decide))
      have hle := nearest_negSucc_le Nat.one_pos hvalue
      omega

theorem lt_length_display {x : Float} (hk : ordinal x < infinity)
    (h : 10 ^ (maxWidth - (isNegative x).toNat) * one ≤ units (ordinal x)) :
    maxWidth < (display x).length := by
  have hlength := lt_length_shortest (isNegative x) hk h
  rw [display, signed_of_finite hk, length_withSign, if_neg (Nat.ne_of_gt (pos_of_le_units h))]
  omega

/-- The places go with their zeros, but the whole part stays. -/
theorem lt_length_rounded {r w : Nat} (h : 10 ^ (w + fallbackPlaces) ≤ r) (negative : Bool) :
    w + negative.toNat <
      (dropEndZeros (withSign negative (pointed fallbackPlaces (numeral r)))).length := by
  have hdigits := (lt_length_iff (Nat.lt_add_left w (by decide))).2 h
  have hlength := length_pointed fallbackPlaces (numeral r)
  obtain ⟨u, p, hpoint, -, hu, hp, hplaces, -⟩ := pointed_split fallbackPlaces (digits_numeral r)
  rw [hpoint, List.length_append, List.length_cons, hplaces] at hlength
  rw [hpoint]
  obtain hdrop | ⟨q, hq, hdrop⟩ := dropEndZeros_withSign hu hp negative
  · rw [hdrop, length_withSign]
    omega
  · rw [hdrop, length_withSign, List.length_append]
    omega

/-- A number that is too wide is written as a zero of its sign if it is less than one, and else is
not written. -/
theorem write_of_wide {x : Float} (hwide : maxWidth < (display x).length) :
    (units (ordinal x) < one → write x = .ok (withSign (isNegative x) ['0'])) ∧
      (one ≤ units (ordinal x) → ∃ e, write x = .error e) := by
  have hone : 0 < one := by decide
  have hplaces : fallbackPlaces = 6 := rfl
  obtain ⟨t, hshort, -, heq⟩ | ⟨-, heq⟩ := signed_cases x
  · rw [display, heq] at hwide
    exact absurd hshort (Nat.not_le_of_gt hwide)
  obtain ⟨r, hr⟩ : ∃ r, Binary64.roundHalfEven
    (units (ordinal x) * 10 ^ fallbackPlaces) one = r := ⟨_, rfl⟩
  have hfixed : fixed fallbackPlaces x =
      withSign (isNegative x) (pointed fallbackPlaces (numeral r)) := by
    rw [fixed, heq, ← hr]
    rfl
  simp only [write, if_neg (Nat.not_le_of_gt hwide), hfixed]
  obtain hsmall | hlarge := wide_cases hwide
  · have hround : r = 0 := by
      rw [← hr]
      rw [hplaces]
      exact Binary64.roundHalfEven_eq hone (by omega) (by omega)
    constructor
    · intro _
      rw [hround]
      cases isNegative x with
      | false => rfl
      | true => rfl
    · intro hle
      omega
  · constructor
    · intro hlt
      have hpos : 0 < 10 ^ (maxWidth - (isNegative x).toNat) := Nat.pow_pos (by decide)
      have hle := Nat.le_mul_of_pos_left one hpos
      omega
    · intro _
      have hround : 10 ^ (maxWidth - (isNegative x).toNat + fallbackPlaces) ≤ r := by
        rw [← hr]
        apply Binary64.le_roundHalfEven hone
        rw [Nat.pow_add, Nat.mul_right_comm]
        exact Nat.mul_le_mul_right _ hlarge
      have hlength := lt_length_rounded hround (isNegative x)
      have hsign : (isNegative x).toNat ≤ maxWidth :=
        Nat.le_trans (isNegative x).toNat_le (by decide)
      rw [Nat.sub_add_cancel hsign] at hlength
      rw [if_pos hlength]
      exact ⟨_, rfl⟩

end NumberField

end RemoteCalc
