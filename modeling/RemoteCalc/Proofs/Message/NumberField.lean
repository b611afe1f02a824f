import RemoteCalc.Message.NumberField
import RemoteCalc.Proofs.Decimal.ReadBack
import RemoteCalc.Proofs.Message.Inert

/-! Whatever is written into a number field can be carried by a message and read as a number. -/

namespace RemoteCalc.NumberField

open Decimal

variable {t w p : Text} {d : Decimal}

theorem inert_plain (h : Plain t d) : t.Inert := by
  cases h with
  | whole _ hw => exact Text.inert_digits hw
  | point _ hw hp => exact (Text.inert_digits hw).append ((Text.inert_digits hp).cons (by decide))

/-- A text that a message can carry and that is read as some double. -/
def Readable (t : Text) : Prop := t.Inert ∧ ∃ x, readFloat? t = some x

/-- A sign in front of a magnitude, for a negative number. -/
def withSign (negative : Bool) (t : Text) : Text := if negative then '-' :: t else t

theorem readFloat?_zero (negative : Bool) :
    readFloat? (withSign negative ['0']) = some (Binary64.ofOrdinal negative 0) := by
  cases negative with
  | false => rfl
  | true => rfl

theorem readable_withSign (h : Plain t d) (negative : Bool) : Readable (withSign negative t) := by
  cases negative with
  | false => exact ⟨inert_plain h, _, h.readFloat?_eq⟩
  | true => exact ⟨(inert_plain h).cons (by decide), _, h.readFloat?_neg⟩

theorem signed_of_finite {x : Float} (h : Binary64.ordinal x < Binary64.infinity)
    (magnitude : Nat → Text) : signed x magnitude =
      withSign (Binary64.isNegative x) (magnitude (Binary64.ordinal x)) := by
  have hnan : ¬ Binary64.isNaN x = true := by
    simp only [Binary64.isNaN, decide_eq_true_eq]
    omega
  have hinf : ¬ Binary64.isInfinite x = true := by
    simp only [Binary64.isInfinite, decide_eq_true_eq]
    omega
  rw [signed, if_neg hnan, if_neg hinf, withSign]

/-- A NaN and the infinities have short names, and every other number a magnitude. -/
theorem signed_cases (x : Float) :
    (∃ t : Text, t.length ≤ maxWidth ∧ t.Inert ∧ ∀ magnitude, signed x magnitude = t) ∨
      Binary64.ordinal x < Binary64.infinity ∧ ∀ magnitude, signed x magnitude =
        withSign (Binary64.isNegative x) (magnitude (Binary64.ordinal x)) := by
  by_cases hnan : Binary64.isNaN x
  · exact .inl ⟨['N', 'a', 'N'], by decide, by decide, fun _ => by rw [signed, if_pos hnan]⟩
  by_cases hinf : Binary64.isInfinite x
  · refine .inl ⟨withSign (Binary64.isNegative x) ['i', 'n', 'f'], ?_, ?_, fun _ => ?_⟩
    · cases Binary64.isNegative x <;> decide
    · cases Binary64.isNegative x <;> decide
    · rw [signed, if_neg hnan, if_pos hinf, withSign]
  · right
    simp only [Binary64.isInfinite, Binary64.isNaN, decide_eq_true_eq] at hinf hnan
    have hfinite : Binary64.ordinal x < Binary64.infinity := by omega
    exact ⟨hfinite, signed_of_finite hfinite⟩

theorem readable_display (x : Float) : Readable (display x) := by
  refine ⟨?_, x, readFloat?_display x⟩
  rcases signed_cases x with ⟨t, -, ht, heq⟩ | ⟨hk, heq⟩
  · rw [display, heq]
    exact ht
  · obtain ⟨e, hplain, -⟩ := plain_magnitude hk
    rw [display, heq]
    exact (readable_withSign hplain _).1

theorem dropEndZeros_point (hw : '.' ∉ w) (hp : '.' ∉ p) :
    dropEndZeros (w ++ '.' :: p) = w ∨
      ∃ q, q <+: p ∧ dropEndZeros (w ++ '.' :: p) = w ++ '.' :: q := by
  have hmem : '.' ∈ w ++ '.' :: p := by simp
  have hrev : (w ++ '.' :: p).reverse = p.reverse ++ '.' :: w.reverse := by simp
  rw [dropEndZeros, if_pos hmem, hrev, List.dropWhile_append]
  cases hq : p.reverse.dropWhile (· = '0') with
  | nil =>
    left
    have hw' : w.reverse.dropWhile (· = '.') = w.reverse := by
      cases hr : w.reverse with
      | nil => rfl
      | cons c u =>
        have hc : c ≠ '.' := by
          rintro rfl
          exact hw (List.mem_reverse.1 (hr ▸ List.mem_cons_self ..))
        simp [hc]
    simp [hw']
  | cons c q =>
    right
    have hsuffix : c :: q <:+ p.reverse := hq ▸ List.dropWhile_suffix _
    have hc : c ≠ '.' := by
      rintro rfl
      exact hp (List.mem_reverse.1 (hsuffix.subset (List.mem_cons_self ..)))
    refine ⟨(c :: q).reverse, ?_, ?_⟩
    · have := List.reverse_prefix.2 hsuffix
      rwa [List.reverse_reverse] at this
    · simp [hc]

theorem point_not_mem_digits (h : Digits t) : '.' ∉ t := by
  intro hmem
  exact absurd (h '.' hmem) (by decide)

theorem dropEndZeros_withSign (hw : Digits w) (hp : Digits p) (negative : Bool) :
    dropEndZeros (withSign negative (w ++ '.' :: p)) = withSign negative w ∨
      ∃ q, q <+: p ∧
        dropEndZeros (withSign negative (w ++ '.' :: p)) = withSign negative (w ++ '.' :: q) := by
  have hsign (u : Text) : withSign negative (w ++ u) = withSign negative w ++ u := by
    cases negative with
    | false => rfl
    | true => rfl
  have hpoint : '.' ∉ withSign negative w := by
    have := point_not_mem_digits hw
    cases negative with
    | false => exact this
    | true => simp [withSign, this]
  rw [hsign]
  obtain hdrop | ⟨q, hq, hdrop⟩ := dropEndZeros_point hpoint (point_not_mem_digits hp)
  · exact .inl hdrop
  · right
    refine ⟨q, hq, ?_⟩
    rw [hsign, hdrop]

theorem readable_rounded {x : Float} (hwide : maxWidth < (display x).length) :
    Readable (dropEndZeros (fixed fallbackPlaces x)) := by
  rcases signed_cases x with ⟨t, hshort, -, heq⟩ | ⟨-, heq⟩
  · rw [display, heq] at hwide
    omega
  · obtain ⟨w, p, hpoint, hne, hw, hp, -, -⟩ := pointed_split fallbackPlaces (digits_numeral
      (Binary64.roundHalfEven (Binary64.units (Binary64.ordinal x) *
        Nat.pow 10 fallbackPlaces) Binary64.one))
    rw [fixed, heq, hpoint]
    rcases dropEndZeros_withSign hw hp (Binary64.isNegative x) with hdrop | ⟨q, hq, hdrop⟩
    · rw [hdrop]
      exact readable_withSign (.whole hne hw) _
    · rw [hdrop]
      exact readable_withSign (.point hne hw fun c hc => hp c (hq.subset hc)) _

theorem write_of_fits {x : Float} (h : (display x).length ≤ maxWidth) :
    write x = .ok (display x) := if_pos h

/-- A field is never wider than it may be, nor is it ever refused by the reader. -/
theorem readable_write {x : Float} (h : write x = .ok t) : t.length ≤ maxWidth ∧ Readable t := by
  by_cases hfits : (display x).length ≤ maxWidth
  · rw [write_of_fits hfits] at h
    cases h
    exact ⟨hfits, readable_display x⟩
  · simp only [write, if_neg hfits] at h
    split at h
    · cases h
    · rename_i hshort
      cases h
      exact ⟨Nat.le_of_not_lt hshort, readable_rounded (Nat.lt_of_not_le hfits)⟩

end RemoteCalc.NumberField
