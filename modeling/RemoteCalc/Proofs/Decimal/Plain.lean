import RemoteCalc.Proofs.Decimal.Grammar

/-! Decimals without an exponent: what they look like and what they are read as. -/

namespace RemoteCalc.Decimal

/-- A text of digits, at least one, perhaps with a point and more digits behind it, and its
value. -/
inductive Plain : Text → Decimal → Prop
  | whole {w : Text} : w ≠ [] → Digits w → Plain w ⟨Nat.ofDigitChars 10 w 0, 0⟩
  | point {w p : Text} : w ≠ [] → Digits w → Digits p →
      Plain (w ++ '.' :: p) ⟨Nat.ofDigitChars 10 (w ++ p) 0, -(p.length : Int)⟩

variable {t : Text} {d : Decimal}

theorem Plain.number (h : Plain t d) : Number t d := by
  cases h with
  | whole hne hw => simpa using Number.mk (.whole hne hw) .absent
  | point hne hw hp =>
    have hpoint := Mantissa.point hw hp (List.append_ne_nil_of_left_ne_nil hne _)
    simpa using Number.mk hpoint .absent

theorem Plain.readFloat?_eq (h : Plain t d) :
    readFloat? t = some (Binary64.ofOrdinal false d.nearest) :=
  readFloat?_eq_some.2 (.number .absent h.number)

theorem Plain.readFloat?_neg (h : Plain t d) :
    readFloat? ('-' :: t) = some (Binary64.ofOrdinal true d.nearest) :=
  readFloat?_eq_some.2 (.number .minus h.number)

/-- Where the point goes: `places` digits stand behind it and at least one before it. -/
theorem pointed_split (places : Nat) {ds : Text} (hds : Digits ds) :
    ∃ w p, pointed places ds = w ++ '.' :: p ∧ w ≠ [] ∧ Digits w ∧ Digits p ∧
      p.length = places ∧ Nat.ofDigitChars 10 (w ++ p) 0 = Nat.ofDigitChars 10 ds 0 := by
  obtain ⟨padded, hpad⟩ : ∃ u, u = List.replicate (places + 1 - ds.length) '0' ++ ds := ⟨_, rfl⟩
  have hlen : places < padded.length := by
    rw [hpad, List.length_append, List.length_replicate]
    omega
  have hall : Digits padded := hpad ▸ (digits_replicate _).append hds
  refine ⟨padded.take (padded.length - places), padded.drop (padded.length - places),
    by rw [hpad, pointed], ?_, fun c hc => hall c (List.mem_of_mem_take hc),
    fun c hc => hall c (List.mem_of_mem_drop hc), ?_, ?_⟩
  · apply List.ne_nil_of_length_pos
    rw [List.length_take]
    omega
  · rw [List.length_drop]
    omega
  · rw [List.take_append_drop, hpad, ofDigitChars_zeros_append]

theorem nearest_ofNat {m e : Nat} (hm : m ≠ 0) (he : e ≤ 400) :
    nearest ⟨m, .ofNat e⟩ = Binary64.nearest (m * 10 ^ e) 1 := by
  have hhigh : ¬ (400 : Int) < .ofNat e := by
    rw [Int.ofNat_eq_natCast]
    omega
  have hlow : ¬ (.ofNat e + ((numeral m).length : Int) < -400) := by
    rw [Int.ofNat_eq_natCast]
    omega
  simp only [nearest, if_neg hm, if_neg hhigh, if_neg hlow]
  rfl

theorem nearest_negSucc {m e : Nat} (hm : m ≠ 0) (he : e < 400 + (numeral m).length) :
    nearest ⟨m, .negSucc e⟩ = Binary64.nearest m (10 ^ (e + 1)) := by
  have hhigh : ¬ (400 : Int) < .negSucc e := by
    rw [Int.negSucc_eq]
    omega
  have hlow : ¬ (.negSucc e + ((numeral m).length : Int) < -400) := by
    rw [Int.negSucc_eq]
    omega
  simp only [nearest, if_neg hm, if_neg hhigh, if_neg hlow]
  rfl

theorem nearest_expand {m e : Nat} (h : nearest ⟨m, .ofNat e⟩ ≠ Binary64.infinity) :
    nearest ⟨m * 10 ^ e, .ofNat 0⟩ = nearest ⟨m, .ofNat e⟩ := by
  by_cases hm : m = 0
  · simp [nearest, hm]
  · have he : e ≤ 400 := by
      apply Nat.not_lt.1
      intro he
      apply h
      have he : (400 : Int) < .ofNat e := Int.ofNat_lt.2 he
      simp only [nearest, if_neg hm, if_pos he]
    have hpos : m * 10 ^ e ≠ 0 := Nat.mul_ne_zero hm (Nat.ne_of_gt (Nat.pow_pos (by decide)))
    rw [nearest_ofNat hm he, nearest_ofNat hpos (by decide), Nat.pow_zero, Nat.mul_one]

theorem plain_positional (h : d.nearest ≠ Binary64.infinity) :
    ∃ e, Plain d.positional e ∧ e.nearest = d.nearest := by
  obtain ⟨m, e⟩ := d
  cases e with
  | ofNat e =>
    refine ⟨⟨m * 10 ^ e, .ofNat 0⟩, ?_, nearest_expand h⟩
    have hne : numeral m ++ List.replicate e '0' ≠ [] :=
      List.append_ne_nil_of_left_ne_nil (numeral_ne_nil m) _
    have hplain := Plain.whole hne ((digits_numeral m).append (digits_replicate e))
    rw [ofDigitChars_numeral_append] at hplain
    exact hplain
  | negSucc e =>
    obtain ⟨w, p, heq, hne, hw, hp, hlen, hval⟩ := pointed_split (e + 1) (digits_numeral m)
    refine ⟨⟨m, .negSucc e⟩, ?_, rfl⟩
    have hplain := Plain.point hne hw hp
    rw [← heq, hval, hlen, numeral, Nat.ofDigitChars_ten_toDigits] at hplain
    exact hplain

end RemoteCalc.Decimal
