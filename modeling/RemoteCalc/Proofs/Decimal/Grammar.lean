import RemoteCalc.Decimal.Printer
import RemoteCalc.Decimal.Reader
import RemoteCalc.Proofs.Decimal.Numeral

/-! The texts that are read as whole numbers and as doubles, and the values that they have. -/

namespace RemoteCalc.Decimal

/-- A sign, which may be missing, and whether it is a minus. -/
inductive Sign : Text → Bool → Prop
  | absent : Sign [] false
  | plus : Sign ['+'] false
  | minus : Sign ['-'] true

/-- A sign and at least one digit. -/
inductive Whole : Text → Int → Prop
  | mk {s t : Text} {negative : Bool} : Sign s negative → t ≠ [] → Digits t →
      Whole (s ++ t)
        (if negative then -(Nat.ofDigitChars 10 t 0 : Int) else Nat.ofDigitChars 10 t 0)

/-- Digits, with a point before, among or after them. -/
inductive Mantissa : Text → Decimal → Prop
  | whole {w : Text} : w ≠ [] → Digits w → Mantissa w ⟨Nat.ofDigitChars 10 w 0, 0⟩
  | point {w p : Text} : Digits w → Digits p → w ++ p ≠ [] →
      Mantissa (w ++ '.' :: p) ⟨Nat.ofDigitChars 10 (w ++ p) 0, -(p.length : Int)⟩

inductive Exponent : Text → Int → Prop
  | absent : Exponent [] 0
  | lower {t : Text} {e : Int} : Whole t e → Exponent ('e' :: t) e
  | upper {t : Text} {e : Int} : Whole t e → Exponent ('E' :: t) e

inductive Number : Text → Decimal → Prop
  | mk {m x : Text} {d : Decimal} {e : Int} : Mantissa m d → Exponent x e →
      Number (m ++ x) ⟨d.digits, d.exponent + e⟩

/-- The text of a double: a number, which stands for the double nearest to it, or a name in any mix
of cases. -/
inductive FloatText : Text → Float → Prop
  | nan {s t : Text} {negative : Bool} : Sign s negative → t.map Char.toLower = ['n', 'a', 'n'] →
      FloatText (s ++ t) Binary64.nan
  | inf {s t : Text} {negative : Bool} : Sign s negative → t.map Char.toLower = ['i', 'n', 'f'] →
      FloatText (s ++ t) (Binary64.ofOrdinal negative Binary64.infinity)
  | infinity {s t : Text} {negative : Bool} : Sign s negative →
      t.map Char.toLower = ['i', 'n', 'f', 'i', 'n', 'i', 't', 'y'] →
      FloatText (s ++ t) (Binary64.ofOrdinal negative Binary64.infinity)
  | number {s t : Text} {negative : Bool} {d : Decimal} : Sign s negative → Number t d →
      FloatText (s ++ t) (Binary64.ofOrdinal negative d.nearest)

variable {s t u x : Text} {negative : Bool} {c : Char} {n : Nat} {i : Int32} {d : Decimal} {e : Int}

theorem exists_sign (t : Text) : ∃ s, Sign s (splitSign t).1 ∧ t = s ++ (splitSign t).2 := by
  unfold splitSign
  split
  · exact ⟨_, .plus, rfl⟩
  · exact ⟨_, .minus, rfl⟩
  · exact ⟨_, .absent, rfl⟩

theorem splitSign_cons (hplus : c ≠ '+') (hminus : c ≠ '-') (t : Text) :
    splitSign (c :: t) = (false, c :: t) := by
  unfold splitSign
  split
  · rename_i he
    exact absurd (List.cons.inj he).1 hplus
  · rename_i he
    exact absurd (List.cons.inj he).1 hminus
  · rfl

theorem Sign.splitSign_append (hs : Sign s negative) (ht : splitSign t = (false, t)) :
    splitSign (s ++ t) = (negative, t) := by
  cases hs with
  | absent => exact ht
  | plus => rfl
  | minus => rfl

theorem readNat?_eq_some :
    readNat? t = some n ↔ t ≠ [] ∧ Digits t ∧ Nat.ofDigitChars 10 t 0 = n := by
  have hall : t.all Char.isDigit = true ↔ Digits t := List.all_eq_true
  rw [readNat?]
  constructor
  · intro h
    split at h
    · rename_i ht
      exact ⟨ht.1, hall.1 ht.2, Option.some.inj h⟩
    · cases h
  · rintro ⟨hne, hdigits, rfl⟩
    rw [if_pos ⟨hne, hall.2 hdigits⟩]

theorem Digits.splitSign_eq (hne : t ≠ []) (h : Digits t) : splitSign t = (false, t) := by
  obtain ⟨c, u, rfl⟩ := List.exists_cons_of_ne_nil hne
  have hc : c.isDigit := h c (List.mem_cons_self ..)
  apply splitSign_cons
  · rintro rfl
    exact absurd hc (by decide)
  · rintro rfl
    exact absurd hc (by decide)

/-- What a reader of whole numbers finds behind the sign. -/
theorem whole_iff : Whole t e ↔ ∃ negative u n, splitSign t = (negative, u) ∧
    readNat? u = some n ∧ (if negative then -(n : Int) else n) = e := by
  constructor
  · intro h
    cases h with
    | mk hs hne hdigits =>
      have hsign := hs.splitSign_append (hdigits.splitSign_eq hne)
      exact ⟨_, _, _, hsign, readNat?_eq_some.2 ⟨hne, hdigits, rfl⟩, rfl⟩
  · rintro ⟨negative, u, n, hsign, hn, rfl⟩
    obtain ⟨s, hs, ht⟩ := exists_sign t
    obtain ⟨hne, hdigits, rfl⟩ := readNat?_eq_some.1 hn
    rw [hsign] at hs ht
    rw [ht]
    exact .mk hs hne hdigits

/-- A whole number is read if it has 32 bits. -/
theorem readInt32?_eq_some : readInt32? t = some i ↔ Whole t i.toInt := by
  rw [whole_iff]
  constructor
  · intro h
    rw [readInt32?] at h
    cases hsign : splitSign t with
    | mk negative u =>
      simp only [hsign] at h
      cases hn : readNat? u with
      | none =>
        rw [hn] at h
        cases h
      | some n =>
        obtain ⟨k, hk⟩ : ∃ k, (if negative then -(n : Int) else n) = k := ⟨_, rfl⟩
        simp only [hn, hk] at h
        split at h
        · rename_i hrange
          cases h
          refine ⟨negative, u, n, rfl, hn, hk.trans ?_⟩
          exact (Int32.toInt_ofInt_of_le hrange.1 (Int.lt_of_le_of_lt hrange.2 (by decide))).symm
        · cases h
  · rintro ⟨negative, u, n, hsign, hn, hvalue⟩
    have hrange : Int32.minValue.toInt ≤ i.toInt ∧ i.toInt ≤ Int32.maxValue.toInt :=
      ⟨i.minValue_le_toInt, i.toInt_le⟩
    simp only [readInt32?, hsign, hn, hvalue]
    rw [if_pos hrange, Int32.ofInt_toInt]

theorem readInt32?_printInt32 (i : Int32) : readInt32? (printInt32 i) = some i := by
  have hvalue : Nat.ofDigitChars 10 (numeral i.toInt.natAbs) 0 = i.toInt.natAbs := by
    rw [numeral, Nat.ofDigitChars_ten_toDigits]
  have hwhole {s : Text} {negative : Bool} (hs : Sign s negative) :=
    Whole.mk hs (numeral_ne_nil i.toInt.natAbs) (digits_numeral i.toInt.natAbs)
  rw [readInt32?_eq_some, printInt32]
  split
  · rename_i h
    have hi : (-(i.toInt.natAbs : Int)) = i.toInt := by omega
    have hminus := hwhole .minus
    rw [hvalue, if_pos rfl, hi] at hminus
    exact hminus
  · rename_i h
    have hi : (i.toInt.natAbs : Int) = i.toInt := by omega
    have habsent := hwhole .absent
    rw [hvalue, if_neg Bool.false_ne_true, hi] at habsent
    exact habsent

theorem readExponent?_eq_some : readExponent? t = some e ↔ Exponent t e := by
  constructor
  · intro h
    cases t with
    | nil =>
      cases h
      exact .absent
    | cons c t =>
      rw [readExponent?] at h
      split at h
      · rename_i hc
        cases hsign : splitSign t with
        | mk negative u =>
          simp only [hsign] at h
          cases hn : readNat? u with
          | none =>
            rw [hn] at h
            cases h
          | some n =>
            rw [hn] at h
            cases h
            have hwhole := whole_iff.2 ⟨negative, u, n, hsign, hn, rfl⟩
            rcases hc with rfl | rfl
            · exact .lower hwhole
            · exact .upper hwhole
      · cases h
  · intro h
    cases h with
    | absent => rfl
    | lower ht =>
      obtain ⟨negative, u, n, hsign, hn, rfl⟩ := whole_iff.1 ht
      simp only [readExponent?, hsign, hn]
      rfl
    | upper ht =>
      obtain ⟨negative, u, n, hsign, hn, rfl⟩ := whole_iff.1 ht
      simp only [readExponent?, hsign, hn]
      rfl

/-- Digits are read up to something that is none. -/
theorem Digits.span (hw : Digits t) (hx : ∀ c ∈ x.head?, c.isDigit = false) :
    (t ++ x).takeWhile Char.isDigit = t ∧ (t ++ x).dropWhile Char.isDigit = x := by
  rw [List.takeWhile_append_of_pos hw, List.dropWhile_append_of_pos hw]
  cases x with
  | nil => simp
  | cons c x =>
    have hc : ¬ c.isDigit = true := by simp [hx c rfl]
    rw [List.takeWhile_cons_of_neg hc, List.dropWhile_cons_of_neg hc, List.append_nil]
    exact ⟨rfl, rfl⟩

theorem exists_span (t : Text) :
    ∃ w x, t = w ++ x ∧ Digits w ∧ ∀ c ∈ x.head?, c.isDigit = false := by
  refine ⟨t.takeWhile Char.isDigit, t.dropWhile Char.isDigit,
    List.takeWhile_append_dropWhile.symm, fun c hc => List.mem_takeWhile_imp hc, ?_⟩
  intro c hc
  have hstop := List.head?_dropWhile_not Char.isDigit t
  rw [Option.mem_def.1 hc] at hstop
  exact hstop

/-- An exponent begins with neither a digit nor a point. -/
theorem Exponent.head (h : Exponent x e) : ∀ c ∈ x.head?, c.isDigit = false ∧ c ≠ '.' := by
  cases h with
  | absent => simp
  | lower => simp
  | upper => simp

theorem read?_digits (hw : Digits t) (hx : ∀ c ∈ x.head?, c.isDigit = false ∧ c ≠ '.') :
    read? (t ++ x) = if t = [] then none
      else (readExponent? x).map fun e => ⟨Nat.ofDigitChars 10 t 0, e⟩ := by
  obtain ⟨htake, hdrop⟩ := hw.span fun c hc => (hx c hc).1
  simp only [read?, htake, hdrop]
  cases x with
  | nil => simp
  | cons c x =>
    have hc : c ≠ '.' := (hx c rfl).2
    simp [hc]

theorem read?_point {p : Text} (hw : Digits t) (hp : Digits p)
    (hx : ∀ c ∈ x.head?, c.isDigit = false) :
    read? (t ++ '.' :: (p ++ x)) = if t ++ p = [] then none
      else (readExponent? x).map fun e => ⟨Nat.ofDigitChars 10 (t ++ p) 0, e - p.length⟩ := by
  have hpoint : ∀ c ∈ ('.' :: (p ++ x)).head?, c.isDigit = false := by
    intro c hc
    cases hc
    decide
  obtain ⟨htake, hdrop⟩ := hw.span hpoint
  obtain ⟨htake', hdrop'⟩ := hp.span hx
  simp only [read?, htake, hdrop, htake', hdrop', List.append_eq_nil_iff]

theorem read?_eq_some : read? t = some d ↔ Number t d := by
  constructor
  · intro h
    obtain ⟨w, x, rfl, hw, hx⟩ := exists_span t
    -- whether there are places is decided by the first character that is no digit
    by_cases hpoint : ∃ y, x = '.' :: y
    · obtain ⟨y, rfl⟩ := hpoint
      obtain ⟨p, x, rfl, hp, hx⟩ := exists_span y
      rw [read?_point hw hp hx] at h
      split at h
      · cases h
      · rename_i hne
        obtain ⟨e, he, rfl⟩ := Option.map_eq_some_iff.1 h
        have hnumber := Number.mk (.point hw hp hne) (readExponent?_eq_some.1 he)
        rw [List.append_assoc, List.cons_append, Int.add_comm] at hnumber
        exact hnumber
    · have hhead : ∀ c ∈ x.head?, c.isDigit = false ∧ c ≠ '.' := by
        intro c hc
        refine ⟨hx c hc, ?_⟩
        rintro rfl
        exact hpoint ⟨_, List.eq_cons_of_mem_head? hc⟩
      rw [read?_digits hw hhead] at h
      split at h
      · cases h
      · rename_i hne
        obtain ⟨e, he, rfl⟩ := Option.map_eq_some_iff.1 h
        have hnumber := Number.mk (.whole hne hw) (readExponent?_eq_some.1 he)
        rw [Int.zero_add] at hnumber
        exact hnumber
  · intro h
    cases h with
    | mk hm hx =>
      cases hm with
      | whole hne hw =>
        rw [read?_digits hw hx.head, if_neg hne, readExponent?_eq_some.2 hx, Option.map_some,
          Int.zero_add]
      | point hw hp hne =>
        rw [List.append_assoc, List.cons_append, read?_point hw hp fun c hc => (hx.head c hc).1,
          if_neg hne, readExponent?_eq_some.2 hx, Option.map_some, Int.add_comm]
        rfl

theorem toLower_digit {c : Char} (h : c.isDigit) : c.toLower = c := by
  rw [Char.isDigit_iff_toNat] at h
  rw [Char.toLower, dif_neg]
  rintro ⟨hA, -⟩
  have hA : 65 ≤ c.toNat := hA
  exact absurd (Nat.le_trans hA h.2) (by decide)

theorem Number.exists_head (h : Number t d) :
    ∃ c u, t = c :: u ∧ (c.isDigit = true ∨ c = '.') := by
  have head {w : Text} (hne : w ≠ []) (hw : Digits w) (x : Text) :
      ∃ c u, w ++ x = c :: u ∧ (c.isDigit = true ∨ c = '.') := by
    obtain ⟨c, w, rfl⟩ := List.exists_cons_of_ne_nil hne
    exact ⟨c, w ++ x, rfl, .inl (hw c (List.mem_cons_self ..))⟩
  cases h with
  | mk hm _ =>
    cases hm with
    | whole hne hw => exact head hne hw _
    | @point w p hw =>
      rw [List.append_assoc]
      by_cases hne : w = []
      · rw [hne]
        exact ⟨_, _, rfl, .inr rfl⟩
      · exact head hne hw _

/-- A number has no sign of its own and is no name. -/
theorem Number.unnamed (h : Number t d) : splitSign t = (false, t) ∧
    t.map Char.toLower ≠ ['n', 'a', 'n'] ∧ ¬ (t.map Char.toLower = ['i', 'n', 'f'] ∨
      t.map Char.toLower = ['i', 'n', 'f', 'i', 'n', 'i', 't', 'y']) := by
  obtain ⟨c, u, rfl, hc⟩ := h.exists_head
  have hlower : c.toLower = c := by
    rcases hc with hc | rfl
    · exact toLower_digit hc
    · decide
  have hne (b : Char) (hb : b.isDigit = false ∧ b ≠ '.') : c ≠ b := by
    rintro rfl
    rcases hc with hc | hc
    · rw [hb.1] at hc
      cases hc
    · exact hb.2 hc
  refine ⟨splitSign_cons (hne '+' (by decide)) (hne '-' (by decide)) u, ?_, ?_⟩
  · intro he
    rw [List.map_cons, hlower] at he
    exact hne 'n' (by decide) (List.cons.inj he).1
  · rintro (he | he)
    · rw [List.map_cons, hlower] at he
      exact hne 'i' (by decide) (List.cons.inj he).1
    · rw [List.map_cons, hlower] at he
      exact hne 'i' (by decide) (List.cons.inj he).1

theorem splitSign_name {name : Text} (h : t.map Char.toLower = c :: name)
    (hc : c ≠ '+' ∧ c ≠ '-') : splitSign t = (false, t) := by
  obtain ⟨b, u, rfl, rfl, -⟩ := List.map_eq_cons_iff.1 h
  apply splitSign_cons
  · rintro rfl
    exact hc.1 (by decide)
  · rintro rfl
    exact hc.2 (by decide)

theorem readFloat?_eq_some {y : Float} : readFloat? t = some y ↔ FloatText t y := by
  constructor
  · intro h
    obtain ⟨s, hs, ht⟩ := exists_sign t
    rw [readFloat?] at h
    cases hsign : splitSign t with
    | mk negative u =>
      rw [hsign] at hs ht
      simp only [hsign] at h
      rw [ht]
      split at h
      · rename_i hname
        cases h
        exact .nan hs hname
      · split at h
        · rename_i hname
          cases h
          rcases hname with hname | hname
          · exact .inf hs hname
          · exact .infinity hs hname
        · obtain ⟨d, hd, rfl⟩ := Option.map_eq_some_iff.1 h
          exact .number hs (read?_eq_some.1 hd)
  · intro h
    cases h with
    | nan hs hname =>
      have hsign := hs.splitSign_append (splitSign_name hname (by decide))
      simp only [readFloat?, hsign, if_pos hname]
    | inf hs hname =>
      have hsign := hs.splitSign_append (splitSign_name hname (by decide))
      simp [readFloat?, hsign, hname]
    | infinity hs hname =>
      have hsign := hs.splitSign_append (splitSign_name hname (by decide))
      simp [readFloat?, hsign, hname]
    | number hs hnumber =>
      obtain ⟨hu, hnan, hinf⟩ := hnumber.unnamed
      simp only [readFloat?, hs.splitSign_append hu, if_neg hnan, if_neg hinf,
        read?_eq_some.2 hnumber, Option.map_some]

end RemoteCalc.Decimal
