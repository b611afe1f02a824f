import RemoteCalc.Proofs.Binary64.Negation
import RemoteCalc.Proofs.Expression.Readings
import RemoteCalc.Proofs.Message.NumberField

/-!
Two printed numbers with an operator between them are read as that operation. The minus of a second
operand that directly follows a minus is taken for the second half of a doubled one.
-/

namespace RemoteCalc.Expression

open Decimal
open RemoteCalc.NumberField (withSign inert_plain signed_of_finite)

/-- A text in which there are neither symbols nor blanks. -/
structure Bare (t : Text) : Prop where
  ne_nil : t ≠ []
  plain : ∀ c ∈ t, c ∉ symbols
  solid : ∀ c ∈ t, Text.isBlank c = false

/-- The text of a number without an exponent: it has no symbol but perhaps a minus in front. -/
structure Printed (t : Text) (x : Float) : Prop where
  read : readFloat? t = some x
  bare : ∃ negative u, Bare u ∧ t = withSign negative u

variable {t u s gap gap' before after op : Text} {method : Method} {x a b : Float} {d : Decimal}

theorem bare_plain (h : Plain t d) : Bare t := by
  have hinert := inert_plain h
  refine ⟨?_, ?_, fun c hc => (hinert c hc).2.2.2⟩
  · cases h with
    | whole hne => exact hne
    | point => simp
  · intro c hc
    cases h with
    | whole _ hw => exact hw.not_symbol c hc
    | point hne hw hp =>
      exact (Mantissa.point hw hp (List.append_ne_nil_of_left_ne_nil hne _)).not_symbol c hc

theorem bare_nan : Bare ['N', 'a', 'N'] :=
  ⟨by simp, by simp [symbols], List.forall_iff_forall_mem.1 (by decide)⟩

theorem bare_inf : Bare ['i', 'n', 'f'] :=
  ⟨by simp, by simp [symbols], List.forall_iff_forall_mem.1 (by decide)⟩

/-- What is printed of a number but its minus reads as the number without it. -/
theorem display_cases (x : Float) : ∃ negative u, Bare u ∧ display x = withSign negative u ∧
    (negative = true → readFloat? u = some (-x)) := by
  by_cases hnan : Binary64.isNaN x
  · refine ⟨false, _, bare_nan, ?_, Bool.noConfusion⟩
    rw [display, signed, if_pos hnan, withSign, if_neg Bool.false_ne_true]
  by_cases hinf : Binary64.isInfinite x
  · refine ⟨Binary64.isNegative x, _, bare_inf, ?_, fun hneg => ?_⟩
    · rw [display, signed, if_neg hnan, if_pos hinf, withSign]
    · rw [Binary64.isInfinite, decide_eq_true_eq] at hinf
      rw [Binary64.neg_eq, hneg, hinf]
      rfl
  · simp only [Binary64.isInfinite, Binary64.isNaN, decide_eq_true_eq] at hinf hnan
    have hfinite : Binary64.ordinal x < Binary64.infinity := by omega
    obtain ⟨e, hplain, he⟩ := plain_magnitude hfinite
    refine ⟨Binary64.isNegative x, _, bare_plain hplain, signed_of_finite hfinite _, fun hneg => ?_⟩
    rw [hplain.readFloat?_eq, he, Binary64.neg_eq, hneg]
    rfl

theorem printed_display (x : Float) : Printed (display x) x := by
  obtain ⟨negative, u, hbare, hdisplay, -⟩ := display_cases x
  exact ⟨readFloat?_display x, negative, u, hbare, hdisplay⟩

/-- Behind the minus of a number its negative is printed. -/
theorem printed_neg (h : (display x).head? = some '-') :
    ∃ u, display x = '-' :: u ∧ Printed u (-x) := by
  obtain ⟨negative, u, hbare, hdisplay, hread⟩ := display_cases x
  cases negative with
  | false =>
    rw [hdisplay, withSign, if_neg Bool.false_ne_true] at h
    exact absurd (by simp [symbols]) (hbare.plain '-' (List.mem_of_mem_head? h))
  | true => exact ⟨u, hdisplay, hread rfl, false, u, hbare, rfl⟩

theorem Printed.ne_nil (h : Printed t x) : t ≠ [] := (readFloat?_eq_some.1 h.read).ne_nil

theorem Printed.solid (h : Printed t x) : ∀ c ∈ t, Text.isBlank c = false := by
  obtain ⟨-, negative, u, hbare, rfl⟩ := h
  cases negative with
  | false => exact hbare.solid
  | true =>
    intro c hc
    obtain rfl | hc := List.mem_cons.1 hc
    · decide
    · exact hbare.solid c hc

theorem Printed.tail_plain (h : Printed t x) : ∀ c ∈ t.tail, c ∉ symbols := by
  obtain ⟨-, negative, u, hbare, rfl⟩ := h
  cases negative with
  | false => exact fun c hc => hbare.plain c (List.mem_of_mem_tail hc)
  | true => exact hbare.plain

theorem Printed.plus_not_mem (h : Printed t x) : '+' ∉ t := by
  obtain ⟨-, negative, u, hbare, rfl⟩ := h
  have hplus : '+' ∉ u := fun hmem => hbare.plain _ hmem (by simp [symbols])
  cases negative with
  | false => exact hplus
  | true => simpa [withSign] using hplus

theorem Printed.readOperand?_eq (h : Printed t x) (hbefore : ∀ c ∈ before, Text.isBlank c)
    (hafter : ∀ c ∈ after, Text.isBlank c) : readOperand? (before ++ t ++ after) = some x :=
  readOperand?_eq_some.2 ⟨t, ⟨⟨before, after, rfl, hbefore, hafter⟩,
    fun c hc => h.solid c (List.mem_of_mem_head? hc),
    fun c hc => h.solid c (List.mem_of_mem_getLast? hc)⟩, readFloat?_eq_some.1 h.read⟩

theorem symbol_not_mem_blanks (h : ∀ c ∈ gap, Text.isBlank c) {c : Char} (hc : c ∈ symbols) :
    c ∉ gap := by
  intro hmem
  have hblank := symbol_not_blank c hc
  rw [h c hmem] at hblank
  cases hblank

/-- Neither operand of a reading has a star or a slash. -/
theorem Reading.count {line left right : Text} (h : Reading line op method left right a b)
    {c : Char} (hc : c = '*' ∨ c = '/') : line.count c = op.count c := by
  have hsymbol : c ∈ symbols ∧ ¬ (c = '+' ∨ c = '-') := by
    rcases hc with rfl | rfl <;> simp [symbols]
  have hnone {t : Text} {x : Float} (ht : readOperand? t = some x) : t.count c = 0 := by
    rw [List.count_eq_zero]
    intro hmem
    obtain ⟨l, r, heq⟩ := List.append_of_mem hmem
    exact hsymbol.2 (operand_symbol ht heq hsymbol.1).1
  rw [h.line_eq, List.count_append, List.count_append, hnone h.left_read, hnone h.right_read]
  omega

/-- Each operator has more pluses than those after it or other stars or slashes, but for the doubled
and the single minus. -/
theorem operators_pairwise : operators.Pairwise fun earlier later =>
    later.1.count '+' < earlier.1.count '+' ∨ later.1.count '*' ≠ earlier.1.count '*' ∨
      later.1.count '/' ≠ earlier.1.count '/' ∨ earlier.1 = ['-', '-'] ∧ later.1 = ['-'] := by
  decide

section Line

variable (hop : (op, method) ∈ operators) (hs : Printed s a) (ht : Printed t b)
  (hgap : ∀ c ∈ gap, Text.isBlank c) (hgap' : ∀ c ∈ gap', Text.isBlank c)

include hs hgap in
theorem symbol_not_mem_left {c : Char} (hc : c ∈ symbols) : c ∉ (s ++ gap).tail := by
  rw [List.tail_append_of_ne_nil hs.ne_nil, List.mem_append, not_or]
  exact ⟨fun hmem => hs.tail_plain c hmem hc, symbol_not_mem_blanks hgap hc⟩

include hop hs ht hgap hgap' in
theorem reading_printed : Reading (s ++ gap ++ op ++ (gap' ++ t)) op method (s ++ gap) (gap' ++ t)
    a b where
  operator := hop
  line_eq := rfl
  left_ne := List.append_ne_nil_of_left_ne_nil hs.ne_nil gap
  left_read := hs.readOperand?_eq (List.forall_mem_nil _) hgap
  right_read := by simpa using ht.readOperand?_eq hgap' (List.forall_mem_nil _)

include hs ht hgap hgap' in
theorem count_plus : (s ++ gap ++ op ++ (gap' ++ t)).count '+' = op.count '+' := by
  have hplus : '+' ∈ symbols := by simp [symbols]
  simp [List.count_eq_zero.2 hs.plus_not_mem, List.count_eq_zero.2 ht.plus_not_mem,
    List.count_eq_zero.2 (symbol_not_mem_blanks hgap hplus),
    List.count_eq_zero.2 (symbol_not_mem_blanks hgap' hplus)]

include hs ht hgap hgap' in
/-- Two minuses meet only where a minus in front of the second operand follows the operator. -/
theorem doubled_minus (hapart : ¬ (gap' = [] ∧ t.head? = some '-')) :
    ¬ ['-', '-'] <:+: (s ++ gap ++ ['-'] ++ (gap' ++ t)).tail := by
  have hminus : '-' ∈ symbols := by simp [symbols]
  rintro ⟨v, w, heq⟩
  have htail : (s ++ gap ++ ['-'] ++ (gap' ++ t)).tail = (s ++ gap).tail ++ '-' :: (gap' ++ t) := by
    rw [List.append_assoc, List.tail_append_of_ne_nil
      (List.append_ne_nil_of_left_ne_nil hs.ne_nil gap)]
    rfl
  have hsplit : (s ++ gap).tail ++ '-' :: (gap' ++ t) = v ++ '-' :: '-' :: w := by
    rw [← htail, ← heq, List.append_assoc]
    rfl
  obtain ⟨v', -, hmiddle⟩ := append_eq_of_not_mem_left hsplit (symbol_not_mem_left hs hgap hminus)
  cases v' with
  | nil =>
    -- the operator is the first of the two
    have hnext : gap' ++ t = [] ++ '-' :: w := (List.cons.inj hmiddle).2
    obtain ⟨v', hnil, hhead⟩ := append_eq_of_not_mem_left hnext (symbol_not_mem_blanks hgap' hminus)
    obtain ⟨rfl, rfl⟩ := List.append_eq_nil_iff.1 hnil.symm
    exact hapart ⟨rfl, by rw [hhead]; rfl⟩
  | cons _ v' =>
    -- both stand in the second operand
    have hrest : gap' ++ t = v' ++ '-' :: '-' :: w := (List.cons.inj hmiddle).2
    obtain ⟨v'', -, ht'⟩ := append_eq_of_not_mem_left hrest (symbol_not_mem_blanks hgap' hminus)
    apply ht.tail_plain '-' _ hminus
    rw [ht']
    cases v'' <;> simp

include hop hs ht hgap hgap' in
/-- No operator that is tried before the one that stands between the operands makes a call. -/
theorem callWith?_earlier {earlier : Text × Method} (hearlier : earlier ∈ operators)
    (hapart : ¬ (op = ['-'] ∧ gap' = [] ∧ t.head? = some '-'))
    (h : op.count '+' < earlier.1.count '+' ∨ op.count '*' ≠ earlier.1.count '*' ∨
      op.count '/' ≠ earlier.1.count '/' ∨ earlier.1 = ['-', '-'] ∧ op = ['-']) :
    callWith? earlier.1 earlier.2 (s ++ gap ++ op ++ (gap' ++ t)) = none := by
  have hreading := reading_printed hop hs ht hgap hgap'
  rw [Option.eq_none_iff_forall_ne_some]
  intro e he
  obtain ⟨left, right, a', b', hother, -, -⟩ := reading_of_callWith? hearlier he
  obtain hplus | hstar | hslash | ⟨hdouble, rfl⟩ := h
  · have hcount : _ = op.count '+' := count_plus hs ht hgap hgap'
    rw [hother.line_eq, List.count_append, List.count_append] at hcount
    omega
  · exact hstar ((hreading.count (.inl rfl)).symm.trans (hother.count (.inl rfl)))
  · exact hslash ((hreading.count (.inr rfl)).symm.trans (hother.count (.inr rfl)))
  · obtain ⟨left, right, -, -, hsplit, -⟩ := callWith?_eq_some.1 he
    rw [hdouble] at hsplit
    apply doubled_minus hs ht hgap hgap' fun hmeet => hapart ⟨rfl, hmeet⟩
    rw [← splitAfterFirst?_isSome (by simp), hsplit]
    rfl

include hop in
theorem not_keyword_of_operator (left right : Text) : left ++ op ++ right ∉ keywords := by
  obtain ⟨c, hc⟩ := List.exists_mem_of_ne_nil op (operator_ne_nil hop)
  have hletters : ∀ k ∈ keywords, ∀ c ∈ k, c ∉ symbols := by simp [keywords, symbols]
  intro hmem
  exact hletters _ hmem c (by simp [hc]) (operator_symbols hop c hc)

include hs ht in
theorem trimmed_printed (hbefore : ∀ c ∈ before, Text.isBlank c)
    (hafter : ∀ c ∈ after, Text.isBlank c) :
    Text.Trimmed (before ++ (s ++ gap ++ op ++ (gap' ++ t)) ++ after)
      (s ++ gap ++ op ++ (gap' ++ t)) where
  padded := ⟨before, after, rfl, hbefore, hafter⟩
  first := by
    obtain ⟨c, u, rfl⟩ := List.exists_cons_of_ne_nil hs.ne_nil
    rintro c' hc'
    cases hc'
    exact hs.solid c (List.mem_cons_self ..)
  last := by
    intro c hc
    rw [← List.append_assoc, List.getLast?_append_of_ne_nil _ ht.ne_nil] at hc
    exact ht.solid c (List.mem_of_mem_getLast? hc)

include hop hs ht hgap hgap' in
theorem ofLine_printed (hbefore : ∀ c ∈ before, Text.isBlank c)
    (hafter : ∀ c ∈ after, Text.isBlank c)
    (hapart : ¬ (op = ['-'] ∧ gap' = [] ∧ t.head? = some '-')) :
    ofLine (before ++ (s ++ gap ++ op ++ (gap' ++ t)) ++ after) = .ok (call method a b) := by
  have hreading := reading_printed hop hs ht hgap hgap'
  have htrimmed : Text.Trimmed _ (s ++ gap ++ op ++ (gap' ++ t)) :=
    trimmed_printed hs ht hbefore hafter
  have hlead : Leads op (s ++ gap) := by
    rintro c - rfl
    exact symbol_not_mem_left hs hgap (operator_symbols hop c (List.mem_cons_self ..))
  obtain ⟨earlier, later, hsplit⟩ := List.append_of_mem hop
  have hfind : operators.findSome? (fun p => callWith? p.1 p.2 (s ++ gap ++ op ++ (gap' ++ t))) =
      some (call method a b) := by
    refine List.findSome?_eq_some_iff.2
      ⟨earlier, (op, method), later, hsplit, hreading.callWith? hlead htrimmed.first, ?_⟩
    intro p hp
    have hpair := operators_pairwise
    rw [hsplit, List.pairwise_append] at hpair
    exact callWith?_earlier hop hs ht hgap hgap' (hsplit ▸ List.mem_append_left _ hp) hapart
      (hpair.2.2 p hp _ (List.mem_cons_self ..))
  rw [ofLine, Text.trim_eq_iff.2 htrimmed,
    ofTrimmed_of_not_keyword (not_keyword_of_operator hop _ _), hfind]

end Line

/-- Numbers that are printed with an operator between them are read as the operation with them.
Where a minus stands in front of the second one and directly follows a single minus, the two are
the doubled one, and the number behind them is the negative. -/
theorem ofLine_display (hop : (op, method) ∈ operators) (a b : Float)
    (before gap gap' after : Text) (hbefore : ∀ c ∈ before, Text.isBlank c)
    (hgap : ∀ c ∈ gap, Text.isBlank c) (hgap' : ∀ c ∈ gap', Text.isBlank c)
    (hafter : ∀ c ∈ after, Text.isBlank c) :
    ofLine (before ++ (display a ++ gap ++ op ++ (gap' ++ display b)) ++ after) =
      .ok (if op = ['-'] ∧ gap' = [] ∧ (display b).head? = some '-' then
        call .subFromMemory a (-b) else call method a b) := by
  have ha := printed_display a
  split
  · rename_i hmeet
    obtain ⟨rfl, rfl, hhead⟩ := hmeet
    obtain ⟨u, hu, hneg⟩ := printed_neg hhead
    have hop' : (['-', '-'], Method.subFromMemory) ∈ operators := by simp [operators]
    have hdoubled := ofLine_printed hop' ha hneg hgap (List.forall_mem_nil _) hbefore hafter
      (by simp)
    rw [hu, ← hdoubled]
    simp
  · rename_i hapart
    exact ofLine_printed hop ha (printed_display b) hgap hgap' hbefore hafter hapart

theorem ofLine_display_negative :
    ofLine ['5', '-', '-', '3'] = .ok (call .subFromMemory 5 3) ∧
      ofLine [' ', '5', ' ', '-', ' ', '-', '3', '\n'] = .ok (call .sub 5 (-3)) := by
  have hdisplay : display 5 = ['5'] ∧ display (-3) = ['-', '3'] := by decide +kernel
  have hneg : -(-3) = (3 : Float) := by decide +kernel
  have hop : (['-'], Method.sub) ∈ operators := by decide
  have hspace : ∀ c ∈ [' '], Text.isBlank c := List.forall_mem_singleton.2 (by decide)
  have hmeet := ofLine_display hop 5 (-3) [] [] [] [] (by simp) (by simp) (by simp) (by simp)
  have hapart := ofLine_display hop 5 (-3) [' '] [' '] [' '] ['\n'] hspace hspace hspace
    (List.forall_mem_singleton.2 (by decide))
  rw [hdisplay.1, hdisplay.2, if_pos (by decide), hneg] at hmeet
  rw [hdisplay.1, hdisplay.2, if_neg (by decide)] at hapart
  exact ⟨hmeet, hapart⟩

end RemoteCalc.Expression
