import RemoteCalc.Proofs.Expression.Operands
import RemoteCalc.Proofs.Text.Search

/-!
Which lines are expressions. A line can fall into two operands with an operator between them in
several ways; it is read in one of them unless, in each, the operator is a single sign that occurs
in the left operand's exponent as well.
-/

namespace RemoteCalc.Expression

/-- A line falls into two operands with an operator between them. -/
structure Reading (line op : Text) (method : Method) (left right : Text) (a b : Float) :
    Prop where
  operator : (op, method) ∈ operators
  line_eq : line = left ++ op ++ right
  left_ne : left ≠ []
  left_read : readOperand? left = some a
  right_read : readOperand? right = some b

/-- The operator is no single sign that occurs in the left operand too, after the first
character. -/
def Leads (op left : Text) : Prop := ∀ c, c = '+' ∨ c = '-' → op = [c] → c ∉ left.tail

/-- The lines that are read without looking for an operator. -/
def keywords : List Text := [['q', 'u', 'i', 't'], ['m', 'e', 'm'], ['r', 'e', 's', 'e', 't']]

/-- The number of bytes of a line's first character. -/
def skip (line : Text) : Nat := (Utf8.encode (line.take 1)).length

/-- The parts of a line around `op`, taken from its bytes at the position that is found after the
bytes of the first character. -/
def slices? (op line : Text) : Option (Bytes × Bytes) :=
  let bytes := Utf8.encode line
  (splitAt? (Utf8.encode op) (bytes.drop (skip line))).map fun (between, _) =>
    let position := skip line + between.length
    (bytes.take position, bytes.drop (position + (Utf8.encode op).length))

variable {line op left right : Text} {method : Method} {a b : Float} {e : Expression}

theorem operator_cases (h : (op, method) ∈ operators) :
    ∃ c ∈ symbols, op = [c] ∨ op = [c, c] := by
  simp only [operators, List.mem_cons, Prod.mk.injEq, List.not_mem_nil, or_false] at h
  rcases h with ⟨rfl, -⟩ | ⟨rfl, -⟩ | ⟨rfl, -⟩ | ⟨rfl, -⟩ | ⟨rfl, -⟩ | ⟨rfl, -⟩ | ⟨rfl, -⟩ <;>
    simp [symbols]

theorem operator_ne_nil (h : (op, method) ∈ operators) : op ≠ [] := by
  obtain ⟨c, -, rfl | rfl⟩ := operator_cases h
  · simp
  · simp

theorem operator_symbols (h : (op, method) ∈ operators) : ∀ c ∈ op, c ∈ symbols := by
  obtain ⟨c, hc, rfl | rfl⟩ := operator_cases h
  · simpa using hc
  · simpa using hc

theorem symbol_ascii : ∀ c ∈ symbols, c.toNat < 128 := by simp [symbols]

theorem splitAfterFirst?_eq_some_iff (hop : op ≠ []) :
    splitAfterFirst? op line = some (left, right) ↔
      left ≠ [] ∧ line = left ++ op ++ right ∧ ¬ op <:+: left.tail ++ op.dropLast := by
  cases line with
  | nil => simp [splitAfterFirst?, hop]
  | cons c t =>
    cases left with
    | nil => simp [splitAfterFirst?]
    | cons b left =>
      simp only [splitAfterFirst?, Option.map_eq_some_iff, Prod.exists, Prod.mk.injEq,
        List.cons.injEq, splitAt?_eq_some_iff hop, List.cons_append, List.tail_cons]
      constructor
      · rintro ⟨l, r, ⟨rfl, hfirst⟩, ⟨rfl, rfl⟩, rfl⟩
        exact ⟨List.cons_ne_nil _ _, ⟨rfl, rfl⟩, hfirst⟩
      · rintro ⟨-, ⟨rfl, rfl⟩, hfirst⟩
        exact ⟨left, right, ⟨rfl, hfirst⟩, ⟨rfl, rfl⟩, rfl⟩

theorem splitAfterFirst?_isSome (hop : op ≠ []) :
    (splitAfterFirst? op line).isSome ↔ op <:+: line.tail := by
  cases line with
  | nil => simp [splitAfterFirst?, hop]
  | cons c t => simp [splitAfterFirst?, splitAt?_isSome hop]

theorem callWith?_eq_some : callWith? op method line = some e ↔
    ∃ left right a b, splitAfterFirst? op line = some (left, right) ∧
      readOperand? left = some a ∧ readOperand? right = some b ∧ e = call method a b := by
  rw [callWith?]
  constructor
  · intro h
    split at h
    · cases h
    · rename_i left right hsplit
      split at h
      · rename_i a b ha hb
        cases h
        exact ⟨left, right, a, b, hsplit, ha, hb, rfl⟩
      · cases h
  · rintro ⟨left, right, a, b, hsplit, ha, hb, rfl⟩
    simp only [hsplit, ha, hb]

/-- What is cut at an operator and can be read is a reading that leads. -/
theorem reading_of_callWith? (hop : (op, method) ∈ operators)
    (h : callWith? op method line = some e) :
    ∃ left right a b, Reading line op method left right a b ∧ Leads op left ∧
      e = call method a b := by
  obtain ⟨left, right, a, b, hsplit, ha, hb, rfl⟩ := callWith?_eq_some.1 h
  obtain ⟨hne, hline, hfirst⟩ := (splitAfterFirst?_eq_some_iff (operator_ne_nil hop)).1 hsplit
  refine ⟨left, right, a, b, ⟨hop, hline, hne, ha, hb⟩, ?_, rfl⟩
  rintro c - rfl hc
  apply hfirst
  simpa [List.singleton_infix_iff] using hc

/-- In a reading that leads the operator is the first one of its kind: behind a sign in the left
operand there is a digit and no other sign. -/
theorem Reading.first (h : Reading line op method left right a b) (hlead : Leads op left)
    (hhead : ∀ c ∈ line.head?, Text.isBlank c = false) :
    splitAfterFirst? op line = some (left, right) := by
  rw [splitAfterFirst?_eq_some_iff (operator_ne_nil h.operator)]
  refine ⟨h.left_ne, h.line_eq, ?_⟩
  obtain ⟨b, t, rfl⟩ := List.exists_cons_of_ne_nil h.left_ne
  obtain ⟨c, hc, rfl | rfl⟩ := operator_cases h.operator
  · intro hoccurs
    have hmem : c ∈ t := by simpa [List.singleton_infix_iff] using hoccurs
    obtain ⟨v, w, rfl⟩ := List.append_of_mem hmem
    have hsign := (operand_symbol h.left_read (l := b :: v) rfl hc).1
    exact hlead c hsign rfl hmem
  · rintro ⟨v, w, heq⟩
    have hsolid : ∀ d ∈ (b :: t).head?, Text.isBlank d = false := by
      intro d hd
      apply hhead
      rw [h.line_eq]
      exact hd
    -- the first of two equal symbols stands in the left operand, so a digit comes next
    have hsplit : t ++ [c] = v ++ c :: c :: w := by
      rw [List.tail_cons] at heq
      simpa using heq.symm
    obtain ⟨l', -, hl'⟩ | ⟨r', ht, hr'⟩ := append_eq_append_cons hsplit
    · have hlength := congrArg List.length hl'
      simp only [List.length_append, List.length_cons, List.length_nil] at hlength
      omega
    · have hleft : b :: t = b :: v ++ c :: r' := by rw [ht, List.cons_append]
      obtain ⟨d, r'', rfl, hdigit⟩ := (operand_symbol h.left_read hleft hc).2 (by simp) hsolid
      cases hr'
      exact Decimal.digit_not_symbol hdigit hc

theorem Reading.callWith? (h : Reading line op method left right a b) (hlead : Leads op left)
    (hhead : ∀ c ∈ line.head?, Text.isBlank c = false) :
    Expression.callWith? op method line = some (call method a b) :=
  callWith?_eq_some.2 ⟨left, right, a, b, h.first hlead hhead, h.left_read, h.right_read, rfl⟩

theorem ofTrimmed_of_not_keyword (h : line ∉ keywords) :
    ofTrimmed line = match operators.findSome? fun (op, method) => callWith? op method line with
      | some e => .ok e
      | none =>
        if operators.any fun (op, _) => (splitAfterFirst? op line).isSome
        then .error (.invalidOperands line)
        else .error (.unrecognized line) := by
  simp only [keywords, List.mem_cons, List.not_mem_nil, or_false, not_or] at h
  exact (if_neg h.1).trans ((if_neg h.2.1).trans (if_neg h.2.2))

/-- Some operator occurs exactly if some symbol does: each symbol is an operator by itself. -/
theorem any_operator (line : Text) :
    (operators.any fun (op, _) => (splitAfterFirst? op line).isSome) =
      line.tail.any (· ∈ symbols) := by
  rw [Bool.eq_iff_iff, List.any_eq_true, List.any_eq_true]
  simp only [decide_eq_true_eq]
  constructor
  · rintro ⟨⟨op, method⟩, hop, hsome⟩
    obtain ⟨c, hc⟩ := List.exists_mem_of_ne_nil op (operator_ne_nil hop)
    have hoccurs := (splitAfterFirst?_isSome (operator_ne_nil hop)).1 hsome
    exact ⟨c, hoccurs.subset hc, operator_symbols hop c hc⟩
  · rintro ⟨c, hmem, hc⟩
    have hsingle : ∀ c ∈ symbols, ∃ method, ([c], method) ∈ operators := by
      simp [symbols, operators]
    obtain ⟨method, hop⟩ := hsingle c hc
    refine ⟨_, hop, (splitAfterFirst?_isSome (List.cons_ne_nil c [])).2 ?_⟩
    rwa [List.singleton_infix_iff]

theorem ofTrimmed_cases (h : line ∉ keywords) :
    (∃ op method e, (op, method) ∈ operators ∧ callWith? op method line = some e ∧
      ofTrimmed line = .ok e) ∨
    (∀ op method, (op, method) ∈ operators → callWith? op method line = none) ∧
      ofTrimmed line = .error
        (if line.tail.any (· ∈ symbols) then .invalidOperands line else .unrecognized line) := by
  rw [ofTrimmed_of_not_keyword h]
  cases hfind : operators.findSome? fun (op, method) => callWith? op method line with
  | some e =>
    obtain ⟨⟨op, method⟩, hop, he⟩ := List.exists_of_findSome?_eq_some hfind
    exact .inl ⟨op, method, e, hop, he, rfl⟩
  | none =>
    refine .inr ⟨fun op method hop => List.findSome?_eq_none_iff.1 hfind _ hop, ?_⟩
    simp only [any_operator]
    split <;> rfl

theorem head_trim (line : Text) : ∀ c ∈ line.trim.head?, Text.isBlank c = false :=
  (Text.trim_eq_iff.1 rfl).first

theorem drop_skip (line : Text) :
    (Utf8.encode line).drop (skip line) = Utf8.encode line.tail := by
  cases line with
  | nil => rfl
  | cons c t =>
    have hcons : Utf8.encode (c :: t) = Utf8.encode [c] ++ Utf8.encode t := Utf8.encode_append [c] t
    rw [skip, hcons]
    exact List.drop_left

/-- The bytes of a line are cut at an operator into the bytes of texts. -/
theorem slices?_eq (hop : (op, method) ∈ operators) (line : Text) : slices? op line =
    (splitAfterFirst? op line).map fun (left, right) => (Utf8.encode left, Utf8.encode right) := by
  have hne := operator_ne_nil hop
  have hascii : ∀ c ∈ op, c.toNat < 128 := fun c hc => symbol_ascii c (operator_symbols hop c hc)
  rw [slices?, drop_skip, Utf8.splitAt?_encode hne hascii, Option.map_map]
  cases line with
  | nil => rfl
  | cons c t =>
    rw [splitAfterFirst?, Option.map_map, List.tail_cons]
    cases hsplit : splitAt? op t with
    | none => rfl
    | some p =>
      obtain ⟨left, right⟩ := p
      obtain ⟨rfl, -⟩ := (splitAt?_eq_some_iff hne).1 hsplit
      have hposition : skip (c :: (left ++ op ++ right)) + (Utf8.encode left).length =
          (Utf8.encode (c :: left)).length := by
        rw [skip, ← List.length_append, ← Utf8.encode_append]
        rfl
      have hbytes : Utf8.encode (c :: (left ++ op ++ right)) =
          Utf8.encode (c :: left) ++ Utf8.encode op ++ Utf8.encode right := by
        rw [← Utf8.encode_append, ← Utf8.encode_append]
        rfl
      simp only [Option.map_some, Function.comp_apply, hposition, hbytes, ← List.length_append,
        List.drop_left]
      rw [List.append_assoc, List.take_left]

/-- A line is read as a call of one of its readings exactly if it has one that leads, and why it is
none otherwise depends on whether there is a symbol in it. Its bytes are cut where its text is. -/
theorem ofLine_readings (h : line.trim ∉ keywords) :
    ((∃ e, ofLine line = .ok e) ↔ ∃ op method left right a b,
      Reading line.trim op method left right a b ∧ Leads op left) ∧
    (∀ e, ofLine line = .ok e → ∃ op method left right a b,
      Reading line.trim op method left right a b ∧ e = call method a b) ∧
    (∀ e, ofLine line = .error e → e = if line.trim.tail.any (· ∈ symbols)
      then .invalidOperands line.trim else .unrecognized line.trim) ∧
    (Utf8.encode line.trim).drop (skip line.trim) = Utf8.encode line.trim.tail ∧
    ∀ op method, (op, method) ∈ operators → slices? op line.trim =
      (splitAfterFirst? op line.trim).map fun (left, right) =>
        (Utf8.encode left, Utf8.encode right) := by
  obtain ⟨op, method, e, hop, he, hok⟩ | ⟨hnone, herror⟩ := ofTrimmed_cases h
  · obtain ⟨left, right, a, b, hreading, hlead, rfl⟩ := reading_of_callWith? hop he
    refine ⟨⟨fun _ => ⟨op, method, left, right, a, b, hreading, hlead⟩, fun _ => ⟨_, hok⟩⟩, ?_, ?_,
      drop_skip line.trim, fun op method hop => slices?_eq hop line.trim⟩
    · intro e he
      rw [ofLine, hok] at he
      cases he
      exact ⟨op, method, left, right, a, b, hreading, rfl⟩
    · intro e he
      rw [ofLine, hok] at he
      cases he
  · refine ⟨⟨?_, ?_⟩, ?_, ?_, drop_skip line.trim, fun op method hop => slices?_eq hop line.trim⟩
    · rintro ⟨e, he⟩
      rw [ofLine, herror] at he
      cases he
    · rintro ⟨op, method, left, right, a, b, hreading, hlead⟩
      have hcall := hreading.callWith? hlead (head_trim line)
      rw [hnone op method hreading.operator] at hcall
      cases hcall
    · intro e he
      rw [ofLine, herror] at he
      cases he
    · intro e he
      rw [ofLine, herror] at he
      cases he
      rfl

theorem ofLine_readings_exponent :
    Text.trim [' ', '1', 'e', '-', '3', '*', '2'] ∉ keywords ∧
      ∃ e, ofLine [' ', '1', 'e', '-', '3', '*', '2'] = .ok e := by
  have hkeyword : Text.trim [' ', '1', 'e', '-', '3', '*', '2'] ∉ keywords := by decide
  obtain ⟨a, ha⟩ := Option.isSome_iff_exists.1
    (show (readOperand? ['1', 'e', '-', '3']).isSome by decide +kernel)
  obtain ⟨b, hb⟩ := Option.isSome_iff_exists.1 (show (readOperand? ['2']).isSome by decide +kernel)
  refine ⟨hkeyword, (ofLine_readings hkeyword).1.2 ⟨['*'], .mul, ['1', 'e', '-', '3'], ['2'], a, b,
    ⟨by simp [operators], by decide, by simp, ha, hb⟩, ?_⟩⟩
  rintro c - hc
  cases hc
  decide

/-- A difference is not read if the minuend's exponent has a minus. -/
theorem ofLine_exponent_difference :
    Text.trim ['1', 'e', '-', '3', '-', '1'] ∉ keywords ∧
    (∃ a b, Reading (Text.trim ['1', 'e', '-', '3', '-', '1']) ['-'] .sub ['1', 'e', '-', '3'] ['1']
      a b) ∧
    ofLine ['1', 'e', '-', '3', '-', '1'] =
      .error (.invalidOperands ['1', 'e', '-', '3', '-', '1']) := by
  obtain ⟨a, ha⟩ := Option.isSome_iff_exists.1
    (show (readOperand? ['1', 'e', '-', '3']).isSome by decide +kernel)
  obtain ⟨b, hb⟩ := Option.isSome_iff_exists.1 (show (readOperand? ['1']).isSome by decide +kernel)
  exact ⟨by decide, ⟨a, b, by simp [operators], by decide, by simp, ha, hb⟩, by rfl⟩

end RemoteCalc.Expression
