import RemoteCalc.Message.Decode
import RemoteCalc.Message.Encode
import RemoteCalc.Proofs.Decimal.Numeral
import RemoteCalc.Proofs.Text.Utf8

/-!
Texts that a message can carry as they are: none of their characters is a mark, is blank or takes
more than one byte. What a frame puts together from such texts falls apart into them again.
-/

namespace RemoteCalc

namespace Text

/-- A character that is one byte, no mark and not blank. -/
def InertChar (c : Char) : Prop := c.toNat < 128 ∧ c ≠ '#' ∧ c ≠ '$' ∧ isBlank c = false

instance (c : Char) : Decidable (InertChar c) :=
  inferInstanceAs (Decidable (_ ∧ _ ∧ _ ∧ _))

def Inert (t : Text) : Prop := ∀ c ∈ t, InertChar c

instance (t : Text) : Decidable (Inert t) := List.decidableBAll InertChar t

variable {t u : Text}

theorem inertChar_digit {c : Char} (h : c.isDigit) : InertChar c := by
  have hrange := Char.isDigit_iff_toNat.1 h
  have hlo : 48 ≤ c.toNat := hrange.1
  have hhi : c.toNat ≤ 57 := hrange.2
  refine ⟨by omega, ?_, ?_, ?_⟩
  · rintro rfl
    exact absurd h (by decide)
  · rintro rfl
    exact absurd h (by decide)
  · simp only [isBlank, blankRanges, List.any_cons, List.any_nil, Bool.or_false,
      Bool.or_eq_false_iff, Bool.and_eq_false_iff, decide_eq_false_iff_not]
    omega

theorem inert_digits (h : Decimal.Digits t) : Inert t := by
  intro c hc
  exact inertChar_digit (h c hc)

theorem Inert.cons {c : Char} (hc : InertChar c) (ht : Inert t) : Inert (c :: t) := by
  intro b hb
  cases hb with
  | head => exact hc
  | tail _ hb => exact ht b hb

theorem Inert.append (ht : Inert t) (hu : Inert u) : Inert (t ++ u) := by
  intro c hc
  rcases List.mem_append.1 hc with hc | hc
  · exact ht c hc
  · exact hu c hc

theorem inert_printInt32 (i : Int32) : Inert (Decimal.printInt32 i) := by
  have hn := inert_digits (Decimal.digits_numeral i.toInt.natAbs)
  rw [Decimal.printInt32]
  split
  · exact hn.cons (by decide)
  · exact hn

theorem inert_name (m : Method) : Inert m.name := by
  cases m <;> decide

end Text

namespace Utf8

variable {t : Text}

theorem encode_cons_ascii {c : Char} (h : c.toNat < 128) (t : Text) :
    encode (c :: t) = UInt8.ofNat c.toNat :: encode t := by
  have hc : String.utf8EncodeChar c = [UInt8.ofNat c.toNat] := by
    have hle : c.toNat ≤ 127 := Nat.le_of_lt_succ h
    simp [String.utf8EncodeChar, hle]
  rw [encode, List.flatMap_cons, hc]
  rfl

theorem toNat_ofNat_ascii {n : Nat} (h : n < 128) : (UInt8.ofNat n).toNat = n := by
  rw [UInt8.toNat_ofNat', Nat.mod_eq_of_lt (by omega)]

theorem length_encode (h : Text.Inert t) : (encode t).length = t.length := by
  induction t with
  | nil => rfl
  | cons c t ih =>
    have ht := ih fun b hb => h b (List.mem_cons_of_mem c hb)
    rw [encode_cons_ascii (h c (List.mem_cons_self ..)).1, List.length_cons, ht, List.length_cons]

theorem mark_not_mem_encode {m : Char} (hm : m = '#' ∨ m = '$') (h : Text.Inert t) :
    UInt8.ofNat m.toNat ∉ encode t := by
  induction t with
  | nil => exact List.not_mem_nil
  | cons c t ih =>
    have hc := h c (List.mem_cons_self ..)
    have ht := ih fun b hb => h b (List.mem_cons_of_mem c hb)
    rw [encode_cons_ascii hc.1, List.mem_cons, not_or]
    refine ⟨?_, ht⟩
    intro he
    have hlt : m.toNat < 128 := by rcases hm with rfl | rfl <;> decide
    have hn := congrArg UInt8.toNat he
    rw [toNat_ofNat_ascii hlt, toNat_ofNat_ascii hc.1, Char.toNat_inj] at hn
    rcases hm with rfl | rfl
    · exact hc.2.1 hn.symm
    · exact hc.2.2.1 hn.symm

end Utf8

theorem fieldText?_encode {t : Text} (h : t.Inert) : fieldText? (Utf8.encode t) = some t := by
  rw [fieldText?, Utf8.decode?_eq_some.2 rfl, Option.map_some,
    Text.trim_of_not_blank fun c hc => (h c hc).2.2.2]

/-- Fields with a mark between each two of them. -/
def joined : List Text → Bytes
  | [] => []
  | [t] => Utf8.encode t
  | t :: ts => Utf8.encode t ++ fieldMark :: joined ts

theorem frame_eq (ts : List Text) : frame ts = joined ts ++ [endMark] := by
  induction ts with
  | nil => rfl
  | cons t ts ih =>
    cases ts with
    | nil => rfl
    | cons u ts => simp [frame, joined, ih]

variable {ts : List Text}

theorem fields_joined (hne : ts ≠ []) (h : ∀ t ∈ ts, t.Inert) :
    fields (joined ts) = ts.map Utf8.encode := by
  induction ts with
  | nil => exact absurd rfl hne
  | cons t ts ih =>
    have ht : fieldMark ∉ Utf8.encode t :=
      Utf8.mark_not_mem_encode (.inl rfl) (h t (List.mem_cons_self ..))
    cases ts with
    | nil => exact cut_of_not_mem ht
    | cons u ts =>
      have hts := ih (List.cons_ne_nil u ts) fun v hv => h v (List.mem_cons_of_mem t hv)
      rw [fields] at hts ⊢
      rw [joined, cut_append_cons ht, hts, List.map_cons]
      · rfl
      · exact List.cons_ne_nil u ts

theorem endMark_not_mem_joined (h : ∀ t ∈ ts, t.Inert) : endMark ∉ joined ts := by
  induction ts with
  | nil => exact List.not_mem_nil
  | cons t ts ih =>
    have ht : endMark ∉ Utf8.encode t :=
      Utf8.mark_not_mem_encode (.inr rfl) (h t (List.mem_cons_self ..))
    have hts := ih fun v hv => h v (List.mem_cons_of_mem t hv)
    cases ts with
    | nil => exact ht
    | cons u ts =>
      simp only [joined, List.mem_append, List.mem_cons, not_or]
      exact ⟨ht, by decide, hts⟩

/-- A body takes the bytes of its fields and one for each mark between them. -/
theorem length_joined (hne : ts ≠ []) (h : ∀ t ∈ ts, t.Inert) :
    (joined ts).length + 1 = (ts.map fun t => t.length + 1).sum := by
  induction ts with
  | nil => exact absurd rfl hne
  | cons t ts ih =>
    have ht := Utf8.length_encode (h t (List.mem_cons_self ..))
    cases ts with
    | nil => simp [joined, ht]
    | cons u ts =>
      have hts := ih (List.cons_ne_nil u ts) fun v hv => h v (List.mem_cons_of_mem t hv)
      simp only [joined, List.length_append, List.length_cons, ht, List.map_cons, List.sum_cons]
        at hts ⊢
      omega

theorem body?_frame {body : Bytes} (h : endMark ∉ body) :
    body? (body ++ [endMark]) = some body := by
  simp [body?, h]

end RemoteCalc
