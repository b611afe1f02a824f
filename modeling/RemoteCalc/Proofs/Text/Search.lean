import Mathlib
import RemoteCalc.Cut
import RemoteCalc.Proofs.Message.Inert

/-! Where `splitAt?` cuts a list, and that a text is cut at the same place as its bytes are. -/

namespace RemoteCalc

section Lists

variable {α : Type} [DecidableEq α] {op t l r : List α} {c : α}

omit [DecidableEq α] in
theorem prefix_append_dropLast (l op r : List α) : l ++ op.dropLast <+: l ++ op ++ r :=
  ((List.prefix_append_right_inj l).2 (List.dropLast_prefix op)).trans (List.prefix_append ..)

omit [DecidableEq α] in
/-- What a list begins with ends before any later occurrence does. -/
theorem occurs_before {u : List α} (hl : l ≠ []) (h : op ++ u = l ++ op ++ r) :
    op <:+: l ++ op.dropLast := by
  have hlater : l ++ op.dropLast <+: op ++ u := h ▸ prefix_append_dropLast ..
  have hlength := List.length_pos_iff.2 hl
  apply List.IsPrefix.isInfix
  apply List.prefix_of_prefix_length_le (List.prefix_append op u) hlater
  rw [List.length_append, List.length_dropLast]
  omega

theorem splitAt?_append_self (hop : op ≠ []) (u : List α) :
    splitAt? op (op ++ u) = some ([], u) := by
  obtain ⟨c, op, rfl⟩ := List.exists_cons_of_ne_nil hop
  have hstarts : (c :: op).isPrefixOf (c :: (op ++ u)) = true :=
    List.isPrefixOf_iff_prefix.2 (List.prefix_append (c :: op) u)
  rw [List.cons_append, splitAt?, if_pos hstarts, ← List.cons_append, List.drop_left]

theorem splitAt?_cons (h : ¬ op <+: c :: t) : splitAt? op (c :: t) =
    (splitAt? op t).map fun (left, right) => (c :: left, right) := by
  rw [splitAt?, if_neg (by rwa [List.isPrefixOf_iff_prefix])]

/-- A list is cut at an occurrence that no earlier one precedes, not even one that overlaps it. -/
theorem splitAt?_eq_some_iff (hop : op ≠ []) :
    splitAt? op t = some (l, r) ↔ t = l ++ op ++ r ∧ ¬ op <:+: l ++ op.dropLast := by
  induction t generalizing l with
  | nil => simp [splitAt?, hop]
  | cons c t ih =>
    by_cases hstarts : op <+: c :: t
    · obtain ⟨u, hu⟩ := hstarts
      rw [← hu, splitAt?_append_self hop]
      constructor
      · intro h
        cases h
        refine ⟨rfl, fun hoccurs => ?_⟩
        have hlength := List.length_pos_iff.2 hop
        have hle := hoccurs.length_le
        rw [List.nil_append, List.length_dropLast] at hle
        omega
      · rintro ⟨heq, hfirst⟩
        have hl : l = [] := by
          by_contra hne
          exact hfirst (occurs_before hne heq)
        subst hl
        rw [List.append_cancel_left heq]
    · rw [splitAt?_cons hstarts, Option.map_eq_some_iff]
      constructor
      · rintro ⟨⟨left, right⟩, hsplit, heq⟩
        cases heq
        obtain ⟨rfl, hfirst⟩ := ih.1 hsplit
        refine ⟨rfl, fun hoccurs => ?_⟩
        obtain hhead | htail := List.infix_cons_iff.1 hoccurs
        · exact hstarts (hhead.trans (prefix_append_dropLast (c :: left) op r))
        · exact hfirst htail
      · rintro ⟨heq, hfirst⟩
        cases l with
        | nil => exact absurd ⟨r, heq.symm⟩ hstarts
        | cons b left =>
          cases heq
          refine ⟨(left, r), ih.2 ⟨rfl, fun hoccurs => hfirst ?_⟩, rfl⟩
          exact List.infix_cons_iff.2 (.inr hoccurs)

theorem splitAt?_isSome (hop : op ≠ []) : (splitAt? op t).isSome ↔ op <:+: t := by
  induction t with
  | nil => simp [splitAt?, hop]
  | cons c t ih =>
    rw [List.infix_cons_iff]
    by_cases hstarts : op <+: c :: t
    · obtain ⟨u, hu⟩ := hstarts
      simp [← hu, splitAt?_append_self hop]
    · rw [splitAt?_cons hstarts, Option.isSome_map, ih, or_iff_right hstarts]

/-- Nothing is found that begins in a part without the first element of what is looked for. -/
theorem splitAt?_append (h : c ∉ l) (t : List α) : splitAt? (c :: op) (l ++ t) =
    (splitAt? (c :: op) t).map fun (before, after) => (l ++ before, after) := by
  induction l with
  | nil => simp
  | cons a l ih =>
    simp only [List.mem_cons, not_or] at h
    have hstarts : ¬ c :: op <+: a :: (l ++ t) := fun hstarts =>
      h.1 (List.cons_prefix_cons.1 hstarts).1
    rw [List.cons_append, splitAt?_cons hstarts, ih h.2, Option.map_map]
    rfl

end Lists

namespace Utf8

variable {c : Char} {op t : Text} {b : UInt8}

theorem encode_cons (c : Char) (t : Text) :
    encode (c :: t) = String.utf8EncodeChar c ++ encode t := List.flatMap_cons

theorem encode_append (t u : Text) : encode (t ++ u) = encode t ++ encode u :=
  List.flatMap_append

/-- No byte of a character that takes more than one is a character by itself. -/
theorem le_of_mem_encodeChar (h : 0x80 ≤ c.toNat) (hb : b ∈ String.utf8EncodeChar c) :
    0x80 ≤ b.toNat := by
  obtain ⟨lead, p, hencode, hlead, -⟩ := exists_lead h
  rw [hencode] at hb
  cases hb with
  | head => exact Nat.le_of_not_lt (le_of_lead? hlead)
  | tail _ hb =>
    generalize p.more + 1 = n at hb
    induction n with
    | zero => cases hb
    | succ n ih =>
      rw [tails] at hb
      cases hb with
      | head =>
        rw [toNat_tail]
        omega
      | tail _ hb => exact ih hb

theorem ascii_not_mem_encodeChar (hc : 0x80 ≤ c.toNat) {d : Char} (hd : d.toNat < 128) :
    UInt8.ofNat d.toNat ∉ String.utf8EncodeChar c := by
  intro hmem
  have hle := le_of_mem_encodeChar hc hmem
  rw [toNat_ofNat_ascii hd] at hle
  omega

/-- Bytes of one-byte characters stand at the head of a text's bytes exactly if the characters
stand at the head of the text. -/
theorem encode_starts (hop : ∀ c ∈ op, c.toNat < 128) (t : Text) :
    encode op <+: encode t ↔ op <+: t := by
  induction op generalizing t with
  | nil => simp [encode]
  | cons c op ih =>
    have hc := hop c (List.mem_cons_self ..)
    cases t with
    | nil =>
      rw [encode_cons_ascii hc]
      simp [encode]
    | cons d t =>
      rw [encode_cons_ascii hc]
      by_cases hd : d.toNat < 128
      · rw [encode_cons_ascii hd, List.cons_prefix_cons, List.cons_prefix_cons,
          ih fun b hb => hop b (List.mem_cons_of_mem c hb), ← UInt8.toNat_inj,
          toNat_ofNat_ascii hc, toNat_ofNat_ascii hd, Char.toNat_inj]
      · have hd := Nat.le_of_not_lt hd
        obtain ⟨lead, p, hencode, -, -⟩ := exists_lead hd
        have hlead := ascii_not_mem_encodeChar hd hc
        rw [encode_cons d, hencode, List.cons_append, List.cons_prefix_cons, List.cons_prefix_cons]
        constructor
        · rintro ⟨rfl, -⟩
          exact absurd (hencode ▸ List.mem_cons_self ..) hlead
        · rintro ⟨rfl, -⟩
          omega

/-- The bytes of a text are cut where the text is: never within a character. -/
theorem splitAt?_encode (hne : op ≠ []) (hop : ∀ c ∈ op, c.toNat < 128) (t : Text) :
    splitAt? (encode op) (encode t) =
      (splitAt? op t).map fun (left, right) => (encode left, encode right) := by
  have hne' : encode op ≠ [] := by
    intro hnil
    apply hne
    rw [← List.prefix_nil, ← encode_starts hop, hnil]
    exact List.nil_prefix
  induction t with
  | nil => rfl
  | cons d t ih =>
    by_cases hstarts : op <+: d :: t
    · obtain ⟨r, hr⟩ := hstarts
      rw [← hr, encode_append, splitAt?_append_self hne, splitAt?_append_self hne']
      rfl
    rw [splitAt?_cons hstarts, Option.map_map]
    by_cases hd : d.toNat < 128
    · rw [← encode_starts hop, encode_cons_ascii hd] at hstarts
      rw [encode_cons_ascii hd, splitAt?_cons hstarts, ih, Option.map_map]
      congr 1
      funext p
      simp only [Function.comp_apply, encode_cons_ascii hd]
    · obtain ⟨c, op, rfl⟩ := List.exists_cons_of_ne_nil hne
      have hc := hop c (List.mem_cons_self ..)
      have hskip := ascii_not_mem_encodeChar (Nat.le_of_not_lt hd) hc
      rw [encode_cons_ascii hc] at ih ⊢
      rw [encode_cons d, splitAt?_append hskip, ih, Option.map_map]
      rfl

end Utf8

end RemoteCalc
