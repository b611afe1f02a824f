import RemoteCalc.Expression
import RemoteCalc.Proofs.Message.Fields

/-!
Where the symbols of operators stand in the text of an operand: a sign in front, and a sign in the
exponent with nothing but digits behind it.
-/

namespace RemoteCalc

section Lists

variable {α : Type} {p q l r : List α} {c : α}

theorem append_eq_append_cons (h : p ++ q = l ++ c :: r) :
    (∃ l', l = p ++ l' ∧ q = l' ++ c :: r) ∨ ∃ r', p = l ++ c :: r' ∧ r = r' ++ q := by
  obtain ⟨l', hl, hq⟩ | ⟨r', hp, hr⟩ := List.append_eq_append_iff.1 h
  · exact .inl ⟨l', hl, hq⟩
  · cases r' with
    | nil => exact .inl ⟨[], by simp [hp], hr.symm⟩
    | cons d r' =>
      cases hr
      exact .inr ⟨r', hp, rfl⟩

/-- What stands behind the first part of a list stands in the second. -/
theorem append_eq_of_not_mem_left (h : p ++ q = l ++ c :: r) (hc : c ∉ p) :
    ∃ l', l = p ++ l' ∧ q = l' ++ c :: r := by
  obtain hq | ⟨r', rfl, -⟩ := append_eq_append_cons h
  · exact hq
  · simp at hc

theorem append_eq_of_not_mem_right (h : p ++ q = l ++ c :: r) (hc : c ∉ q) :
    ∃ r', p = l ++ c :: r' ∧ r = r' ++ q := by
  obtain ⟨l', -, rfl⟩ | hp := append_eq_append_cons h
  · simp at hc
  · exact hp

end Lists

namespace Expression

/-- The characters that operators are made of. -/
def symbols : Text := ['+', '-', '*', '/']

theorem symbol_not_blank : ∀ c ∈ symbols, Text.isBlank c = false :=
  List.forall_iff_forall_mem.1 (by decide)

end Expression

namespace Decimal

open Expression (symbols)

/-- A sign, characters that are no symbols, and perhaps the sign of an exponent with its digits. -/
structure SignParts (t sign body tail : Text) : Prop where
  eq : t = sign ++ body ++ tail
  sign_cases : ∃ negative, Sign sign negative
  body_ne : body ≠ []
  body_plain : ∀ c ∈ body, c ∉ symbols
  tail_cases : tail = [] ∨ ∃ c ds, (c = '+' ∨ c = '-') ∧ ds ≠ [] ∧ Digits ds ∧ tail = c :: ds

variable {t s m l r w : Text} {negative : Bool} {x : Float} {d : Decimal} {e : Int} {c : Char}

theorem digit_not_symbol (h : c.isDigit = true) : c ∉ symbols := by
  intro hc
  have hsymbols : ∀ c ∈ symbols, c.isDigit = false := by simp [symbols]
  rw [hsymbols c hc] at h
  cases h

theorem Digits.not_symbol (h : Digits t) : ∀ c ∈ t, c ∉ symbols :=
  fun c hc => digit_not_symbol (h c hc)

theorem Mantissa.ne_nil (h : Mantissa m d) : m ≠ [] := by
  cases h with
  | whole hne => exact hne
  | point => simp

theorem Mantissa.not_symbol (h : Mantissa m d) : ∀ c ∈ m, c ∉ symbols := by
  intro c hc
  cases h with
  | whole _ hw => exact hw.not_symbol c hc
  | point hw hp =>
    rw [List.mem_append, List.mem_cons] at hc
    obtain hc | rfl | hc := hc
    · exact hw.not_symbol c hc
    · decide
    · exact hp.not_symbol c hc

theorem SignParts.of_plain (hs : Sign s negative) (hne : m ≠ []) (hm : ∀ c ∈ m, c ∉ symbols) :
    SignParts (s ++ m) s m [] :=
  ⟨(List.append_nil _).symm, ⟨_, hs⟩, hne, hm, .inl rfl⟩

/-- The exponent goes with the mantissa up to its sign. -/
theorem exists_signParts_exponent (hs : Sign s negative) (hm : Mantissa m d) (hw : Whole t e)
    (hc : c ∉ symbols) : ∃ body tail, SignParts (s ++ (m ++ c :: t)) s body tail := by
  have hbody : ∀ b ∈ m ++ [c], b ∉ symbols := by
    intro b hb
    rw [List.mem_append, List.mem_singleton] at hb
    obtain hb | rfl := hb
    · exact hm.not_symbol b hb
    · exact hc
  have hne : m ++ [c] ≠ [] := by simp
  cases hw with
  | @mk sign ds _ hsign hds hdigits =>
    have signed {b : Char} (hb : b = '+' ∨ b = '-') :
        SignParts (s ++ (m ++ c :: ([b] ++ ds))) s (m ++ [c]) (b :: ds) :=
      ⟨by simp, ⟨_, hs⟩, hne, hbody, .inr ⟨b, ds, hb, hds, hdigits, rfl⟩⟩
    cases hsign with
    | absent =>
      refine ⟨m ++ [c] ++ ds, [], by simp, ⟨_, hs⟩, by simp, ?_, .inl rfl⟩
      intro b hb
      obtain hb | hb := List.mem_append.1 hb
      · exact hbody b hb
      · exact hdigits.not_symbol b hb
    | plus => exact ⟨_, _, signed (.inl rfl)⟩
    | minus => exact ⟨_, _, signed (.inr rfl)⟩

theorem not_symbol_of_name {name : Text} (hname : ∀ c ∈ name, c ∉ symbols)
    (h : t.map Char.toLower = name) : ∀ c ∈ t, c ∉ symbols := by
  intro c hc hsymbol
  have hlower : ∀ c ∈ symbols, c.toLower = c := by simp [symbols]
  apply hname c _ hsymbol
  rw [← h, ← hlower c hsymbol]
  exact List.mem_map_of_mem hc

theorem FloatText.exists_signParts (h : FloatText t x) : ∃ s m k, SignParts t s m k := by
  have named {s u : Text} {negative : Bool} {c : Char} {name : Text} (hs : Sign s negative)
      (hname : ∀ b ∈ c :: name, b ∉ symbols) (hu : u.map Char.toLower = c :: name) :
      ∃ s' m k, SignParts (s ++ u) s' m k := by
    refine ⟨s, u, [], .of_plain hs ?_ (not_symbol_of_name hname hu)⟩
    rintro rfl
    cases hu
  cases h with
  | nan hs hname => exact named hs (by simp [symbols]) hname
  | inf hs hname => exact named hs (by simp [symbols]) hname
  | infinity hs hname => exact named hs (by simp [symbols]) hname
  | @number s u negative d hs hnumber =>
    refine ⟨s, ?_⟩
    cases hnumber with
    | mk hm hexponent =>
      cases hexponent with
      | absent =>
        rw [List.append_nil]
        exact ⟨_, _, .of_plain hs hm.ne_nil hm.not_symbol⟩
      | lower hw => exact exists_signParts_exponent hs hm hw (by decide)
      | upper hw => exact exists_signParts_exponent hs hm hw (by decide)

theorem FloatText.ne_nil (h : FloatText t x) : t ≠ [] := by
  obtain ⟨s, m, k, hparts⟩ := h.exists_signParts
  rw [hparts.eq]
  simp [hparts.body_ne]

theorem SignParts.sign_length (h : SignParts t s m w) : s.length ≤ 1 := by
  obtain ⟨negative, hs⟩ := h.sign_cases
  cases hs <;> decide

/-- Every symbol in the text of a double is a sign, and one that does not stand in front has nothing
but digits behind it. -/
theorem FloatText.symbol (h : FloatText t x) (heq : t = l ++ c :: r) (hc : c ∈ symbols) :
    (c = '+' ∨ c = '-') ∧ (l ≠ [] → r ≠ [] ∧ Digits r) := by
  obtain ⟨s, m, k, hparts⟩ := h.exists_signParts
  obtain ⟨negative, hs⟩ := hparts.sign_cases
  have hsplit : s ++ (m ++ k) = l ++ c :: r := by rw [← List.append_assoc, ← hparts.eq, heq]
  obtain ⟨l', hl, hmk⟩ | ⟨r', hsign, -⟩ := append_eq_append_cons hsplit
  · -- the symbol is the sign of the exponent
    have hm : c ∉ m := fun hmem => hparts.body_plain c hmem hc
    obtain ⟨l'', -, hk⟩ := append_eq_of_not_mem_left hmk hm
    obtain rfl | ⟨b, ds, hb, hne, hdigits, rfl⟩ := hparts.tail_cases
    · simp at hk
    · cases l'' with
      | nil =>
        cases hk
        exact ⟨hb, fun _ => ⟨hne, hdigits⟩⟩
      | cons _ l'' =>
        have hds : ds = l'' ++ c :: r := (List.cons.inj hk).2
        exact absurd hc (hdigits.not_symbol c (hds ▸ by simp))
  · have hlength := hparts.sign_length
    rw [hsign, List.length_append, List.length_cons] at hlength
    have hl : l = [] := List.length_eq_zero_iff.1 (by omega)
    subst hl
    refine ⟨?_, fun hne => absurd rfl hne⟩
    cases hs with
    | absent => cases hsign
    | plus =>
      cases hsign
      exact .inl rfl
    | minus =>
      cases hsign
      exact .inr rfl

end Decimal

namespace Expression

open Decimal

variable {t l r : Text} {a : Float} {c : Char}

theorem readOperand?_eq_some :
    readOperand? t = some a ↔ ∃ u, t.Trimmed u ∧ FloatText u a := by
  rw [readOperand?, readFloat?_eq_some]
  constructor
  · intro h
    exact ⟨t.trim, Text.trim_eq_iff.1 rfl, h⟩
  · rintro ⟨u, hu, h⟩
    rwa [Text.trim_eq_iff.2 hu]

/-- Neither a star nor a slash stands in an operand, and behind a sign that does not stand in front
there is a digit. -/
theorem operand_symbol (h : readOperand? t = some a) (heq : t = l ++ c :: r) (hc : c ∈ symbols) :
    (c = '+' ∨ c = '-') ∧
      (l ≠ [] → (∀ b ∈ t.head?, Text.isBlank b = false) → ∃ d r', r = d :: r' ∧ d.isDigit) := by
  obtain ⟨u, ⟨⟨before, after, hpadded, hbefore, hafter⟩, -, -⟩, hu⟩ := readOperand?_eq_some.1 h
  have hblank := symbol_not_blank c hc
  have hstart : c ∉ before := fun hmem => by
    rw [hbefore c hmem] at hblank
    cases hblank
  have hend : c ∉ after := fun hmem => by
    rw [hafter c hmem] at hblank
    cases hblank
  have hsplit : before ++ (u ++ after) = l ++ c :: r := by
    rw [← List.append_assoc, ← hpadded, heq]
  obtain ⟨l', hl, hsplit⟩ := append_eq_of_not_mem_left hsplit hstart
  obtain ⟨r', hu', hr⟩ := append_eq_of_not_mem_right hsplit hend
  obtain ⟨hsign, hdigits⟩ := hu.symbol hu' hc
  refine ⟨hsign, fun hne hhead => ?_⟩
  have hbefore' : before = [] := by
    cases before with
    | nil => rfl
    | cons b before =>
      have hb := hbefore b (List.mem_cons_self ..)
      rw [hpadded] at hhead
      rw [hhead b rfl] at hb
      cases hb
  rw [hbefore', List.nil_append] at hl
  obtain ⟨hr', hdigits⟩ := hdigits (hl ▸ hne)
  obtain ⟨d, r', rfl⟩ := List.exists_cons_of_ne_nil hr'
  exact ⟨d, r' ++ after, hr, hdigits d (List.mem_cons_self ..)⟩

end Expression

end RemoteCalc
