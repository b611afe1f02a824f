import Mathlib
import RemoteCalc.Text.Utf8

/-!
Reading UTF-8 is the inverse of writing it: bytes are read as a text exactly if they are what is
written of it. A character of two or more bytes is a lead byte and tails of six bits each.
-/

namespace RemoteCalc.Utf8

/-- The last `n` tail bytes of a code point. -/
def tails : Nat → Nat → Bytes
  | 0, _ => []
  | n + 1, v => UInt8.ofNat (v / 64 ^ n % 64 + 128) :: tails n v

/-- A code point that a character in progress can still become. -/
structure Pending.Admits (p : Pending) (v : Nat) : Prop where
  code_eq : v / 64 ^ (p.more + 1) = p.code
  low_le : p.low ≤ v / 64 ^ p.more % 64 + 128
  le_high : v / 64 ^ p.more % 64 + 128 ≤ p.high

/-- The next byte is a tail. -/
structure Pending.Tailed (p : Pending) : Prop where
  low_le : 0x80 ≤ p.low
  le_high : p.high ≤ 0xBF

variable {p : Pending} {b : UInt8} {bs : Bytes} {t : Text} {c : Char} {v : Nat}

theorem toNat_tail (n v : Nat) :
    (UInt8.ofNat (v / 64 ^ n % 64 + 128)).toNat = v / 64 ^ n % 64 + 128 := by
  rw [UInt8.toNat_ofNat']
  omega

theorem eq_tail {n : Nat} (hlo : 0x80 ≤ b.toNat) (hhi : b.toNat ≤ 0xBF)
    (h : v / 64 ^ n % 64 = b.toNat % 64) : b = UInt8.ofNat (v / 64 ^ n % 64 + 128) := by
  rw [← UInt8.toNat_inj, toNat_tail]
  omega

theorem div_pow_succ (v n : Nat) : v / 64 ^ (n + 1) = v / 64 ^ n / 64 := by
  rw [Nat.pow_succ, Nat.div_div_eq_div_mul]

/-- The tails of a code point complete every character in progress that admits it. -/
theorem decodeFrom_tails (hv : p.Admits v) (rest : Bytes) :
    decodeFrom (some p) (tails (p.more + 1) v ++ rest) =
      (decodeFrom none rest).map (Char.ofNat v :: ·) := by
  obtain ⟨more, low, high, code⟩ := p
  obtain ⟨hcode, hlow, hhigh⟩ := hv
  -- each tail moves six bits of the code point to those read so far
  induction more generalizing low high code with
  | zero =>
    simp only [Nat.zero_add, Nat.pow_one, Nat.pow_zero, Nat.div_one] at hcode hlow hhigh
    have htail := toNat_tail 0 v
    have hv : code * 64 + (v % 64 + 128) % 64 = v := by omega
    simp only [Nat.pow_zero, Nat.div_one] at htail
    simp only [tails, Nat.pow_zero, Nat.div_one, List.cons_append, List.nil_append, decodeFrom,
      htail, hv]
    rw [if_pos ⟨hlow, hhigh⟩]
  | succ more ih =>
    simp only at hcode hlow hhigh ih
    rw [div_pow_succ] at hcode
    have hnext : code * 64 + (v / 64 ^ (more + 1) % 64 + 128) % 64 = v / 64 ^ (more + 1) := by
      omega
    rw [tails, List.cons_append, decodeFrom, toNat_tail, if_pos ⟨hlow, hhigh⟩]
    simp only [hnext]
    exact ih _ _ _ rfl (by omega) (by omega)

/-- Whatever completes a character in progress begins with the tails of a code point that it
admits. -/
theorem tails_of_decodeFrom (hp : p.Tailed) (h : decodeFrom (some p) bs = some t) :
    ∃ v rest u, p.Admits v ∧ bs = tails (p.more + 1) v ++ rest ∧
      decodeFrom none rest = some u ∧ t = Char.ofNat v :: u := by
  obtain ⟨more, low, high, code⟩ := p
  obtain ⟨hlow, hhigh⟩ := hp
  simp only at hlow hhigh
  induction more generalizing low high code bs with
  | zero =>
    cases bs with
    | nil => cases h
    | cons b bs =>
      rw [decodeFrom] at h
      split at h
      · rename_i hb
        simp only at hb
        obtain ⟨u, hu, rfl⟩ := Option.map_eq_some_iff.1 h
        refine ⟨code * 64 + b.toNat % 64, bs, u, ⟨?_, ?_, ?_⟩, ?_, hu, rfl⟩
        · simp only [Nat.zero_add, Nat.pow_one]
          omega
        · simp only [Nat.pow_zero, Nat.div_one]
          omega
        · simp only [Nat.pow_zero, Nat.div_one]
          omega
        · have htail : b = UInt8.ofNat ((code * 64 + b.toNat % 64) / 64 ^ 0 % 64 + 128) := by
            apply eq_tail (by omega) (by omega)
            rw [Nat.pow_zero, Nat.div_one]
            omega
          rw [tails, ← htail]
          rfl
      · cases h
  | succ more ih =>
    cases bs with
    | nil => cases h
    | cons b bs =>
      rw [decodeFrom] at h
      split at h
      · rename_i hb
        simp only at hb h
        obtain ⟨v, rest, u, ⟨hcode, -, -⟩, hbs, hu, ht⟩ := ih _ _ _ h (by decide) (by decide)
        simp only at hcode hbs
        refine ⟨v, rest, u, ⟨?_, ?_, ?_⟩, ?_, hu, ht⟩
        · simp only
          rw [div_pow_succ]
          omega
        · simp only
          omega
        · simp only
          omega
        · have htail : b = UInt8.ofNat (v / 64 ^ (more + 1) % 64 + 128) :=
            eq_tail (by omega) (by omega) (by omega)
          rw [tails, ← htail, List.cons_append, ← hbs]
      · cases h

theorem lead?_two (hlo : 0x80 ≤ v) (hhi : v ≤ 0x7FF) :
    ∃ p, lead? (v / 64 % 32 + 192) = some p ∧ p.more = 0 ∧ p.Admits v := by
  refine ⟨⟨0, 0x80, 0xBF, v / 64⟩, ?_, rfl, ?_⟩
  · rw [lead?, if_pos (by omega)]
    simp only [Option.some.injEq, Pending.mk.injEq, true_and]
    omega
  · constructor
    · rw [Nat.zero_add, Nat.pow_one]
    · simp only [Nat.pow_zero, Nat.div_one]
      omega
    · simp only [Nat.pow_zero, Nat.div_one]
      omega

theorem lead?_three (hlo : 0x800 ≤ v) (hhi : v ≤ 0xFFFF) (hvalid : v.isValidChar) :
    ∃ p, lead? (v / 4096 % 16 + 224) = some p ∧ p.more = 1 ∧ p.Admits v := by
  unfold Nat.isValidChar at hvalid
  rw [lead?]
  split_ifs
  all_goals first
    | omega
    | refine ⟨_, rfl, rfl, ?_, ?_, ?_⟩ <;> simp only [Nat.reduceAdd, Nat.reducePow] <;> omega

theorem lead?_four (hlo : 0x10000 ≤ v) (hvalid : v.isValidChar) :
    ∃ p, lead? (v / 262144 % 8 + 240) = some p ∧ p.more = 2 ∧ p.Admits v := by
  unfold Nat.isValidChar at hvalid
  rw [lead?]
  split_ifs
  all_goals first
    | omega
    | refine ⟨_, rfl, rfl, ?_, ?_, ?_⟩ <;> simp only [Nat.reduceAdd, Nat.reducePow] <;> omega

/-- A lead byte asks for what the code points that begin with it have in common. -/
theorem valid_of_lead? (h : lead? b.toNat = some p) (hv : p.Admits v) :
    v.isValidChar ∧ (p.more = 0 ∧ 0x80 ≤ v ∧ v ≤ 0x7FF ∧ v / 64 % 32 + 192 = b.toNat ∨
      p.more = 1 ∧ 0x800 ≤ v ∧ v ≤ 0xFFFF ∧ v / 4096 % 16 + 224 = b.toNat ∨
      p.more = 2 ∧ 0x10000 ≤ v ∧ v / 262144 % 8 + 240 = b.toNat) := by
  rw [lead?] at h
  obtain ⟨hcode, hlow, hhigh⟩ := hv
  unfold Nat.isValidChar
  split_ifs at h
  -- the bounds of the second byte keep out overlong forms, surrogates and what is above U+10FFFF
  all_goals
    cases h
    simp only [Nat.reduceAdd, Nat.reducePow] at hcode hlow hhigh
    simp only [true_and]
    omega

theorem tailed_of_lead? (h : lead? b.toNat = some p) : p.Tailed := by
  rw [lead?] at h
  split_ifs at h
  all_goals
    cases h
    exact ⟨by simp, by simp⟩

theorem le_of_lead? (h : lead? b.toNat = some p) : ¬ b.toNat < 0x80 := by
  intro hb
  rw [lead?] at h
  split_ifs at h
  all_goals omega

theorem toNat_ofNat (h : v.isValidChar) : (Char.ofNat v).toNat = v := by
  rw [Char.ofNat, dif_pos h]
  rfl

/-- A character of more than one byte is its lead byte and the tails that this asks for. -/
theorem exists_lead (h : 0x80 ≤ c.toNat) :
    ∃ b p, String.utf8EncodeChar c = b :: tails (p.more + 1) c.toNat ∧
      lead? b.toNat = some p ∧ p.Admits c.toNat := by
  have hvalid : c.toNat.isValidChar := c.valid
  rw [String.utf8EncodeChar.eq_1, Char.toNat_val, if_neg (by omega)]
  split_ifs with htwo hthree
  · obtain ⟨p, hlead, hmore, hadmits⟩ := lead?_two h htwo
    refine ⟨UInt8.ofNat (c.toNat / 64 % 32 + 192), p, ?_, ?_, hadmits⟩
    · rw [hmore]
      simp [tails]
    · rw [UInt8.toNat_ofNat', Nat.mod_eq_of_lt (by omega), hlead]
  · obtain ⟨p, hlead, hmore, hadmits⟩ := lead?_three (by omega) hthree hvalid
    refine ⟨UInt8.ofNat (c.toNat / 4096 % 16 + 224), p, ?_, ?_, hadmits⟩
    · rw [hmore]
      simp [tails]
    · rw [UInt8.toNat_ofNat', Nat.mod_eq_of_lt (by omega), hlead]
  · obtain ⟨p, hlead, hmore, hadmits⟩ := lead?_four (by omega) hvalid
    refine ⟨UInt8.ofNat (c.toNat / 262144 % 8 + 240), p, ?_, ?_, hadmits⟩
    · rw [hmore]
      simp [tails]
    · rw [UInt8.toNat_ofNat', Nat.mod_eq_of_lt (by omega), hlead]

/-- And so is every lead byte with the tails of a code point that it admits. -/
theorem encodeChar_of_lead? (h : lead? b.toNat = some p) (hv : p.Admits v) :
    String.utf8EncodeChar (Char.ofNat v) = b :: tails (p.more + 1) v := by
  obtain ⟨hvalid, hranges⟩ := valid_of_lead? h hv
  rw [String.utf8EncodeChar.eq_1, Char.toNat_val, toNat_ofNat hvalid]
  rcases hranges with ⟨hmore, hlo, hhi, hb⟩ | ⟨hmore, hlo, hhi, hb⟩ | ⟨hmore, hlo, hb⟩
  · rw [if_neg (by omega), if_pos hhi, hb, hmore, UInt8.ofNat_toNat]
    simp [tails]
  · rw [if_neg (by omega), if_neg (by omega), if_pos hhi, hb, hmore, UInt8.ofNat_toNat]
    simp [tails]
  · rw [if_neg (by omega), if_neg (by omega), if_neg (by omega), hb, hmore, UInt8.ofNat_toNat]
    simp [tails]

theorem decodeFrom_encodeChar (c : Char) (rest : Bytes) :
    decodeFrom none (String.utf8EncodeChar c ++ rest) = (decodeFrom none rest).map (c :: ·) := by
  by_cases h : c.toNat < 0x80
  · have hc : (UInt8.ofNat c.toNat).toNat = c.toNat := by
      rw [UInt8.toNat_ofNat', Nat.mod_eq_of_lt (by omega)]
    rw [String.utf8EncodeChar.eq_1, Char.toNat_val, if_pos (by omega), List.singleton_append,
      decodeFrom, hc, if_pos h, Char.ofNat_toNat]
  · obtain ⟨b, p, hencode, hlead, hadmits⟩ := exists_lead (Nat.le_of_not_lt h)
    rw [hencode, List.cons_append, decodeFrom, if_neg (le_of_lead? hlead)]
    simp only [hlead]
    rw [decodeFrom_tails hadmits, Char.ofNat_toNat]

/-- Bytes that are read begin with those of the first character. -/
theorem encodeChar_of_decodeFrom (h : decodeFrom none (b :: bs) = some t) :
    ∃ c rest u, t = c :: u ∧ b :: bs = String.utf8EncodeChar c ++ rest ∧
      decodeFrom none rest = some u := by
  rw [decodeFrom] at h
  split at h
  · rename_i hb
    obtain ⟨u, hu, rfl⟩ := Option.map_eq_some_iff.1 h
    have hvalid : b.toNat.isValidChar := .inl (by omega)
    refine ⟨Char.ofNat b.toNat, bs, u, rfl, ?_, hu⟩
    rw [String.utf8EncodeChar.eq_1, Char.toNat_val, toNat_ofNat hvalid, if_pos (by omega),
      UInt8.ofNat_toNat, List.singleton_append]
  · split at h
    · cases h
    · rename_i p hlead
      obtain ⟨v, rest, u, hadmits, hbs, hu, ht⟩ := tails_of_decodeFrom (tailed_of_lead? hlead) h
      refine ⟨Char.ofNat v, rest, u, ht, ?_, hu⟩
      rw [encodeChar_of_lead? hlead hadmits, hbs, List.cons_append]

/-- What is read is what is written of the text, and nothing else. -/
theorem decode?_eq_some : decode? bs = some t ↔ encode t = bs := by
  rw [decode?]
  induction t generalizing bs with
  | nil =>
    constructor
    · intro h
      cases bs with
      | nil => rfl
      | cons b bs =>
        obtain ⟨c, rest, u, hnil, -, -⟩ := encodeChar_of_decodeFrom h
        cases hnil
    · intro h
      rw [← h]
      rfl
  | cons c t ih =>
    have hencode : encode (c :: t) = String.utf8EncodeChar c ++ encode t := List.flatMap_cons
    rw [hencode]
    constructor
    · intro h
      cases bs with
      | nil => cases h
      | cons b bs =>
        obtain ⟨c', rest, u, hcons, hbs, hrest⟩ := encodeChar_of_decodeFrom h
        cases hcons
        rw [hbs, ih.1 hrest]
    · intro h
      rw [← h, decodeFrom_encodeChar, ih.2 rfl, Option.map_some]

end RemoteCalc.Utf8
