import RemoteCalc.Bytes
import RemoteCalc.Text.Blank

/-! UTF-8: reading refuses overlong forms, surrogates and code points above U+10FFFF. -/

namespace RemoteCalc.Utf8

/-- A character in progress: its next tail byte lies in `low` to `high`, `more` tails follow that
one, and `code` holds the bits read so far. -/
structure Pending where
  more : Nat
  low : Nat
  high : Nat
  code : Nat

/-- What the first byte of a character of two or more bytes asks for. -/
def lead? (b : Nat) : Option Pending :=
  if 0xC2 ≤ b ∧ b ≤ 0xDF then some ⟨0, 0x80, 0xBF, b - 0xC0⟩
  else if b = 0xE0 then some ⟨1, 0xA0, 0xBF, 0⟩
  else if 0xE1 ≤ b ∧ b ≤ 0xEC then some ⟨1, 0x80, 0xBF, b - 0xE0⟩
  else if b = 0xED then some ⟨1, 0x80, 0x9F, 0xD⟩
  else if 0xEE ≤ b ∧ b ≤ 0xEF then some ⟨1, 0x80, 0xBF, b - 0xE0⟩
  else if b = 0xF0 then some ⟨2, 0x90, 0xBF, 0⟩
  else if 0xF1 ≤ b ∧ b ≤ 0xF3 then some ⟨2, 0x80, 0xBF, b - 0xF0⟩
  else if b = 0xF4 then some ⟨2, 0x80, 0x8F, 4⟩
  else none

/-- Reads on from a character in progress, if there is one. -/
def decodeFrom : Option Pending → Bytes → Option Text
  | none, [] => some []
  | some _, [] => none
  | none, b :: bs =>
    if b.toNat < 0x80 then (decodeFrom none bs).map (Char.ofNat b.toNat :: ·)
    else match lead? b.toNat with
      | none => none
      | some p => decodeFrom (some p) bs
  | some p, b :: bs =>
    if p.low ≤ b.toNat ∧ b.toNat ≤ p.high then
      let code := p.code * 64 + b.toNat % 64
      match p.more with
      | 0 => (decodeFrom none bs).map (Char.ofNat code :: ·)
      | more + 1 => decodeFrom (some ⟨more, 0x80, 0xBF, code⟩) bs
    else none

def decode? (bs : Bytes) : Option Text := decodeFrom none bs

def encode (t : Text) : Bytes := t.flatMap String.utf8EncodeChar

def ofString (s : String) : Bytes := encode s.toList

end RemoteCalc.Utf8
