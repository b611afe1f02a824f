import RemoteCalc.Cut
import RemoteCalc.Inet.Numeral

/-!
IPv4 addresses. A text has one to four parts: all but the last stand for a byte each, and the last
for the bytes that remain. The strict form has four decimal bytes without a zero in front.
-/

namespace RemoteCalc

structure Ipv4 where
  bits : UInt32
deriving DecidableEq, Repr

namespace Ipv4

/-- A part is hexadecimal after `0x`, octal after a zero, and else decimal. -/
def readPart? : Text → Option Nat
  | '0' :: 'x' :: t | '0' :: 'X' :: t => Numeral.read? 16 t
  | '0' :: t => Numeral.read? 8 ('0' :: t)
  | t => Numeral.read? 10 t

/-- The value of parts that fill `room` bytes. -/
def ofParts? : Nat → List Nat → Option Nat
  | room + 1, [last] => if last < 1 <<< (8 * (room + 1)) then some last else none
  | room + 1, part :: parts =>
    if part < 256 then (ofParts? room parts).map (part <<< (8 * room) + ·) else none
  | _, _ => none

def read? (t : Text) : Option Ipv4 :=
  (((cut '.' t).mapM readPart?).bind (ofParts? 4)).map fun n => ⟨UInt32.ofNat n⟩

/-- A decimal number of at most three digits, without a zero in front. -/
def readByte? (t : Text) : Option Nat :=
  if t.length ≤ 3 ∧ (t.length = 1 ∨ t.head? ≠ some '0') then Numeral.read? 10 t else none

def readStrict? (t : Text) : Option Ipv4 :=
  match (cut '.' t).mapM readByte? with
  | some [a, b, c, d] => (ofParts? 4 [a, b, c, d]).map fun n => ⟨UInt32.ofNat n⟩
  | _ => none

def loopback : Ipv4 := ⟨0x7F000001⟩

/-- Byte `i` from the right. -/
def byte (a : Ipv4) (i : Nat) : Nat := a.bits.toNat >>> (8 * i) % 256

def text (a : Ipv4) : String :=
  ".".intercalate ([3, 2, 1, 0].map fun i => toString (a.byte i))

end Ipv4

end RemoteCalc
