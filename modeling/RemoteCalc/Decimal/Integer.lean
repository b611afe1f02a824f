import RemoteCalc.Decimal.Basic

/-! Signed whole numbers of 32 bits. -/

namespace RemoteCalc.Decimal

/-- A sign, if there is one, and what follows it. -/
def splitSign : Text → Bool × Text
  | '+' :: t => (false, t)
  | '-' :: t => (true, t)
  | t => (false, t)

/-- The number written by one or more digits and nothing else. -/
def readNat? (t : Text) : Option Nat :=
  if t ≠ [] ∧ t.all Char.isDigit then some (Nat.ofDigitChars 10 t 0) else none

/-- The number written by a sign, which may be missing, and digits; it must have 32 bits. -/
def readInt32? (t : Text) : Option Int32 :=
  let (negative, t) := splitSign t
  match readNat? t with
  | none => none
  | some n =>
    let i : Int := if negative then -n else n
    if Int32.minValue.toInt ≤ i ∧ i ≤ Int32.maxValue.toInt then some (Int32.ofInt i) else none

def printInt32 (i : Int32) : Text :=
  if i.toInt < 0 then '-' :: numeral i.toInt.natAbs else numeral i.toInt.natAbs

end RemoteCalc.Decimal
