import RemoteCalc.Decimal.Integer

/-! Reading of doubles: decimals with an exponent, and the names of infinity and NaN. -/

namespace RemoteCalc.Decimal

/-- The exponent part, which may be missing. -/
def readExponent? : Text → Option Int
  | [] => some 0
  | c :: t =>
    if c = 'e' ∨ c = 'E' then
      let (negative, t) := splitSign t
      (readNat? t).map fun n => if negative then -(n : Int) else n
    else none

/-- Digits with at most one point among them, and an exponent. -/
def read? (t : Text) : Option Decimal :=
  let whole := t.takeWhile Char.isDigit
  let (places, rest) := match t.dropWhile Char.isDigit with
    | '.' :: t => (t.takeWhile Char.isDigit, t.dropWhile Char.isDigit)
    | t => ([], t)
  if whole = [] ∧ places = [] then none
  else (readExponent? rest).map fun e =>
    ⟨Nat.ofDigitChars 10 (whole ++ places) 0, e - places.length⟩

/-- The double nearest to a decimal, or the one that a name stands for in any mix of cases. -/
def readFloat? (t : Text) : Option Float :=
  let (negative, t) := splitSign t
  let name := t.map Char.toLower
  if name = ['n', 'a', 'n'] then some Binary64.nan
  else if name = ['i', 'n', 'f'] ∨ name = ['i', 'n', 'f', 'i', 'n', 'i', 't', 'y'] then
    some (Binary64.ofOrdinal negative Binary64.infinity)
  else (read? t).map fun d => Binary64.ofOrdinal negative d.nearest

end RemoteCalc.Decimal
