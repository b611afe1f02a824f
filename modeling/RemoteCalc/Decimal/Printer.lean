import RemoteCalc.Decimal.Shortest

/-! The texts of a double: shortest, and with a fixed number of places. -/

namespace RemoteCalc.Decimal

/-- A sign before the text of a magnitude; a NaN has none. -/
def signed (x : Float) (magnitude : Nat → Text) : Text :=
  if Binary64.isNaN x then ['N', 'a', 'N']
  else
    let t := if Binary64.isInfinite x then ['i', 'n', 'f'] else magnitude (Binary64.ordinal x)
    if Binary64.isNegative x then '-' :: t else t

/-- The fewest digits that read back as `x`, without an exponent. -/
def display (x : Float) : Text :=
  signed x fun k => if k = 0 then ['0'] else (shortest k).positional

/-- The value rounded to `places` places, a tie going to the even digit. -/
def fixed (places : Nat) (x : Float) : Text :=
  signed x fun k =>
    pointed places
      (numeral (Binary64.roundHalfEven (Binary64.units k * Nat.pow 10 places) Binary64.one))

/-- The text without the zeros that end its places, and without a point that then ends it. -/
def dropEndZeros (t : Text) : Text :=
  if '.' ∈ t then ((t.reverse.dropWhile (· = '0')).dropWhile (· = '.')).reverse else t

end RemoteCalc.Decimal
