import RemoteCalc.Decimal.Printer

/-! The text of a number in a message. -/

namespace RemoteCalc

/-- A number too large for a field, with the width that it would take. -/
structure TooWide where
  width : Nat
deriving DecidableEq, Repr

namespace NumberField

def maxWidth : Nat := 64

/-- The places kept of a number whose exact text is too wide. -/
def fallbackPlaces : Nat := 6

/-- The exact text where it fits, else the text rounded to the fallback places without its final
zeros. -/
def write (x : Float) : Except TooWide Text :=
  let exact := Decimal.display x
  if exact.length ≤ maxWidth then .ok exact
  else
    let rounded := Decimal.dropEndZeros (Decimal.fixed fallbackPlaces x)
    if maxWidth < rounded.length then .error ⟨rounded.length⟩ else .ok rounded

end NumberField

end RemoteCalc
