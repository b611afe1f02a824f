import RemoteCalc.Text.Blank

/-! Whole numbers written in bases up to sixteen. -/

namespace RemoteCalc.Numeral

def digit? (c : Char) : Option Nat :=
  if '0' ≤ c ∧ c ≤ '9' then some (c.toNat - '0'.toNat)
  else if 'a' ≤ c ∧ c ≤ 'f' then some (c.toNat - 'a'.toNat + 10)
  else if 'A' ≤ c ∧ c ≤ 'F' then some (c.toNat - 'A'.toNat + 10)
  else none

/-- Appends a digit of the base to a number. -/
def append? (base n : Nat) (c : Char) : Option Nat :=
  match digit? c with
  | none => none
  | some d => if d < base then some (n * base + d) else none

/-- The number that one or more digits of the base stand for. -/
def read? (base : Nat) (t : Text) : Option Nat :=
  if t = [] then none else t.foldlM (append? base) 0

end RemoteCalc.Numeral
