import RemoteCalc.Failure.Basic

/-! The four operations and the memory cell. -/

namespace RemoteCalc

structure Calculator where
  memory : Float
deriving DecidableEq

namespace Calculator

def fresh : Calculator := ⟨0⟩

/-- The plain result, or the folded one put into memory. -/
def keep (c : Calculator) (useMemory : Bool) (plain folded : Float) : Float × Calculator :=
  if useMemory then (folded, ⟨folded⟩) else (plain, c)

/-- The sum; with memory, it is added to the cell. -/
def add (c : Calculator) (a b : Float) (useMemory : Bool) : Float × Calculator :=
  c.keep useMemory (a + b) (a + b + c.memory)

/-- The difference; with memory, the cell is subtracted from it. -/
def sub (c : Calculator) (a b : Float) (useMemory : Bool) : Float × Calculator :=
  c.keep useMemory (a - b) (a - b - c.memory)

/-- The product; with memory, it is multiplied by the cell. -/
def mul (c : Calculator) (a b : Float) (useMemory : Bool) : Float × Calculator :=
  c.keep useMemory (a * b) (a * b * c.memory)

/-- The quotient; zero of either sign is no divisor. -/
def div (a b : Float) : Except Failure Float :=
  if b == 0 then .error .divisionByZero else .ok (a / b)

end Calculator

end RemoteCalc
