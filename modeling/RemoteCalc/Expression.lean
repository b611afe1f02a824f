import RemoteCalc.Cut
import RemoteCalc.Decimal.Reader
import RemoteCalc.Message.Method

/-!
Lines of input. Operators are tried in a fixed order, each at the first place where it occurs
after the first character, so that the line may begin with a sign.
-/

namespace RemoteCalc

inductive Expression where
  | quit
  | call (method : Method) (operand1 operand2 : Float)
deriving DecidableEq

/-- Why a line is no expression; the line is kept without the blanks around it. -/
inductive ExpressionError where
  | unrecognized (line : Text)
  | invalidOperands (line : Text)
deriving DecidableEq, Repr

namespace ExpressionError

def message : ExpressionError → String
  | unrecognized line => "Invalid input: '" ++ String.ofList line ++ "'"
  | invalidOperands line => "Invalid operands: '" ++ String.ofList line ++ "'"

end ExpressionError

namespace Expression

/-- The operators in the order in which they are tried. -/
def operators : List (Text × Method) :=
  [(['+', '+'], .addToMemory), (['+'], .add), (['-', '-'], .subFromMemory), (['-'], .sub),
    (['*', '*'], .mulIntoMemory), (['*'], .mul), (['/'], .div)]

/-- What stands before and after the first occurrence of `op` after the first character. -/
def splitAfterFirst? (op : Text) : Text → Option (Text × Text)
  | [] => none
  | c :: t => (splitAt? op t).map fun (left, right) => (c :: left, right)

def readOperand? (t : Text) : Option Float := Decimal.readFloat? t.trim

/-- The call that an operator makes of a line, if both its sides are numbers. -/
def callWith? (op : Text) (method : Method) (line : Text) : Option Expression :=
  match splitAfterFirst? op line with
  | none => none
  | some (left, right) => match readOperand? left, readOperand? right with
    | some a, some b => some (call method a b)
    | _, _ => none

/-- Reads a line that has no blanks around it. -/
def ofTrimmed (line : Text) : Except ExpressionError Expression :=
  if line = ['q', 'u', 'i', 't'] then .ok quit
  else if line = ['m', 'e', 'm'] then .ok (call .getMemory 0 0)
  else if line = ['r', 'e', 's', 'e', 't'] then .ok (call .resetMemory 0 0)
  else match operators.findSome? fun (op, method) => callWith? op method line with
    | some e => .ok e
    | none =>
      if operators.any fun (op, _) => (splitAfterFirst? op line).isSome
      then .error (.invalidOperands line)
      else .error (.unrecognized line)

def ofLine (line : Text) : Except ExpressionError Expression := ofTrimmed line.trim

end Expression

end RemoteCalc
