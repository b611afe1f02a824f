/-! What a response says of its request. -/

namespace RemoteCalc

inductive Status where
  | ok
  | invalidRequest
  | invalidMethod
  | invalidOperand
  | divByZero
  | internalError
deriving DecidableEq, Repr

namespace Status

def all : List Status :=
  [ok, invalidRequest, invalidMethod, invalidOperand, divByZero, internalError]

def code : Status → Int32
  | ok => 0
  | invalidRequest => 1
  | invalidMethod => 2
  | invalidOperand => 3
  | divByZero => 4
  | internalError => 20

def ofCode? (i : Int32) : Option Status := all.find? (·.code = i)

def name : Status → String
  | ok => "OK"
  | invalidRequest => "INVALID_REQUEST"
  | invalidMethod => "INVALID_METHOD"
  | invalidOperand => "INVALID_OPERAND"
  | divByZero => "DIV_BY_ZERO"
  | internalError => "INTERNAL_ERROR"

theorem ofCode?_code (s : Status) : ofCode? s.code = some s := by
  cases s <;> decide

theorem ofCode?_eq_some {i : Int32} {s : Status} (h : ofCode? i = some s) : i = s.code := by
  have hc := List.find?_some h
  simp only [decide_eq_true_eq] at hc
  exact hc.symm

end Status

end RemoteCalc
