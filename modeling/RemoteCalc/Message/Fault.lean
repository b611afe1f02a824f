import RemoteCalc.Message.Basic
import RemoteCalc.Decimal.Integer

/-! What can be wrong with a message. A fault never ends a conversation: it is answered. -/

namespace RemoteCalc

inductive Fault where
  | overflow
  | requestShape
  | requestId
  | requestMethod
  | requestOperand1
  | requestOperand2
  | responseShape
  | responseId
  | responseStatus
  | responseResult
deriving DecidableEq, Repr

namespace Fault

def code : Fault → Nat
  | overflow => 100
  | requestShape => 101
  | requestId => 102
  | requestMethod => 103
  | requestOperand1 => 104
  | requestOperand2 => 105
  | responseShape => 201
  | responseId => 202
  | responseStatus => 203
  | responseResult => 204

def status : Fault → Status
  | overflow | requestShape | requestId => .invalidRequest
  | requestMethod => .invalidMethod
  | requestOperand1 | requestOperand2 => .invalidOperand
  | responseShape | responseId | responseStatus | responseResult => .internalError

def message : Fault → String
  | overflow => "message exceeded the ring buffer before a terminator was found"
  | requestShape => "malformed request frame"
  | requestId => "invalid request id"
  | requestMethod => "unknown request method"
  | requestOperand1 => "invalid first operand"
  | requestOperand2 => "invalid second operand"
  | responseShape => "malformed response frame"
  | responseId => "invalid response request id"
  | responseStatus => "invalid response status"
  | responseResult => "invalid response result"

end Fault

/-- A fault and the id of the message it was found in, or -1 where that is unknown. -/
structure Rejection where
  id : Int32
  fault : Fault
deriving DecidableEq

namespace Rejection

def unattributed (fault : Fault) : Rejection := ⟨Response.unattributed, fault⟩

def message (r : Rejection) : String :=
  r.fault.message ++ " (request " ++ String.ofList (Decimal.printInt32 r.id) ++ ")"

end Rejection

end RemoteCalc
