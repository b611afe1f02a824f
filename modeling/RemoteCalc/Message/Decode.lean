import RemoteCalc.Message.Fault
import RemoteCalc.Decimal.Reader
import RemoteCalc.Text.Utf8

/-!
Reading of messages. The first field that cannot be read decides the fault; every fault after the
id carries the id.
-/

namespace RemoteCalc

/-- The text of a field without the blanks around it. -/
def fieldText? (field : Bytes) : Option Text := (Utf8.decode? field).map Text.trim

def fieldInt32? (field : Bytes) : Option Int32 := (fieldText? field).bind Decimal.readInt32?

def fieldFloat? (field : Bytes) : Option Float := (fieldText? field).bind Decimal.readFloat?

def fieldMethod? (field : Bytes) : Option Method := (fieldText? field).bind Method.ofName?

def fieldStatus? (field : Bytes) : Option Status := (fieldInt32? field).bind Status.ofCode?

def fields (body : Bytes) : List Bytes := cut fieldMark body

/-- The id in the first field, for a message that has the wrong number of fields. -/
def leadingId (body : Bytes) : Int32 :=
  ((fields body).head?.bind fieldInt32?).getD Response.unattributed

/-- The value of a field, or the rejection if it has none. -/
def demand {α : Type} (value : Option α) (r : Rejection) : Except Rejection α :=
  match value with
  | some a => .ok a
  | none => .error r

/-- What stands before the end mark that ends a frame and occurs nowhere else in it. -/
def body? (frame : Bytes) : Option Bytes :=
  if frame.getLast? = some endMark ∧ endMark ∉ frame.dropLast then some frame.dropLast else none

namespace Request

def ofBody (body : Bytes) : Except Rejection Request :=
  match fields body with
  | [id, method, operand1, operand2] => do
    let id ← demand (fieldInt32? id) (.unattributed .requestId)
    let method ← demand (fieldMethod? method) ⟨id, .requestMethod⟩
    let operand1 ← demand (fieldFloat? operand1) ⟨id, .requestOperand1⟩
    let operand2 ← demand (fieldFloat? operand2) ⟨id, .requestOperand2⟩
    return ⟨id, method, operand1, operand2⟩
  | _ => .error ⟨leadingId body, .requestShape⟩

def decode (frame : Bytes) : Except Rejection Request :=
  match body? frame with
  | some body => ofBody body
  | none => .error ⟨leadingId frame, .requestShape⟩

end Request

namespace Response

def ofBody (body : Bytes) : Except Rejection Response :=
  match fields body with
  | [id, status, result] => do
    let id ← demand (fieldInt32? id) (.unattributed .responseId)
    let status ← demand (fieldStatus? status) ⟨id, .responseStatus⟩
    let result ← demand (fieldFloat? result) ⟨id, .responseResult⟩
    return ⟨id, status, result⟩
  | _ => .error ⟨leadingId body, .responseShape⟩

def decode (frame : Bytes) : Except Rejection Response :=
  match body? frame with
  | some body => ofBody body
  | none => .error ⟨leadingId frame, .responseShape⟩

end Response

end RemoteCalc
