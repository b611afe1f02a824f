import RemoteCalc.Message.Basic
import RemoteCalc.Message.NumberField
import RemoteCalc.Decimal.Integer
import RemoteCalc.Text.Utf8

/-! The bytes of a message: its fields with marks between them, and the end mark. -/

namespace RemoteCalc

/-- Fields with a mark after each but the last, which the end mark follows. -/
def frame : List Text → Bytes
  | [] => [endMark]
  | [t] => Utf8.encode t ++ [endMark]
  | t :: ts => Utf8.encode t ++ fieldMark :: frame ts

namespace Request

def encode (r : Request) : Except TooWide Bytes := do
  let a ← NumberField.write r.operand1
  let b ← NumberField.write r.operand2
  return frame [Decimal.printInt32 r.id, r.method.name, a, b]

end Request

namespace Response

def encode (r : Response) : Except TooWide Bytes := do
  let result ← NumberField.write r.result
  return frame [Decimal.printInt32 r.id, Decimal.printInt32 r.status.code, result]

end Response

end RemoteCalc
