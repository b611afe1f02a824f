import RemoteCalc.Bytes
import RemoteCalc.Message.Method
import RemoteCalc.Message.Status

/-! Requests and responses, and the marks that separate them. -/

namespace RemoteCalc

def fieldMark : UInt8 := 0x23

def endMark : UInt8 := 0x24

structure Request where
  /-- Chosen by the caller and repeated in the response. -/
  id : Int32
  method : Method
  operand1 : Float
  operand2 : Float
deriving DecidableEq

structure Response where
  id : Int32
  status : Status
  result : Float
deriving DecidableEq

namespace Request

def fieldCount : Nat := 4

end Request

namespace Response

def fieldCount : Nat := 3

/-- The id of a response to a message whose own id is unknown. -/
def unattributed : Int32 := -1

def success (id : Int32) (result : Float) : Response := ⟨id, .ok, result⟩

/-- A refusal; its result is always zero. -/
def refusal (id : Int32) (status : Status) : Response := ⟨id, status, 0⟩

def isOk (r : Response) : Bool := r.status = .ok

end Response

end RemoteCalc
