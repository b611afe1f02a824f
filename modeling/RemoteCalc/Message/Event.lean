import RemoteCalc.Message.Decode

/-! What comes out of a stream of bytes. -/

namespace RemoteCalc

inductive Event where
  | request (r : Request)
  | response (r : Response)
  | rejection (r : Rejection)
deriving DecidableEq

/-- The end of a conversation that the bytes are read at: a server reads requests and a client
responses. -/
inductive Role where
  | server
  | client
deriving DecidableEq, Repr

namespace Role

def read (role : Role) (body : Bytes) : Event :=
  match role with
  | server => match Request.ofBody body with
    | .ok r => .request r
    | .error e => .rejection e
  | client => match Response.ofBody body with
    | .ok r => .response r
    | .error e => .rejection e

end Role

end RemoteCalc
