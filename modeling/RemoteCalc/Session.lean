import RemoteCalc.Calculator
import RemoteCalc.Framing.Feed
import RemoteCalc.Message.Encode

/-!
One end of a conversation: every request and every rejection is answered by one response, which
goes to an outlet of any kind.
-/

namespace RemoteCalc

/-- Division as a session uses it; another one than `Calculator.div` may fail in other ways. -/
abbrev Divider := Float → Float → Except Failure Float

def Calculator.respond (divide : Divider) (c : Calculator) (r : Request) :
    Response × Calculator :=
  let ok := fun (result, c) => (Response.success r.id result, c)
  let refuse := fun status => (Response.refusal r.id status, c)
  match r.method with
  | .none => refuse .invalidMethod
  | .getMemory => ok (c.memory, c)
  | .resetMemory => ok (0, fresh)
  | .add => ok (c.add r.operand1 r.operand2 false)
  | .addToMemory => ok (c.add r.operand1 r.operand2 true)
  | .sub => ok (c.sub r.operand1 r.operand2 false)
  | .subFromMemory => ok (c.sub r.operand1 r.operand2 true)
  | .mul => ok (c.mul r.operand1 r.operand2 false)
  | .mulIntoMemory => ok (c.mul r.operand1 r.operand2 true)
  | .div => match divide r.operand1 r.operand2 with
    | .ok result => ok (result, c)
    | .error .divisionByZero => refuse .divByZero
    | .error _ => refuse .internalError

/-- The frame that answers with a response; one whose result is too wide becomes an internal
error. -/
def Response.frame (r : Response) : Except TooWide Bytes :=
  match r.encode with
  | .ok bytes => .ok bytes
  | .error _ => (refusal r.id .internalError).encode

/-- Offers a frame to an outlet, which may fail. -/
abbrev Sender (ω : Type) := Bytes → ω → ω × Option IoError

structure Session (ω : Type) where
  outlet : ω
  handled : Nat
  rejected : Nat

namespace Session

variable {ω : Type}

def start (outlet : ω) : Session ω := ⟨outlet, 0, 0⟩

def reply (send : Sender ω) (s : Session ω) (r : Response) : Session ω × Option Failure :=
  match r.frame with
  | .error e => (s, some (.tooWide e))
  | .ok bytes =>
    let (outlet, failure) := send bytes s.outlet
    ({ s with outlet }, failure.map Failure.io)

/-- Answers a request; it counts as handled even if the response cannot be sent. -/
def onRequest (divide : Divider) (send : Sender ω) (s : Session ω) (c : Calculator)
    (r : Request) : (Session ω × Calculator) × Option Failure :=
  let (response, c) := c.respond divide r
  let (s, failure) := { s with handled := s.handled + 1 }.reply send response
  ((s, c), failure)

def onRejection (send : Sender ω) (s : Session ω) (r : Rejection) : Session ω × Option Failure :=
  { s with rejected := s.rejected + 1 }.reply send (.refusal r.id r.fault.status)

/-- The session as the handler of a ring's events; it takes no notice of responses. -/
def handler (divide : Divider) (send : Sender ω) : Handler (Session ω × Calculator) Failure
  | .request r, (s, c) => s.onRequest divide send c r
  | .rejection r, (s, c) =>
    let (s, failure) := s.onRejection send r
    ((s, c), failure)
  | .response _, state => (state, none)

end Session

end RemoteCalc
