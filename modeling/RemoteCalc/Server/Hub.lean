import RemoteCalc.Server.Conversation

/-! Several conversations that work on one calculator, taking turns. -/

namespace RemoteCalc

inductive Task where
  /-- Works a request out without sending the response. -/
  | compute (r : Request)
  | answer (r : Request)
  | refuse (r : Rejection)
  | reply (r : Response)
  | feed (bs : Bytes)

inductive TaskResult where
  | computed (r : Response)
  | sent (failure : Option Failure)
  | fed (outcome : Except Failure Nat)

structure Hub (ω : Type) where
  calculator : Calculator
  conversations : List (Conversation ω)

namespace Conversation

variable {ω : Type}

def perform (divide : Divider) (send : Sender ω) (c : Conversation ω) :
    Task → Conversation ω × TaskResult
  | .compute r =>
    let (response, calculator) := c.calculator.respond divide r
    ({ c with calculator }, .computed response)
  | .answer r =>
    let ((session, calculator), failure) := c.session.onRequest divide send c.calculator r
    ({ c with session, calculator }, .sent failure)
  | .refuse r =>
    let (session, failure) := c.session.onRejection send r
    ({ c with session }, .sent failure)
  | .reply r =>
    let (session, failure) := c.session.reply send r
    ({ c with session }, .sent failure)
  | .feed bs =>
    let (c, outcome) := c.feed divide send bs
    (c, .fed outcome)

end Conversation

namespace Hub

variable {ω : Type}

/-- Gives conversation `i` its turn: it works on the common calculator and leaves it to the next.
There is no result if there is no such conversation. -/
def perform (divide : Divider) (send : Sender ω) (h : Hub ω) (i : Nat) (t : Task) :
    Hub ω × Option TaskResult :=
  match h.conversations[i]? with
  | none => (h, none)
  | some c =>
    let (c, result) := { c with calculator := h.calculator }.perform divide send t
    (⟨c.calculator, h.conversations.set i c⟩, some result)

end Hub

end RemoteCalc
