import RemoteCalc.Config
import RemoteCalc.Server.Conversation
import RemoteCalc.Transport.Mailbox

/-!
Serving packets. Each stands alone: no part of a message is carried into the next one, and every
packet is answered by at least one.
-/

namespace RemoteCalc

inductive Receipt where
  | packet (peer : String) (bs : Bytes)
  | fail (kind : IoKind)

structure PacketService where
  config : Config
  ring : Ring
  calculator : Calculator
  mailbox : Mailbox
  received : Nat

namespace PacketService

def start (config : Config) (sends : List SendStep) : PacketService :=
  ⟨config, .empty .server config.ringBufferSize, .fresh, ⟨sends, []⟩, 0⟩

/-- The answer to a packet in which no message ended or overflowed. -/
def noMessage : Response := .refusal Response.unattributed .invalidRequest

/-- Answers one packet, to its sender, until an answer cannot be sent. -/
def handlePacket (s : PacketService) (peer : String) (bs : Bytes) :
    PacketService × Except Failure Unit :=
  let conversation : Conversation Mailbox := ⟨s.ring, .start s.mailbox, s.calculator⟩
  let (c, outcome) := conversation.feed Calculator.div (Mailbox.send peer) bs
  let s := { s with
    ring := if c.ring.isIdle then c.ring else c.ring.reset
    calculator := c.calculator
    mailbox := c.session.outlet }
  match outcome with
  | .error e => (s, .error e)
  | .ok found =>
    if found = 0 ∧ c.session.rejected = 0 then
      let (session, failure) := c.session.reply (Mailbox.send peer) noMessage
      ({ s with mailbox := session.outlet }, match failure with
        | none => .ok ()
        | some e => .error e)
    else (s, .ok ())

/-- A failed receive that says nothing of the socket itself. -/
def isPassing (kind : IoKind) : Bool :=
  kind.isTimeout || kind == .interrupted || kind.isDisconnect || kind == .connectionRefused

def kept (config : Config) (bs : Bytes) : Bytes := bs.take (max config.datagramBufferSize 1)

/-- Receives and answers packets until the script ends or a receive fails for good; an answer that
cannot be sent is passed over. -/
def serve (s : PacketService) : List Receipt → PacketService × Except Failure Unit
  | [] => (s, .ok ())
  | .fail kind :: rest =>
    if isPassing kind then serve s rest else (s, .error (.io (.plain kind)))
  | .packet peer bs :: rest =>
    let s := { s with received := s.received + 1 }
    serve (s.handlePacket peer (kept s.config bs)).1 rest

/-- Serves from start to stop, unless the socket refuses a time limit for receiving; `stopped` says
that the stop was asked for beforehand. -/
def run (config : Config) (limitFailure : Option IoKind) (stopped : Bool) (sends : List SendStep)
    (receipts : List Receipt) : PacketService × Except Failure Unit :=
  match limitFailure with
  | some kind => (start config sends, .error (.io (.plain kind)))
  | none => if stopped then (start config sends, .ok ()) else (start config sends).serve receipts

end PacketService

end RemoteCalc
