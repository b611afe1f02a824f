import RemoteCalc.Client.Basic
import RemoteCalc.Server.Connection
import RemoteCalc.Server.PacketService

/-! A client and the server it talks to, with nothing lost between them. -/

namespace RemoteCalc

inductive Counterpart where
  | stream (c : Conversation Outlet)
  | packets (s : PacketService)

namespace Counterpart

/-- Takes what the client sent at once; the second part is what it gets back, in the portions in
which it arrives. -/
def exchange (bs : Bytes) : Counterpart → Counterpart × List Bytes
  | stream c =>
    let (after, _) := c.feed Calculator.div Connection.send bs
    (.stream after, after.session.outlet.chunks.drop c.session.outlet.chunks.length)
  | packets s =>
    let (after, _) := s.handlePacket "client" (PacketService.kept s.config bs)
    (.packets after, (after.mailbox.sent.drop s.mailbox.sent.length).map (·.2))

def calculator : Counterpart → Calculator
  | stream c => c.calculator
  | packets s => s.calculator

end Counterpart

structure Link where
  client : Client
  peer : Counterpart

namespace Link

def call (l : Link) (method : Method) (a b : Float) : Link × Except Failure Response :=
  match l.client.send method a b with
  | (client, .error e) => ({ l with client }, .error e)
  | (client, .ok id) =>
    let (peer, replies) :=
      l.peer.exchange (client.sent.drop l.client.sent.length).flatten
    let (client, result) := (replies.foldl Client.arrive client).await id
    (⟨client, peer⟩, result)

end Link

/-- A server that clients link to one after another. -/
structure Site where
  config : Config
  /-- The calculator that is left to the next client. -/
  calculator : Calculator

namespace Site

def start (config : Config) : Site := ⟨config, .fresh⟩

/-- Whether one client's memory is left to the next. -/
def keepsMemory (s : Site) : Bool := !s.config.transport.isStream || s.config.sharedMemory

def counterpart (s : Site) : Counterpart :=
  let calculator := if s.keepsMemory then s.calculator else .fresh
  if s.config.transport.isStream then
    .stream (.start s.config.ringBufferSize (.ofScript []) calculator)
  else .packets { PacketService.start s.config [] with calculator }

def after (s : Site) (peer : Counterpart) : Site := { s with calculator := peer.calculator }

end Site

end RemoteCalc
