import RemoteCalc.Framing.Feed
import RemoteCalc.Message.Encode
import RemoteCalc.Transport.Host

/-!
A client: it gives each request the next id, counts the replies that are due, and finds the reply
to a call among what arrives.
-/

namespace RemoteCalc

/-- What an attempt to receive comes to: bytes of a stream, a packet, or a failure. -/
inductive Incoming where
  | bytes (bs : Bytes)
  | fail (kind : IoKind)
deriving DecidableEq, Repr

/-- What stands in the way of the bytes that are sent. -/
inductive Hindrance where
  | refusal (kind : IoKind)
  /-- No more than so many bytes are taken at once. -/
  | limit (n : Nat)
deriving DecidableEq, Repr

namespace Hindrance

/-- What a send of these bytes fails with, if it does. Over a stream, bytes that were not taken and
a send that was interrupted are tried again, and no bytes are sent by doing nothing. -/
def failure? (t : Transport) (bs : Bytes) : Hindrance → Option IoError
  | refusal kind =>
    if t.isStream ∧ (bs = [] ∨ kind = .interrupted) then none else some (.plain kind)
  | limit n =>
    if t.isStream then if n = 0 ∧ bs ≠ [] then some .frameNotWritten else none
    else if n < bs.length then some (.partlyWritten n bs.length) else none

end Hindrance

structure Client where
  transport : Transport
  ring : Ring
  /-- What has arrived and has not been taken yet. -/
  events : List Event
  reading : Bool
  /-- What the sends meet, if anything. -/
  hindrance : Option Hindrance
  nextId : Int32
  outstanding : Nat
  /-- How long a call waits, in milliseconds. -/
  patience : Nat
  /-- What was sent by each send that did not fail. -/
  sent : List Bytes
  /-- Whether there is a socket file of the client's own. -/
  localFile : Bool

namespace Client

def packetSize : Nat := 512

def start (config : ClientConfig) : Client :=
  { transport := config.transport
    ring := .empty .client config.ringBufferSize
    events := []
    reading := true
    hindrance := none
    nextId := 0
    outstanding := 0
    patience := config.responseTimeoutMs
    sent := []
    localFile := config.transport = .unixDatagram }

def connect (h : Host) (config : ClientConfig) : Except Failure Client :=
  (h.connect config).map fun _ => start config

/-- The replies due for bytes sent: one for each end mark, and at least one for a packet. -/
def repliesDue (t : Transport) (bs : Bytes) : Nat :=
  if t.isStream then bs.count endMark else max (bs.count endMark) 1

/-- How a send of these bytes fails, if it does. -/
def sendFailure? (c : Client) (bs : Bytes) : Option Failure :=
  (c.hindrance.bind (·.failure? c.transport bs)).map fun e =>
    if e.kind.isDisconnect then .disconnected else .io e

/-- Sends bytes as they are; they need not be a frame. -/
def sendRaw (c : Client) (bs : Bytes) : Client × Option Failure :=
  match c.sendFailure? bs with
  | some e => (c, some e)
  | none =>
    ({ c with
      sent := c.sent ++ [bs]
      outstanding := c.outstanding + repliesDue c.transport bs }, none)

def sendRequest (c : Client) (r : Request) : Client × Option Failure :=
  match r.encode with
  | .error e => (c, some (.tooWide e))
  | .ok frame => c.sendRaw frame

/-- Sends a request with the next id, which is used up even if the request cannot be sent. -/
def send (c : Client) (method : Method) (a b : Float) : Client × Except Failure Int32 :=
  let id := c.nextId
  match { c with nextId := id + 1 }.sendRequest ⟨id, method, a, b⟩ with
  | (c, none) => (c, .ok id)
  | (c, some e) => (c, .error e)

/-- Takes in what the peer sent. A packet stands alone, and only its beginning is read. -/
def arrive (c : Client) (bs : Bytes) : Client :=
  if c.reading then
    let bs := if c.transport.isStream then bs else bs.take packetSize
    let fed := c.ring.feed Ring.collect c.events bs
    { c with
      ring := if c.transport.isStream || fed.ring.isIdle then fed.ring else fed.ring.reset
      events := fed.state }
  else c

/-- The peer sends no more; packets have no such end. -/
def peerFinished (c : Client) : Client :=
  if c.transport.isStream then { c with reading := false } else c

/-- Takes one receive. A stream that yields no bytes has ended, while an empty packet is one like
any other; a receive that waited in vain or was interrupted is made again. -/
def take (c : Client) : Incoming → Client
  | .bytes [] => c.peerFinished
  | .bytes bs => c.arrive bs
  | .fail kind => if kind.isTimeout ∨ kind = .interrupted then c else { c with reading := false }

def peerGone (c : Client) : Client :=
  { c with reading := false, hindrance := some (.refusal .brokenPipe) }

/-- Closes the socket; one for internet packets has no connection to shut down. -/
def close (c : Client) : Client :=
  { c with
    reading := false
    hindrance := if c.transport = .udp then c.hindrance else some (.refusal .brokenPipe)
    localFile := false }

/-- The failure to take an event when there is none. -/
def nothingLeft (c : Client) : Failure := if c.reading then .timeout else .disconnected

def receive (c : Client) : Client × Except Failure Event :=
  match c.events with
  | [] => (c, .error c.nothingLeft)
  | e :: es => ({ c with events := es, outstanding := c.outstanding - 1 }, .ok e)

/-- What an event means to the call with this id. An event without an id is its answer only if no
other reply is due. -/
def answer? (id : Int32) (sole : Bool) : Event → Option (Except Failure Response)
  | .response r =>
    if r.id = id ∨ (r.id = Response.unattributed ∧ sole) then some (.ok r) else none
  | .rejection r =>
    if r.id = id ∨ (r.id = Response.unattributed ∧ sole) then
      some (.error (.malformedReply id r.fault))
    else none
  | .request _ => none

/-- Takes events until one answers the call with this id. -/
def awaitFrom (id : Int32) (c : Client) : List Event → Client × Except Failure Response
  | [] => ({ c with events := [] }, .error c.nothingLeft)
  | e :: es =>
    let taken := { c with events := es, outstanding := c.outstanding - 1 }
    match answer? id (c.outstanding ≤ 1) e with
    | some result => (taken, result)
    | none => awaitFrom id taken es

def await (c : Client) (id : Int32) : Client × Except Failure Response :=
  if c.patience = 0 then (c, .error .timeout) else awaitFrom id c c.events

/-- What happens to a client between two of its own steps. -/
inductive Occurrence where
  | incoming (i : Incoming)
  /-- The peer goes away. -/
  | departure
  /-- From now on sends meet this, or nothing. -/
  | hindered (h : Option Hindrance)
deriving DecidableEq, Repr

def undergo (c : Client) : Occurrence → Client
  | .incoming i => c.take i
  | .departure => c.peerGone
  | .hindered hindrance => { c with hindrance }

def undergoAll (c : Client) (os : List Occurrence) : Client := os.foldl undergo c

/-- Sends a request and takes the reply to it from what has arrived, or what happens while it
waits. -/
def callDuring (c : Client) (method : Method) (a b : Float) (os : List Occurrence) :
    Client × Except Failure Response :=
  match c.send method a b with
  | (c, .error e) => (c, .error e)
  | (c, .ok id) => (c.undergoAll os).await id

/-- A call during which nothing happens. -/
def call (c : Client) (method : Method) (a b : Float) : Client × Except Failure Response :=
  c.callDuring method a b []

end Client

end RemoteCalc
