import RemoteCalc.Config
import RemoteCalc.Server.Conversation
import RemoteCalc.Transport.Stream

/-!
One client's connection: what is read is fed to a conversation whose responses go out through a
buffer. It ends when the stream does; a peer that went away is no failure.
-/

namespace RemoteCalc

inductive ReadResult where
  | size (n : Nat)
  | failed (kind : IoKind)
deriving DecidableEq, Repr

inductive Ending where
  | closed
  | failed (e : Failure)
  /-- Still waiting for the peer. -/
  | held
deriving DecidableEq

structure Connection where
  conversation : Conversation Outlet
  reads : List ReadResult

namespace Connection

/-- A buffered frame that is flushed as soon as it is written. -/
def send : Sender Outlet := Outlet.send .bufferNotWritten

def start (config : Config) (calculator : Calculator) (writes : List WriteStep) : Connection :=
  ⟨.start config.ringBufferSize (.ofScript writes) calculator, []⟩

def note (c : Connection) (r : ReadResult) : Connection := { c with reads := c.reads ++ [r] }

/-- How a response that could not be sent ends the connection. -/
def endingOf : Failure → Ending
  | .io e => if e.kind.isDisconnect then .closed else .failed (.io e)
  | e => .failed e

/-- Reads until the stream ends, the peer goes away or something fails. An interrupted read is
tried again. -/
def serve (c : Connection) : List Delivery → Connection × Ending
  | [] | .finish :: _ => (c.note (.size 0), .closed)
  | .hold :: _ => (c, .held)
  | .fail kind :: ds =>
    let c := c.note (.failed kind)
    if kind = .interrupted then serve c ds
    else if kind.isDisconnect ∨ kind.isTimeout then (c, .closed)
    else (c, .failed (.io (.plain kind)))
  | .data bs :: ds =>
    let c := c.note (.size bs.length)
    match c.conversation.feed Calculator.div send bs with
    | (conversation, .ok _) => serve { c with conversation } ds
    | (conversation, .error e) => ({ c with conversation }, endingOf e)

/-- Lets go of the stream, offering once more what a failed write left. -/
def close (c : Connection) : Connection :=
  let session := c.conversation.session
  let outlet := session.outlet.close .bufferNotWritten
  { c with conversation := { c.conversation with session := { session with outlet } } }

/-- A time limit in milliseconds; zero is none. -/
def timeLimit (ms : Nat) : Option Nat := if ms = 0 then none else some ms

/-- Serves a stream from start to end, unless its time limits or a second handle are refused. -/
def run (config : Config) (calculator : Calculator) (s : Stream) :
    Except IoKind (Connection × Ending) :=
  match s.timeoutFailure with
  | some kind => .error kind
  | none => match s.clone with
    | .error kind => .error kind
    | .ok s =>
      let (c, ending) :=
        (start config calculator s.writes).serve (s.deliveries (max config.readChunkSize 1))
      .ok (c.close, ending)

end Connection

/-- What can be seen at a stream of how it was served. -/
structure StreamReport where
  chunks : List Bytes := []
  reads : List ReadResult := []
  /-- The limits for reading and writing that were asked for. -/
  limits : Option (Option Nat × Option Nat) := none
  shutDown : Bool := false
  blocking : Bool := false
deriving DecidableEq, Repr

namespace StreamReport

def ofRun (config : Config) (result : Except IoKind (Connection × Ending)) : StreamReport :=
  let limits :=
    some (Connection.timeLimit config.readTimeoutMs, Connection.timeLimit config.writeTimeoutMs)
  match result with
  | .error _ => { limits }
  | .ok (c, _) => { chunks := c.conversation.session.outlet.chunks, reads := c.reads, limits }

end StreamReport

end RemoteCalc
