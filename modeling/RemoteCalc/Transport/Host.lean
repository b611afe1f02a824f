import RemoteCalc.Config
import RemoteCalc.Inet.Resolve

/-!
The machine that endpoints live on. It has one path for socket files, and it may be cut off from
every network, its own loopback included.
-/

namespace RemoteCalc

inductive PathEntry where
  | missing
  | file
  | directory
  /-- A socket file; `served` says that a server listens at it. -/
  | socket (served : Bool)
deriving DecidableEq, Repr

namespace PathEntry

def isPresent (e : PathEntry) : Bool := e ≠ missing

end PathEntry

structure Host where
  entry : PathEntry
  /-- Whether inet addresses can be reached. -/
  networked : Bool := true
deriving DecidableEq, Repr

namespace Host

/-- What listening at an address fails with, if it does. Every IPv4 address will do; of the others
only the one that stands for all, those that stand for an IPv4 address and, for packets, those of
many receivers. -/
def listenFailure? (stream : Bool) : InetAddress → Option SystemError
  | .v4 _ => none
  | .v6 a =>
    if a.isUnspecified || a.mapped?.isSome then none
    else if a.isMulticast && stream || a.lacksZone then some .invalidArgument
    else if a.isMulticast then none
    else some .addressNotAvailable

/-- Clears the path of a socket file that an earlier server left; anything else stays and is a
failure. -/
def clearPath (h : Host) (path : String) : Except Failure Host :=
  match h.entry with
  | .missing => .ok h
  | .socket _ => .ok { h with entry := .missing }
  | .file | .directory => .error (.config (.notSocket path))

def reachPath (h : Host) : Except SystemError Unit :=
  match h.entry with
  | .missing => .error .noSuchFile
  | .socket true => .ok ()
  | .socket false | .file | .directory => .error .connectionRefused

/-- Finds an inet address. A machine without networks has no way to an IPv4 address, and no address
of its own to reach another one from. -/
def reachInet (h : Host) (stream : Bool) : InetAddress → Except SystemError Unit
  | .v4 _ => if h.networked then .ok () else .error .networkUnreachable
  | .v6 a =>
    if h.networked then .ok ()
    else if a.mapped?.isSome || a.isMulticast && stream then .error .networkUnreachable
    else if a.lacksZone then .error .invalidArgument
    else .error .addressNotAvailable

/-- Connects a client of the given configuration. -/
def connect (h : Host) (c : ClientConfig) : Except Failure Unit :=
  match c.transport with
  | .tcp => match InetAddress.resolve c.serverAddr with
    | .error e => .error (.endpoint .connect c.serverAddr (.address e))
    | .ok a => (h.reachInet true a).mapError fun e => .endpoint .connect c.serverAddr (.system e)
  | .udp => match InetAddress.resolve c.serverAddr with
    | .error e => .error (.endpoint .resolve c.serverAddr (.address e))
    | .ok a => (h.reachInet false a).mapError fun e => .io (.system e)
  | .unixStream | .unixDatagram =>
    h.reachPath.mapError fun e => .endpoint .connect c.socketPath (.system e)

end Host

end RemoteCalc
