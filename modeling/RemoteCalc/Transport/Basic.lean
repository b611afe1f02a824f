import RemoteCalc.Failure.Basic

/-! The kinds of socket that carry messages. -/

namespace RemoteCalc

inductive Transport where
  | tcp
  | udp
  | unixStream
  | unixDatagram
deriving DecidableEq, Repr

namespace Transport

/-- Whether bytes arrive as one stream and not as packets. -/
def isStream : Transport → Bool
  | tcp | unixStream => true
  | udp | unixDatagram => false

/-- Whether the endpoint is a path in the file system. -/
def isUnix : Transport → Bool
  | unixStream | unixDatagram => true
  | tcp | udp => false

def name : Transport → String
  | tcp => "tcp"
  | udp => "udp"
  | unixStream => "unix-stream"
  | unixDatagram => "unix-dgram"

/-- Reads a name in any mix of cases. -/
def ofName (s : String) : Except Failure Transport :=
  match String.ofList (s.toList.map Char.toLower) with
  | "tcp" => .ok tcp
  | "udp" => .ok udp
  | "unix-stream" | "unix" | "uds" => .ok unixStream
  | "unix-dgram" | "unix-datagram" => .ok unixDatagram
  | other => .error (.config (.unknownTransport other))

end Transport

end RemoteCalc
