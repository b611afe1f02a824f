import RemoteCalc.Decimal.Integer
import RemoteCalc.Failure.Io
import RemoteCalc.Inet.Ipv6

/-!
The text of an inet endpoint: a host and, after the last colon, a port. An IPv6 address may stand
in brackets. No name server answers, so that of all names only that of the machine itself is known.
-/

namespace RemoteCalc

inductive InetAddress where
  | v4 (a : Ipv4)
  | v6 (a : Ipv6)
deriving DecidableEq, Repr

namespace InetAddress

def text : InetAddress → String
  | v4 a => a.text
  | v6 a => a.text

/-- Reads a port, which may have a plus sign. -/
def readPort? (t : Text) : Option Nat :=
  let digits := match t with
    | '+' :: t => t
    | t => t
  match Decimal.readNat? digits with
  | none => none
  | some n => if n < 65536 then some n else none

/-- What stands before and after the last colon. -/
def splitPort? (t : Text) : Option (Text × Text) :=
  (splitAt? [':'] t.reverse).map fun (port, host) => (host.reverse, port.reverse)

/-- Reads an IPv6 address in brackets and its port, which has no sign. -/
def readBracketed? : Text → Option InetAddress
  | '[' :: t => match splitAt? [']', ':'] t with
    | none => none
    | some (host, port) =>
      if port.all Char.isDigit ∧ (readPort? port).isSome then (Ipv6.read? host).map v6 else none
  | _ => none

def isLabel (t : Text) : Bool :=
  t ≠ [] && t.length ≤ 63 && t.all fun c => c.isAlphanum || c = '-' || c = '_'

/-- Whether a text could be the name of a host; it may end in a point. -/
def isHostName (t : Text) : Bool :=
  let labels := cut '.' t
  let labels := if labels.getLast? = some [] then labels.dropLast else labels
  t = ['.'] ||
    labels ≠ [] && labels.all isLabel && t.head? ≠ some '-' && (['.'].intercalate labels).length ≤ 253

/-- The address of a host: a text of an address, or a name. -/
def ofHost (t : Text) : Except AddressError InetAddress :=
  if Char.ofNat 0 ∈ t then .error .nulInHost
  else match Ipv4.read? t, Ipv6.read? t with
    | some a, _ => .ok (v4 a)
    | none, some a => .ok (v6 a)
    | none, none =>
      if t.map Char.toLower = "localhost".toList then .ok (v4 .loopback)
      else if isHostName t then .error .noAnswer
      else .error .unknownHost

/-- Reads an endpoint; a missing port is found before a bad one, and that before a bad host. -/
def resolve (s : String) : Except AddressError InetAddress :=
  match readBracketed? s.toList with
  | some a => .ok a
  | none => match splitPort? s.toList with
    | none => .error .noPort
    | some (host, port) => if (readPort? port).isSome then ofHost host else .error .badPort

end InetAddress

end RemoteCalc
