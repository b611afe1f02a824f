/-! Failures of reading, writing and connecting. -/

namespace RemoteCalc

inductive IoKind where
  | unexpectedEof
  | connectionReset
  | connectionAborted
  | connectionRefused
  | brokenPipe
  | notConnected
  | wouldBlock
  | timedOut
  | interrupted
  | writeZero
  | permissionDenied
  | invalidData
  | other
  | invalidInput
  | notFound
  | networkUnreachable
  | addressNotAvailable
  | uncategorized
deriving DecidableEq, Repr

namespace IoKind

def all : List IoKind :=
  [unexpectedEof, connectionReset, connectionAborted, connectionRefused, brokenPipe, notConnected,
    wouldBlock, timedOut, interrupted, writeZero, permissionDenied, invalidData, other,
    invalidInput, notFound, networkUnreachable, addressNotAvailable, uncategorized]

def name : IoKind → String
  | unexpectedEof => "UnexpectedEof"
  | connectionReset => "ConnectionReset"
  | connectionAborted => "ConnectionAborted"
  | connectionRefused => "ConnectionRefused"
  | brokenPipe => "BrokenPipe"
  | notConnected => "NotConnected"
  | wouldBlock => "WouldBlock"
  | timedOut => "TimedOut"
  | interrupted => "Interrupted"
  | writeZero => "WriteZero"
  | permissionDenied => "PermissionDenied"
  | invalidData => "InvalidData"
  | other => "Other"
  | invalidInput => "InvalidInput"
  | notFound => "NotFound"
  | networkUnreachable => "NetworkUnreachable"
  | addressNotAvailable => "AddrNotAvailable"
  | uncategorized => "Uncategorized"

def ofName? (s : String) : Option IoKind := all.find? (·.name = s)

/-- The peer went away. -/
def isDisconnect : IoKind → Bool
  | unexpectedEof | connectionReset | connectionAborted | brokenPipe | notConnected => true
  | _ => false

/-- A blocking operation gave up waiting. -/
def isTimeout : IoKind → Bool
  | wouldBlock | timedOut => true
  | _ => false

end IoKind

inductive SystemError where
  | noSuchFile
  | invalidArgument
  | addressNotAvailable
  | networkUnreachable
  | connectionRefused
deriving DecidableEq, Repr

namespace SystemError

def number : SystemError → Nat
  | noSuchFile => 2
  | invalidArgument => 22
  | addressNotAvailable => 99
  | networkUnreachable => 101
  | connectionRefused => 111

def text : SystemError → String
  | noSuchFile => "No such file or directory"
  | invalidArgument => "Invalid argument"
  | addressNotAvailable => "Cannot assign requested address"
  | networkUnreachable => "Network is unreachable"
  | connectionRefused => "Connection refused"

def kind : SystemError → IoKind
  | noSuchFile => .notFound
  | invalidArgument => .invalidInput
  | addressNotAvailable => .addressNotAvailable
  | networkUnreachable => .networkUnreachable
  | connectionRefused => .connectionRefused

end SystemError

inductive AddressError where
  | noPort
  | badPort
  | nulInHost
  /-- The host has no address and is no name. -/
  | unknownHost
  /-- The host is a name that nobody answers for. -/
  | noAnswer
deriving DecidableEq, Repr

namespace AddressError

def message : AddressError → String
  | noPort => "invalid socket address"
  | badPort => "invalid port value"
  | nulInHost => "file name contained an unexpected NUL byte"
  | unknownHost => "failed to lookup address information: Name or service not known"
  | noAnswer => "failed to lookup address information: Temporary failure in name resolution"

def kind : AddressError → IoKind
  | noPort | badPort | nulInHost => .invalidInput
  | unknownHost | noAnswer => .uncategorized

end AddressError

inductive IoError where
  /-- A failure of which only the kind is known. -/
  | plain (kind : IoKind)
  /-- A write took no byte of a frame. -/
  | frameNotWritten
  /-- A write took no byte of a buffered frame. -/
  | bufferNotWritten
  | datagramTruncated (sent total : Nat)
  /-- A packet of a client went out short. -/
  | partlyWritten (sent total : Nat)
  | system (e : SystemError)
  | address (e : AddressError)
deriving DecidableEq, Repr

namespace IoError

def kind : IoError → IoKind
  | plain kind => kind
  | frameNotWritten | bufferNotWritten | datagramTruncated _ _ | partlyWritten _ _ => .writeZero
  | system e => e.kind
  | address e => e.kind

def message : IoError → String
  | plain kind => kind.name
  | frameNotWritten => "failed to write whole buffer"
  | bufferNotWritten => "failed to write the buffered data"
  | datagramTruncated sent total =>
    "datagram truncated: sent " ++ toString sent ++ " of " ++ toString total ++ " bytes"
  | partlyWritten sent total =>
    "wrote " ++ toString sent ++ " of " ++ toString total ++ " bytes"
  | system e => e.text ++ " (os error " ++ toString e.number ++ ")"
  | address e => e.message

end IoError

end RemoteCalc
