import RemoteCalc.Failure.Io
import RemoteCalc.Message.Fault
import RemoteCalc.Message.NumberField

/-! Why an operation failed, and how that is worded. -/

namespace RemoteCalc

inductive ConfigError where
  | ringTooSmall (size : Nat)
  | zero (setting : String)
  | notSocket (path : String)
  | unknownTransport (name : String)
deriving DecidableEq, Repr

namespace ConfigError

def message : ConfigError → String
  | ringTooSmall size => "ring_buffer_size must be at least 2, got " ++ toString size
  | zero setting => setting ++ " must be non-zero"
  | notSocket path => path ++ " exists and is not a socket"
  | unknownTransport name =>
    "unknown transport '" ++ name ++ "' (expected tcp, udp, unix-stream or unix-dgram)"

end ConfigError

inductive EndpointAction where
  | bind
  | connect
  | resolve
deriving DecidableEq, Repr

namespace EndpointAction

def wording : EndpointAction → String
  | bind => "could not bind "
  | connect => "could not connect to "
  | resolve => "could not resolve "

end EndpointAction

inductive Failure where
  | io (e : IoError)
  | tooWide (e : TooWide)
  /-- The reply to the request of this id cannot be read. -/
  | malformedReply (id : Int32) (fault : Fault)
  | divisionByZero
  | endpoint (action : EndpointAction) (target : String) (cause : IoError)
  | timeout
  | disconnected
  | config (e : ConfigError)
deriving DecidableEq

namespace Failure

def message : Failure → String
  | io e => "IO error: " ++ e.message
  | tooWide e =>
    "Serialization error: numeric field too wide: " ++ toString e.width ++ " bytes (max "
      ++ toString NumberField.maxWidth ++ ")"
  | malformedReply id fault =>
    "Protocol error: malformed response to request " ++ String.ofList (Decimal.printInt32 id)
      ++ ": " ++ fault.message
  | divisionByZero => "Division by zero"
  | endpoint action target cause =>
    "Network error: " ++ action.wording ++ target ++ ": " ++ cause.message
  | timeout => "Timed out waiting for a response"
  | disconnected => "Connection closed"
  | config e => "Configuration error: " ++ e.message

end Failure

end RemoteCalc
