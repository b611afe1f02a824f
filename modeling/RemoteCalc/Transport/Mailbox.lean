import RemoteCalc.Bytes
import RemoteCalc.Failure.Io

/-! Sending packets through a socket whose behaviour is laid down by a script. -/

namespace RemoteCalc

inductive SendStep where
  | whole
  | upTo (n : Nat)
  | fail (kind : IoKind)
deriving DecidableEq, Repr

structure Mailbox where
  script : List SendStep
  sent : List (String × Bytes)
deriving DecidableEq, Repr

namespace Mailbox

def deliver (peer : String) (bs : Bytes) (m : Mailbox) : Mailbox :=
  { m with sent := m.sent ++ [(peer, bs)] }

/-- Sends a frame as one packet; past the end of the script it is sent whole. -/
def send (peer : String) (frame : Bytes) (m : Mailbox) : Mailbox × Option IoError :=
  match m.script with
  | [] => (m.deliver peer frame, none)
  | step :: script =>
    let m := { m with script }
    match step with
    | .whole => (m.deliver peer frame, none)
    | .upTo n =>
      if n < frame.length then
        (m.deliver peer (frame.take n), some (.datagramTruncated n frame.length))
      else (m.deliver peer frame, none)
    | .fail kind => (m, some (.plain kind))

end Mailbox

end RemoteCalc
