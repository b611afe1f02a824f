import RemoteCalc.Transport.Outlet

/-! A stream whose every operation is laid down by a script. -/

namespace RemoteCalc

inductive ReadStep where
  /-- Bytes arrive; no bytes are the end of the stream. -/
  | chunk (bs : Bytes)
  | fail (kind : IoKind)
  /-- Nothing arrives until the stream is shut down. -/
  | hold
deriving DecidableEq, Repr

structure Stream where
  reads : List ReadStep := []
  writes : List WriteStep := []
  /-- The failure of each attempt to take a second handle, if it fails. -/
  cloneFailures : List (Option IoKind) := []
  timeoutFailure : Option IoKind := none
  blockingFailure : Option IoKind := none
  peer : String := "peer"

inductive Delivery where
  | data (bs : Bytes)
  | fail (kind : IoKind)
  | hold
  | finish
deriving DecidableEq, Repr

namespace ReadStep

/-- The reads that one step takes with a buffer of `size` bytes. -/
def deliveries (size : Nat) : ReadStep → List Delivery
  | chunk [] => [.finish]
  | chunk bs => (bs.pieces size).map .data
  | fail kind => [.fail kind]
  | hold => [.hold]

end ReadStep

namespace Stream

/-- What the reads yield in turn; past the end of the list the stream has ended. -/
def deliveries (s : Stream) (size : Nat) : List Delivery :=
  s.reads.flatMap (·.deliveries size)

/-- A second handle to the stream, or the failure to get one. -/
def clone (s : Stream) : Except IoKind Stream :=
  match s.cloneFailures with
  | some kind :: _ => .error kind
  | none :: rest => .ok { s with cloneFailures := rest }
  | [] => .ok s

end Stream

end RemoteCalc
