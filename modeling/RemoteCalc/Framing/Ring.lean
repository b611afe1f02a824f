import RemoteCalc.Message.Event

/-!
A bounded ring that holds the message in flight. Bytes are pushed one at a time; a push may
complete a message or overflow the ring, and then yields an event. A body has at most
`capacity - 1` bytes.
-/

namespace RemoteCalc

/-- Where the ring stands in the stream of messages. -/
inductive Phase where
  | idle
  /-- A message began in the cell `start` and has `len` bytes so far. -/
  | accumulating (start len : Nat)
  /-- The rest of a message that was too long is being skipped. -/
  | discarding
deriving DecidableEq, Repr

structure Ring where
  role : Role
  cells : Array UInt8
  cursor : Nat
  phase : Phase

namespace Ring

def minCapacity : Nat := 2

/-- An idle ring; it has at least two cells. -/
def empty (role : Role) (capacity : Nat) : Ring :=
  ⟨role, Array.replicate (max capacity minCapacity) 0, 0, .idle⟩

def capacity (r : Ring) : Nat := r.cells.size

def isIdle (r : Ring) : Bool := r.phase = .idle

/-- The number of bytes of the message in flight. -/
def buffered (r : Ring) : Nat :=
  match r.phase with
  | .accumulating _ len => len
  | .idle | .discarding => 0

/-- Drops the message in flight and starts again at the first cell. -/
def reset (r : Ring) : Ring := { r with cursor := 0, phase := .idle }

/-- The bytes of `len` cells from `start` on, which may wrap around the end. -/
def span (r : Ring) (start len : Nat) : Bytes :=
  if start + len ≤ r.capacity then (r.cells.extract start (start + len)).toList
  else (r.cells.extract start r.capacity).toList ++
    (r.cells.extract 0 (start + len - r.capacity)).toList

/-- Puts a byte at the cursor, as the last of a message of `len` bytes from `start`. -/
def store (r : Ring) (byte : UInt8) (start len : Nat) : Ring :=
  let cursor := (r.cursor + 1) % r.capacity
  { r with
    cells := r.cells.setIfInBounds r.cursor byte
    cursor
    phase := .accumulating start len }

/-- Takes one byte. An end mark completes the message in flight, if there is one; a byte that
would fill the ring overflows it, and the bytes up to the next end mark are skipped. -/
def push (r : Ring) (byte : UInt8) : Ring × Option Event :=
  match r.phase with
  | .idle =>
    if byte = endMark then (r, none) else (r.store byte r.cursor 1, none)
  | .accumulating start len =>
    if byte = endMark then ({ r with phase := .idle }, some (r.role.read (r.span start len)))
    else if r.capacity ≤ len + 1 then
      ({ r with phase := .discarding }, some (.rejection (.unattributed .overflow)))
    else (r.store byte start (len + 1), none)
  | .discarding =>
    if byte = endMark then ({ r with phase := .idle }, none) else (r, none)

end Ring

end RemoteCalc
