import RemoteCalc.Bytes
import RemoteCalc.Failure.Io

/-! Writing frames to a stream whose behaviour is laid down by a script. -/

namespace RemoteCalc

/-- What one low-level write does, or the flush that meets it. -/
inductive WriteStep where
  | takeAll
  /-- Takes at most `n` bytes. -/
  | takeUpTo (n : Nat)
  | fail (kind : IoKind)
  /-- Fails this write and every later one. -/
  | failForever (kind : IoKind)
  /-- Fails a flush; a write that meets it takes all bytes. -/
  | failFlush (kind : IoKind)
deriving DecidableEq, Repr

/-- What came of offering bytes until all are taken or a write fails. -/
structure Offer where
  chunks : List Bytes
  unsent : Bytes
  script : List WriteStep
  failure : Option IoError
deriving DecidableEq, Repr

/-- Offers bytes until all are taken. An interrupted write is tried again, unless every later one
fails too; a write that takes nothing is the failure `stuck`. Past the end of the script all bytes
are taken. -/
def offer (stuck : IoError) : List WriteStep → Bytes → Offer
  | [], bs => ⟨[bs], [], [], none⟩
  | .takeAll :: script, bs => ⟨[bs], [], script, none⟩
  | .takeUpTo n :: script, bs =>
    if n = 0 then ⟨[[]], bs, script, some stuck⟩
    else if bs.length ≤ n then ⟨[bs], [], script, none⟩
    else
      let rest := offer stuck script (bs.drop n)
      { rest with chunks := bs.take n :: rest.chunks }
  | .fail kind :: script, bs =>
    if kind = .interrupted then offer stuck script bs else ⟨[], bs, script, some (.plain kind)⟩
  | .failForever kind :: script, bs => ⟨[], bs, .failForever kind :: script, some (.plain kind)⟩
  | .failFlush _ :: script, bs => ⟨[bs], [], script, none⟩

structure Outlet where
  script : List WriteStep
  chunks : List Bytes
  flushes : Nat
  /-- What a failed write left of its frame. -/
  unsent : Bytes
deriving DecidableEq, Repr

namespace Outlet

def ofScript (script : List WriteStep) : Outlet := ⟨script, [], 0, []⟩

/-- Offers bytes and keeps account of what was taken. -/
def write (stuck : IoError) (bs : Bytes) (o : Outlet) : Outlet × Option IoError :=
  let done := offer stuck o.script bs
  ({ o with script := done.script, chunks := o.chunks ++ done.chunks, unsent := done.unsent },
    done.failure)

def flush (o : Outlet) : Outlet × Option IoError :=
  match o.script with
  | .failFlush kind :: script =>
    ({ o with script, flushes := o.flushes + 1 }, some (.plain kind))
  | _ => ({ o with flushes := o.flushes + 1 }, none)

def send (stuck : IoError) (frame : Bytes) (o : Outlet) : Outlet × Option IoError :=
  match o.write stuck frame with
  | (o, some e) => (o, some e)
  | (o, none) => o.flush

/-- Offers what a failed write left once more, and takes no notice of a second failure. -/
def close (stuck : IoError) (o : Outlet) : Outlet :=
  if o.unsent = [] then o else (o.write stuck o.unsent).1

def written (o : Outlet) : Bytes := o.chunks.flatten

end Outlet

end RemoteCalc
