import RemoteCalc.Server.Connection

/-!
Accepting connections up to a limit. An earlier connection has ended or waits for its peer when
the next arrives; those that still wait are shut down at the end.
-/

namespace RemoteCalc

inductive Arrival where
  | connect (s : Stream)
  | fail (kind : IoKind)
  | stop

structure Listener where
  config : Config
  /-- The calculator of all connections, if they share one. -/
  calculator : Calculator
  /-- What became of each connection, in the order of arrival. -/
  reports : List StreamReport
  active : Nat
  /-- The connections that can be shut down, by their place in that order. -/
  registry : List Nat

namespace Listener

def start (config : Config) : Listener := ⟨config, .fresh, [], 0, []⟩

def record (l : Listener) (r : StreamReport) : Listener := { l with reports := l.reports ++ [r] }

def register (l : Listener) (i : Nat) : Listener :=
  { l with active := l.active + 1, registry := l.registry ++ [i] }

/-- Forgets connection `i`, which is no longer served. -/
def release (l : Listener) (i : Nat) : Listener :=
  { l with active := l.active - 1, registry := l.registry.erase i }

/-- Takes in a connection: one too many is shut down at once; any other is served, unless it
cannot be made ready. -/
def accept (l : Listener) (s : Stream) : Listener :=
  if l.config.maxConnections ≤ l.active then l.record { shutDown := true }
  else if s.blockingFailure.isSome then l.record {}
  else match s.clone with
    | .error _ => l.record { blocking := true }
    | .ok s =>
      let place := l.reports.length
      let calculator := if l.config.sharedMemory then l.calculator else .fresh
      let result := Connection.run l.config calculator s
      let l := (l.register place).record
        { StreamReport.ofRun l.config result with blocking := true }
      match result with
      | .error _ => l.release place
      | .ok (c, ending) =>
        let l := if l.config.sharedMemory then { l with calculator := c.conversation.calculator }
          else l
        if ending = .held then l else l.release place

/-- Accepts until asked to stop; a failure to accept is passed over. -/
def serve (l : Listener) : List Arrival → Listener
  | [] | .stop :: _ => l
  | .fail _ :: rest => serve l rest
  | .connect s :: rest => serve (l.accept s) rest

/-- Shuts down connection `i`, which ends the wait for its peer. -/
def shutDown (l : Listener) (i : Nat) : Listener :=
  { l with reports := l.reports.modify i fun r => { r with shutDown := true } }.release i

def stop (l : Listener) : Listener := l.registry.foldl shutDown l

/-- Serves from start to stop, unless the listener cannot be made to poll for it; `stopped` says
that the stop was asked for beforehand. -/
def run (config : Config) (pollingFailure : Option IoKind) (stopped : Bool)
    (arrivals : List Arrival) : Listener × Except Failure Unit :=
  match pollingFailure with
  | some kind => (start config, .error (.io (.plain kind)))
  | none => ((if stopped then start config else (start config).serve arrivals).stop, .ok ())

end Listener

end RemoteCalc
