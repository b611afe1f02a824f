import RemoteCalc.Transport.Host

/-! Binding a server to its endpoint, and stopping it. -/

namespace RemoteCalc

inductive Endpoint where
  | inet (host : InetAddress)
  | path (path : String)
deriving DecidableEq, Repr

structure BoundServer where
  config : Config
  endpoint : Endpoint
  stopRequested : Bool
deriving DecidableEq, Repr

namespace BoundServer

def bindInet (stream : Bool) (addr : String) : Except IoError Endpoint :=
  match InetAddress.resolve addr with
  | .error e => .error (.address e)
  | .ok a => match Host.listenFailure? stream a with
    | some e => .error (.system e)
    | none => .ok (.inet a)

/-- Binds the endpoint of a valid configuration. -/
def bind (config : Config) (h : Host) : Except Failure (BoundServer × Host) :=
  match config.validate with
  | .error e => .error e
  | .ok () =>
    if config.transport.isUnix then
      match h.clearPath config.socketPath with
      | .error e => .error e
      | .ok h => .ok (⟨config, .path config.socketPath, false⟩, { h with entry := .socket true })
    else
      match bindInet config.transport.isStream config.listenAddr with
      | .error e => .error (.endpoint .bind config.listenAddr e)
      | .ok endpoint => .ok (⟨config, endpoint, false⟩, h)

def requestStop (s : BoundServer) : BoundServer := { s with stopRequested := true }

/-- Leaves the endpoint after serving; a socket file goes with its server. -/
def leave (s : BoundServer) (h : Host) : Host :=
  match s.endpoint with
  | .path _ => { h with entry := .missing }
  | .inet _ => h

end BoundServer

end RemoteCalc
