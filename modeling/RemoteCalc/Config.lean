import RemoteCalc.Transport.Basic

/-! The settings of a server and of a client. -/

namespace RemoteCalc

structure Config where
  transport : Transport := .tcp
  listenAddr : String := "127.0.0.1:6666"
  socketPath : String := "/tmp/calc_svc.sock"
  ringBufferSize : Nat := 256
  /-- The most that is read from a stream at once. -/
  readChunkSize : Nat := 128
  /-- The most that is kept of a packet. -/
  datagramBufferSize : Nat := 256
  maxConnections : Nat := 1024
  /-- In milliseconds; zero waits forever, also for writing. -/
  readTimeoutMs : Nat := 0
  writeTimeoutMs : Nat := 0
  /-- The time between two looks at the shutdown flag. -/
  acceptPollMs : Nat := 50
  /-- Whether all stream connections work on one memory cell. -/
  sharedMemory : Bool := false
deriving DecidableEq, Repr

namespace Config

/-- The first setting that no server can work with decides the failure. -/
def validate (c : Config) : Except Failure Unit :=
  if c.ringBufferSize < 2 then .error (.config (.ringTooSmall c.ringBufferSize))
  else if c.readChunkSize = 0 then .error (.config (.zero "read_chunk_size"))
  else if c.datagramBufferSize = 0 then .error (.config (.zero "datagram_buffer_size"))
  else if c.maxConnections = 0 then .error (.config (.zero "max_connections"))
  else if c.acceptPollMs = 0 then .error (.config (.zero "accept_poll_ms"))
  else .ok ()

end Config

structure ClientConfig where
  transport : Transport := .tcp
  serverAddr : String := "127.0.0.1:6666"
  socketPath : String := "/tmp/calc_svc.sock"
  /-- The socket file that a packet client receives at; if unset, one of its own choice. -/
  localSocketPath : Option String := none
  ringBufferSize : Nat := 128
  responseTimeoutMs : Nat := 5000
  pollIntervalMs : Nat := 50
deriving DecidableEq, Repr

namespace ClientConfig

/-- A client of the endpoint that a server with this configuration serves. -/
def forServer (c : Config) : ClientConfig :=
  { transport := c.transport, serverAddr := c.listenAddr, socketPath := c.socketPath }

end ClientConfig

end RemoteCalc
