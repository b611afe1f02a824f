import RemoteCalc.Prompt

/-!
The program: evaluates the expression given as its argument, or the lines of its standard input. It
talks to a server of its own that lives as long as the program does.
-/

namespace RemoteCalc

structure Arguments where
  config : ClientConfig := {}
  expression : Option String := none

namespace Arguments

/-- Reads options, each with its value, and at most one expression. -/
def ofList (a : Arguments) : List String → Except String Arguments
  | [] => .ok a
  | "--" :: [e] => .ok { a with expression := some e }
  | option :: value :: rest =>
    if option = "-t" ∨ option = "--transport" then
      match Transport.ofName value with
      | .ok transport => ofList { a with config := { a.config with transport } } rest
      | .error e => .error e.message
    else if option = "-a" ∨ option = "--server" then
      ofList { a with config := { a.config with serverAddr := value } } rest
    else if option = "-s" ∨ option = "--socket" then
      ofList { a with config := { a.config with socketPath := value } } rest
    else if option = "--timeout-ms" then
      match Decimal.readNat? value.toList with
      | some ms => ofList { a with config := { a.config with responseTimeoutMs := ms } } rest
      | none => .error ("invalid value '" ++ value ++ "' for '--timeout-ms'")
    else .error ("unexpected argument '" ++ value ++ "'")
  | [e] => .ok { a with expression := some e }

end Arguments

def Prompt.release (p : Prompt) : IO Prompt := do
  let stdout ← IO.getStdout
  stdout.putStr p.transcript.out
  stdout.flush
  (← IO.getStderr).putStr p.transcript.err
  return { p with transcript := .empty }

/-- Takes lines until the input ends or a line ends the dialogue. -/
partial def Prompt.dialogue (p : Prompt) : IO Unit := do
  let p ← p.release
  let line ← (← IO.getStdin).getLine
  if line.isEmpty then return
  match p.step? (Utf8.ofString line) with
  | some p => p.dialogue
  | none => return

def program (args : List String) : IO UInt32 := do
  match Arguments.ofList {} args with
  | .error e =>
    (← IO.getStderr).putStrLn e
    return 2
  | .ok a =>
    let site := Site.start { transport := a.config.transport }
    match Client.connect { entry := .socket true } a.config with
    | .error e =>
      (← IO.getStderr).putStrLn ("Could not connect: " ++ e.message)
      return 1
    | .ok client =>
      let link : Link := ⟨client, site.counterpart⟩
      match a.expression with
      | some e =>
        let (p, code) := Prompt.run link (.expression e.toList)
        let _ ← p.release
        return UInt32.ofNat code
      | none =>
        (Prompt.mk link (Transcript.empty.print Prompt.marker)).dialogue
        (← IO.getStdout).putStr Prompt.farewell
        return 0

end RemoteCalc

def main (args : List String) : IO UInt32 := RemoteCalc.program args
