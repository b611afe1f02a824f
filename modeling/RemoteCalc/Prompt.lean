import RemoteCalc.Client.Link
import RemoteCalc.Expression

/-! The calculator's prompt, and the evaluation of a single expression. -/

namespace RemoteCalc

structure Transcript where
  out : String
  err : String
deriving DecidableEq, Repr

namespace Transcript

def empty : Transcript := ⟨"", ""⟩

def print (t : Transcript) (s : String) : Transcript := { t with out := t.out ++ s }

def printError (t : Transcript) (s : String) : Transcript := { t with err := t.err ++ s ++ "\n" }

end Transcript

structure ProgramRun where
  transcript : Transcript
  code : Nat
deriving DecidableEq, Repr

inductive PromptInput where
  | expression (line : Text)
  | lines (input : Bytes)

structure Prompt where
  link : Link
  transcript : Transcript

namespace Prompt

def marker : String := "? (type quit to exit) "

def farewell : String := "Bye.\n"

/-- How a response is printed: its result with six places. -/
def describe (r : Response) : String :=
  "req(" ++ String.ofList (Decimal.printInt32 r.id) ++ ") > status: " ++ r.status.name
    ++ ", result: " ++ String.ofList (Decimal.fixed 6 r.result) ++ "\n"

def print (p : Prompt) (s : String) : Prompt := { p with transcript := p.transcript.print s }

def printError (p : Prompt) (s : String) : Prompt :=
  { p with transcript := p.transcript.printError s }

/-- Evaluates one line; the second part says whether that went well. -/
def evaluate (p : Prompt) (line : Text) : Prompt × Bool :=
  match Expression.ofLine line with
  | .error e => (p.printError e.message, false)
  | .ok .quit => (p, true)
  | .ok (.call method a b) =>
    match p.link.call method a b with
    | (link, .ok r) => ({ p with link }.print (describe r), r.isOk)
    | (link, .error e) => ({ p with link }.printError ("Request failed: " ++ e.message), false)

/-- Evaluates a line and prompts for the next, unless the line says to quit or is not text. -/
def step? (p : Prompt) (line : Bytes) : Option Prompt :=
  match Utf8.decode? line with
  | none => none
  | some line =>
    if line.trim = [] then some (p.print marker)
    else match Expression.ofLine line with
      | .ok .quit => none
      | _ => some ((p.evaluate line).1.print marker)

def interact (p : Prompt) : List Bytes → Prompt
  | [] => p
  | line :: lines =>
    match p.step? line with
    | none => p
    | some p => interact p lines

/-- The lines of an input; the last need not be ended. -/
def linesOf (input : Bytes) : List Bytes :=
  let pieces := cut 0x0A input
  if pieces.getLast? = some [] then pieces.dropLast else pieces

def run (link : Link) : PromptInput → Prompt × Nat
  | .expression line =>
    let (p, good) := evaluate ⟨link, .empty⟩ line
    (p, if good then 0 else 1)
  | .lines input =>
    let p : Prompt := ⟨link, .empty⟩
    (((p.print marker).interact (linesOf input)).print farewell, 0)

/-- A whole run that starts by connecting; the server is left as the run leaves it. -/
def runFrom (h : Host) (config : ClientConfig) (site : Site) (input : PromptInput) :
    ProgramRun × Site :=
  match Client.connect h config with
  | .error e => (⟨Transcript.empty.printError ("Could not connect: " ++ e.message), 1⟩, site)
  | .ok client =>
    let (p, code) := run ⟨client, site.counterpart⟩ input
    (⟨p.transcript, code⟩, site.after p.link.peer)

end Prompt

end RemoteCalc
