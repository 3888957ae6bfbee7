import Scriptlet.Front.Script
import Scriptlet.Text.Blank
import Scriptlet.Text.Lines

/-!
# The console

What appears on the standard streams, and the exit code, when a script is given on the command line,
when it is read from a file, and in the interactive session; and which of these a command line asks
for.  The interactive session is one step, `takeTurn`, taken for each thing read at a prompt.

Logging, and the help and version texts of the command line, are not covered.
-/

namespace Scriptlet

/-- What a program run from a shell writes and how it ends. -/
structure Transcript where
  stdout : String
  stderr : String
  code : Nat
  deriving DecidableEq

namespace Transcript

/-- What is written before the rest. -/
def after (stdout stderr : String) (t : Transcript) : Transcript :=
  ⟨stdout ++ t.stdout, stderr ++ t.stderr, t.code⟩

end Transcript

/-- Lines of text, each ended by a line feed. -/
def lineText (lines : List String) : String := String.join (lines.map (· ++ "\n"))

/-- The report on a run that gave no value. -/
def ScriptError.report : ScriptError → String
  | .diagnostics ds => lineText ("Parse errors:" :: ds.map fun d => "  " ++ d.message)
  | .halted h => lineText ["Error: " ++ h.message]

/-! ## Scripts -/

/-- Runs a script in a new session; its value is not shown. -/
def runScript (fuel : Nat) (source : String) : Transcript :=
  match evaluateText fuel source .initial with
  | (.ok _, s) => ⟨lineText s.output.toList, "", 0⟩
  | (.error e, s) => ⟨lineText s.output.toList, e.report, 1⟩

/-- Why something could not be read: the system refused it, for a reason that has a number, or what
was read is not valid UTF-8. -/
inductive ReadError where
  | refused (reason : String) (code : Nat)
  | invalidText
  deriving DecidableEq

namespace ReadError

def message : ReadError → String
  | .refused reason code => reason ++ " (os error " ++ toString code ++ ")"
  | .invalidText => "stream did not contain valid UTF-8"

end ReadError

/-- The text of a file, given its bytes or why there are none. -/
def readFile (content : Except ReadError (List UInt8)) : Except ReadError String :=
  match content with
  | .error e => .error e
  | .ok bytes =>
    match decodeText? bytes with
    | none => .error .invalidText
    | some text => .ok text

/-- Runs the script in a file. -/
def runFile (fuel : Nat) (path : String) (content : Except ReadError (List UInt8)) : Transcript :=
  match readFile content with
  | .ok source => runScript fuel source
  | .error e =>
    ⟨"", lineText ["Failed to read the input file '" ++ path ++ "': " ++ e.message], 1⟩

/-! ## The interactive session -/

def banner : String :=
  lineText ["Welcome to mylang!", "Type expressions to evaluate. Type 'exit' to quit.", ""]

def promptText : String := ">> "

/-- What is found at a prompt. -/
inductive Reading where
  | line (text : String)
  | failure (e : ReadError)
  | endOfInput

namespace Reading

/-- A line of input, which may not be valid UTF-8. -/
def ofLine : Option String → Reading
  | some text => .line text
  | none => .failure .invalidText

end Reading

/-- What a reading leads to: what is written, and the session to go on with, or the exit code. -/
structure Turn where
  stdout : String
  stderr : String
  next : Except Nat State

namespace Turn

/-- The turn behind its prompt, and what the session that goes on writes then. -/
def followedBy (turn : Turn) (rest : State → Transcript) : Transcript :=
  match turn.next with
  | .ok s => (rest s).after (promptText ++ turn.stdout) turn.stderr
  | .error code => ⟨promptText ++ turn.stdout, turn.stderr, code⟩

end Turn

/-- Evaluates a line in a session and shows its value. -/
def evaluateLine (fuel : Nat) (s : State) (line : String) : Turn :=
  match evaluateText fuel line { s with output := #[] } with
  | (.ok v, s) => ⟨lineText (s.output.toList ++ [v.render]), "", .ok s⟩
  | (.error e, s) => ⟨lineText s.output.toList, e.report, .ok s⟩

/-- Answers what was read. -/
def takeTurn (fuel : Nat) (s : State) : Reading → Turn
  | .endOfInput => ⟨lineText [""], "", .error 0⟩
  | .failure e => ⟨"", lineText ["Error: " ++ e.message], .error 1⟩
  | .line text =>
    let trimmed := String.ofList (trimWhiteSpace text.toList)
    if trimmed = "" then ⟨"", "", .ok s⟩
    else if trimmed = "exit" ∨ trimmed = "quit" then ⟨lineText ["Goodbye!"], "", .error 0⟩
    else evaluateLine fuel s trimmed

/-- The dialogue over some lines of input, behind which the input ends. -/
def converse (fuel : Nat) (s : State) : List (Option String) → Transcript
  | [] => (takeTurn fuel s .endOfInput).followedBy fun _ => ⟨"", "", 0⟩
  | line :: lines => (takeTurn fuel s (.ofLine line)).followedBy fun s => converse fuel s lines

/-- The interactive session on a stream of input. -/
def runInteractive (fuel : Nat) (input : List UInt8) : Transcript :=
  (converse fuel .initial (textLines input)).after banner ""

/-! ## The command line -/

/-- What a command line asks for. -/
inductive Command where
  | session
  | script (source : String)
  | file (path : String)
  | misuse
  deriving DecidableEq

namespace Command

/-- Whether an argument is taken for an option, so that it is neither a file nor a code. -/
def isOption (argument : String) : Bool :=
  match argument.toList with
  | '-' :: _ :: _ => true
  | _ => false

/-- A single argument: an option with its code attached, or a file. -/
def ofArgument (argument : String) : Command :=
  match argument.toList with
  | '-' :: '-' :: 'e' :: 'v' :: 'a' :: 'l' :: '=' :: code => .script (String.ofList code)
  | '-' :: 'e' :: '=' :: code => .script (String.ofList code)
  | '-' :: 'e' :: c :: code => .script (String.ofList (c :: code))
  | cs => if cs = [] ∨ isOption argument then .misuse else .file argument

def ofArguments : List String → Command
  | [] => .session
  | [argument] => ofArgument argument
  | [option, code] =>
    if (option = "-e" ∨ option = "--eval") ∧ ¬ isOption code then .script code else .misuse
  | _ => .misuse

end Command

def usage : Transcript := ⟨"", lineText ["usage: [-e CODE | FILE]"], 2⟩

end Scriptlet
