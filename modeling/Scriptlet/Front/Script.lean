import Scriptlet.Eval.Run
import Scriptlet.Parse.Program

/-!
# Scripts

A script is a source text read as a whole.  If the text has stretches that are no tokens, those are
its diagnostics and nothing is parsed; otherwise its diagnostics are the syntax errors.  Only a
script without diagnostics is run, and each run starts from a new session.
-/

namespace Scriptlet

/-- Something wrong with a source text. -/
inductive Diagnostic where
  | lexical (e : LexicalError)
  | syntactic (e : SyntaxError)
  deriving DecidableEq

namespace Diagnostic

def message : Diagnostic → String
  | .lexical e => e.message
  | .syntactic e => e.message

end Diagnostic

/-- The statements that could be read, and what was wrong with the text. -/
structure Script where
  program : Block
  diagnostics : List Diagnostic

namespace Script

def parse (source : String) : Script :=
  let lexed := tokenize source.toList
  if lexed.errors.isEmpty then
    let parsed := parseProgram lexed.tokens
    ⟨parsed.statements, parsed.errors.map .syntactic⟩
  else ⟨[], lexed.errors.map .lexical⟩

def messages (script : Script) : List String := script.diagnostics.map Diagnostic.message

end Script

/-- Why a script gave no result. -/
inductive ScriptError where
  | diagnostics (ds : List Diagnostic)
  | halted (h : Halt)

namespace ScriptError

def message : ScriptError → String
  | .diagnostics ds => String.intercalate "\n" (ds.map Diagnostic.message)
  | .halted h => h.message

end ScriptError

/-- Runs a source text in a session and leaves the session as the run left it. -/
def evaluateText (fuel : Nat) (source : String) (s : State) : Except ScriptError Value × State :=
  let script := Script.parse source
  if script.diagnostics.isEmpty then
    match Eval.program fuel script.program s with
    | .ok v s => (.ok v, s)
    | .error h s => (.error (.halted h), s)
  else (.error (.diagnostics script.diagnostics), s)

/-- Runs a source text in a new session: the text of its value, and the lines printed. -/
def runPrinting (fuel : Nat) (source : String) : Except ScriptError String × List String :=
  let (outcome, s) := evaluateText fuel source .initial
  (outcome.map Value.render, s.output.toList)

/-- The text of the value of a source text in a new session. -/
def run (fuel : Nat) (source : String) : Except ScriptError String := (runPrinting fuel source).1

/-- Everything a script left behind: the lines printed, the text of its value (empty if there is
none), and what went wrong. -/
structure Execution where
  output : List String
  result : String
  fault : Option String
  deriving DecidableEq

/-- Runs a source text in a new session and keeps what it printed. -/
def execute (fuel : Nat) (source : String) : Execution :=
  match evaluateText fuel source .initial with
  | (.ok v, s) => ⟨s.output.toList, v.render, none⟩
  | (.error e, s) => ⟨s.output.toList, "", some e.message⟩

end Scriptlet
