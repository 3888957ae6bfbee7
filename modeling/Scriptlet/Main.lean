import Scriptlet.Front.Console

/-!
# The command line

`-e CODE` (or `--eval CODE`) runs a script given as an argument, a file name runs the script in the
file, and no argument starts an interactive session.  What is run and what is answered is decided in
`Command.ofArguments`, `runScript`, `runFile` and `takeTurn`; here their answers are written to the
standard streams.
-/

namespace Scriptlet

/-- Writes what a run wrote and ends with its exit code. -/
def replay (t : Transcript) : IO UInt32 := do
  IO.print t.stdout
  IO.eprint t.stderr
  return t.code.toUInt32

/-- The reason that the system gives for an error, and its number. -/
def systemError : IO.Error → ReadError
  | .alreadyExists _ code reason | .interrupted _ code reason | .noFileOrDirectory _ code reason
  | .invalidArgument _ code reason | .permissionDenied _ code reason
  | .resourceExhausted _ code reason | .inappropriateType _ code reason
  | .noSuchThing _ code reason | .otherError code reason | .resourceBusy code reason
  | .resourceVanished code reason | .unsupportedOperation code reason | .hardwareFault code reason
  | .unsatisfiedConstraints code reason | .illegalOperation code reason
  | .protocolError code reason | .timeExpired code reason => .refused reason code.toNat
  -- these two are not raised by the system
  | .unexpectedEof => .refused "end of file" 0
  | .userError reason => .refused reason 0

/-- The bytes of a file.  The file is opened before anything else is asked about it, so that an
error has the number that opening or reading it gave. -/
def readBytes (path : String) : IO (Except ReadError (List UInt8)) := do
  try
    let file ← IO.FS.Handle.mk path .read
    let bytes ← file.readBinToEnd
    return .ok bytes.toList
  catch e => return .error (systemError e)

/-- The bytes of the next line of input, with its line feed; `line` is what was read of it, last
byte first.  At the end of input there is nothing left to read. -/
partial def readLine (input : IO.FS.Stream) (line : List UInt8) : IO (List UInt8) := do
  match (← input.read 1).toList with
  | [] => return line.reverse
  | b :: _ => if b = 10 then return (b :: line).reverse else readLine input (b :: line)

/-- What is found at the next prompt. -/
def nextReading (input : IO.FS.Stream) : IO Reading := do
  try
    let line ← readLine input []
    return if line.isEmpty then .endOfInput else .ofLine (decodeText? line)
  catch e => return .failure (systemError e)

/-- Takes turns until one of them ends the session. -/
partial def dialogue (s : State) : IO UInt32 := do
  IO.print promptText
  (← IO.getStdout).flush
  let turn := takeTurn Eval.ample s (← nextReading (← IO.getStdin))
  IO.print turn.stdout
  IO.eprint turn.stderr
  match turn.next with
  | .ok s => dialogue s
  | .error code => return code.toUInt32

end Scriptlet

open Scriptlet in
def main (arguments : List String) : IO UInt32 := do
  match Command.ofArguments arguments with
  | .session =>
    IO.print banner
    dialogue .initial
  | .script source => replay (runScript Eval.ample source)
  | .file path => replay (runFile Eval.ample path (← readBytes path))
  | .misuse => replay usage
