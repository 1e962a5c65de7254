import RustLexer.Command.Arguments

/-! # The program

Reads the one source that the options ask for, runs the command, and writes its outputs.
-/

namespace RustLexer

/-- The text that the system has for an error. -/
def errorText : IO.Error → String
  | .alreadyExists _ _ text | .interrupted _ _ text | .noFileOrDirectory _ _ text
  | .invalidArgument _ _ text | .permissionDenied _ _ text | .resourceExhausted _ _ text
  | .inappropriateType _ _ text | .noSuchThing _ _ text | .otherError _ text | .resourceBusy _ text
  | .resourceVanished _ text | .unsupportedOperation _ text | .hardwareFault _ text
  | .unsatisfiedConstraints _ text | .illegalOperation _ text | .protocolError _ text
  | .timeExpired _ text | .userError text => text
  | .unexpectedEof => "end of file"

/-- Reads all of an input. The text of an error is given the capital letter that the system writes it with. -/
def readAll (read : IO ByteArray) : BaseIO ReadResult := do
  match ← read.toBaseIO with
  | .ok content => return .ok content.toList
  | .error error => return .error (errorText error).capitalize.toUTF8.toList

/-- Reads what a run of the command can ask for: the standard input if it is the input, or the file at
the path of the input. -/
def readInputs (options : Options) : IO Inputs := do
  let nothing : Inputs := { stdin := .ok [], file? := fun _ => (none : Option Bytes) }
  if options.expression.isSome then
    return nothing
  else if options.input = Bytes.ofAscii "-" then
    let stdin ← readAll (do (← IO.getStdin).readBinToEnd)
    return { nothing with stdin }
  else
    match String.fromUTF8? (ByteArray.mk options.input.toArray) with
    | none => return nothing
    | some path =>
      let content ← readAll (IO.FS.readBinFile path)
      return { nothing with file? := fun _ => content }

/-- Writes bytes to an output. -/
def writeBytes (stream : IO.FS.Stream) (bytes : Bytes) : IO Unit :=
  stream.write (ByteArray.mk bytes.toArray)

/-- Runs the command on a list of arguments. -/
def runProgram (arguments : List String) : IO UInt32 := do
  match Options.ofArguments {} arguments with
  | .error error =>
    IO.eprintln ("lexemize: " ++ error.message)
    return 1
  | .ok options =>
    let outcome := run options (← readInputs options)
    writeBytes (← IO.getStdout) outcome.stdout
    writeBytes (← IO.getStderr) outcome.stderr
    return outcome.exit.toUInt32

end RustLexer

def main (arguments : List String) : IO UInt32 :=
  RustLexer.runProgram arguments
