import PipeQuery.CommandLine.Execute

/-!
# The program

Reads the standard input where a query needs it, and writes what
`CommandLine.respond` says.
-/

open PipeQuery

/-- Whether the program has to read the standard input. -/
def needsInput (args : List String) : Bool :=
  match CommandLine.Command.ofArguments args with
  | some (.run opts) => !opts.syntaxOnly && opts.input.isNone
  | _ => false

/-- Everything on a stream, after `text`. -/
partial def readAll (stream : IO.FS.Stream) (text : String) : IO String := do
  let line ← stream.getLine
  if line.isEmpty then return text else readAll stream (text ++ line)

def main (args : List String) : IO UInt32 := do
  let input ← if needsInput args then readAll (← IO.getStdin) "" else pure ""
  let response := CommandLine.respond args input
  (← IO.getStdout).putStr response.output
  (← IO.getStderr).putStr response.errors
  return UInt32.ofNat response.code
