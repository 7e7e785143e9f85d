import RateDesk.CommandLine

/-!
# The program

The program reads its input, draws a random key for the identifiers, and writes
what `CommandLine.answer` says.
-/

namespace RateDesk

/-- Read the standard input to its end. -/
partial def readInput (input : IO.FS.Stream) (bytes : ByteArray) :
    IO ByteArray := do
  let more ← input.read 65536
  if more.isEmpty then return bytes else readInput input (bytes ++ more)

/-- The bytes of the submission, if they can be had. -/
def readSubmission (call : CommandLine) : IO (Option ByteArray) := do
  try
    match call.file with
    | some path => return some (← IO.FS.readBinFile path)
    | none => return some (← readInput (← IO.getStdin) ByteArray.empty)
  catch _ => return none

/-- Answer a call of the command line. -/
def runProgram (args : List String) : IO UInt32 := do
  match CommandLine.read? args with
  | none =>
      (← IO.getStderr).putStrLn "usage: fxql [FILE] [--format json|csv]"
      return UInt32.ofNat CommandLine.usageExitCode
  | some call =>
      let key := KeyStream.Key.ofBytes (← IO.getRandomBytes 32).toList
      let outcome := call.answer (IdSource.ofKey key) (← readSubmission call)
      (← IO.getStdout).putStr outcome.written.out
      (← IO.getStderr).putStr outcome.written.err
      return UInt32.ofNat outcome.exitCode

end RateDesk

/-- The entry point. -/
def main (args : List String) : IO UInt32 :=
  RateDesk.runProgram args
