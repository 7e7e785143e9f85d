import RateDesk.Reply

/-!
# The command line

`fxql [FILE] [--format json|csv]` reviews the submission in a file, or on the
standard input if there is no file or it is called `-`, and writes the reply.
-/

namespace RateDesk

/-- How the reply is written. -/
inductive Format
  | json
  /-- A table with comma-separated columns. -/
  | csv
deriving DecidableEq, Repr

/-- The format of the given name. -/
def Format.ofName? : String → Option Format
  | "json" => some .json
  | "csv" => some .csv
  | _ => none

/-- Write a reply in a format. -/
def Format.write (format : Format) (r : Reply) : Written :=
  match format with
  | .json => r.writeJson
  | .csv => r.writeTable

/-- What a call of the command line asks for. -/
structure CommandLine where
  /-- The file with the submission; none means the standard input. -/
  file : Option String
  format : Format
deriving DecidableEq, Repr

namespace CommandLine

/-- The arguments taken in so far. -/
structure Arguments where
  file : Option String
  format : Option Format

/-- Take in a file name; there can be only one, and it is not empty. -/
def Arguments.addFile (a : Arguments) (arg : String) : Option Arguments :=
  if a.file.isSome || arg.isEmpty then none
  else some { a with file := some arg }

/-- Take in the name of a format; there can be only one. -/
def Arguments.addFormat (a : Arguments) (value : String) : Option Arguments :=
  if a.format.isSome then none
  else (Format.ofName? value).map fun format => { a with format := some format }

/-- Take in arguments behind the end of the options. -/
def readFiles : Arguments → List String → Option Arguments
  | a, [] => some a
  | a, arg :: rest => do readFiles (← a.addFile arg) rest

/-- The option that names the format, with its value in the same argument. -/
def inlineFormat? (arg : String) : Option String :=
  let mark := "--format=".toList
  if mark.isPrefixOf arg.toList then
    some (String.ofList (arg.toList.drop mark.length))
  else none

/-- Take in arguments.  Anything that starts with a dash is an option, except
for a single dash; two dashes end the options. -/
def readArguments : Arguments → List String → Option Arguments
  | a, [] => some a
  | a, "--" :: rest => readFiles a rest
  | _, ["--format"] => none
  | a, "--format" :: value :: rest =>
      do readArguments (← a.addFormat value) rest
  | a, arg :: rest =>
      match inlineFormat? arg with
      | some value => do readArguments (← a.addFormat value) rest
      | none =>
          if arg ≠ "-" ∧ arg.toList.head? = some '-' then none
          else do readArguments (← a.addFile arg) rest

/-- The meaning of the arguments, or nothing if they are wrong. -/
def read? (args : List String) : Option CommandLine := do
  let a ← readArguments ⟨none, none⟩ args
  return ⟨a.file.filter (· ≠ "-"), a.format.getD .json⟩

/-- What a call writes and the code it ends with. -/
structure Outcome where
  written : Written
  /-- Zero if the submission went through. -/
  exitCode : Nat
deriving DecidableEq, Repr

/-- The code for wrong arguments. -/
def usageExitCode : Nat := 2

/-- A call whose submission cannot be read writes nothing. -/
def unreadable : Outcome := ⟨⟨"", ""⟩, 1⟩

/-- Review the text of a submission at a fresh desk and write the reply. -/
def run (format : Format) (ids : IdSource) (raw : String) : Outcome :=
  let reply := Reply.ofResult ((Desk.fresh ids).process raw).result
  ⟨format.write reply, if reply.isSuccess then 0 else 1⟩

/-- Answer a call, given the bytes of its submission if they can be had. -/
def answer (call : CommandLine) (ids : IdSource)
    (bytes : Option ByteArray) : Outcome :=
  match bytes.bind String.fromUTF8? with
  | none => unreadable
  | some raw => run call.format ids raw

end CommandLine

end RateDesk
