import Worksheet.Command.Run

/-!
# The command line

Reads the files that the arguments name, runs the command, and writes what it answers.
-/

set_option autoImplicit false

namespace Worksheet.Command

def readFailure : IO.Error → String
  | .noFileOrDirectory .. => missingFile
  | error => toString error

def readPath (path : String) : IO (Except String String) := do
  match ← (IO.FS.readFile path).toBaseIO with
  | .ok content => return .ok content
  | .error error => return .error (readFailure error)

def findUserSettings : IO (Option String) := do
  let home := (← IO.getEnv "HOME").map (· ++ "/.config")
  match (← IO.getEnv "XDG_CONFIG_HOME") <|> home with
  | none => return none
  | some folder =>
      let path := folder ++ "/tablecalc/tablecalc.toml"
      match ← readPath path with
      | .ok _ => return some path
      | .error reason => return if reason = missingFile then none else some path

/-- The surroundings of a run, with every file read that it may need. -/
def observe (arguments : List String) : IO Surroundings := do
  let unread : Surroundings :=
    { file := fun _ => .error missingFile, userSettings := ← findUserSettings }
  let files ← (filesOf unread arguments).mapM fun path => return (path, ← readPath path)
  return { unread with file := fun path => (files.lookup path).getD (.error missingFile) }

end Worksheet.Command

def main (arguments : List String) : IO UInt32 := do
  let outcome := Worksheet.Command.run (← Worksheet.Command.observe arguments) arguments
  (← IO.getStdout).putStr (String.ofList outcome.output)
  (← IO.getStderr).putStr (String.ofList outcome.diagnostics)
  return outcome.code.toUInt32
