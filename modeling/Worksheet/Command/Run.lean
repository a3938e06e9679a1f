import Worksheet.Command.Options
import Worksheet.Command.Report
import Worksheet.Settings.Reading
import Worksheet.Table.Reading

/-!
# Running the command

A run reads settings and a table, answers the formulas, and succeeds if every formula does. The
files arrive as a function, so a run is a function too: from the arguments and the files to what
is written and the exit code. Settings are read first, so nothing is written before they are known
to be right; a table is read only if formulas are to be evaluated.
-/

set_option autoImplicit false

namespace Worksheet.Command

/-- What a run sees of the world: the contents of files, or why a file cannot be read, and the path
of the user's own settings, if there are any. -/
structure Surroundings where
  file : String → Except String String
  userSettings : Option String := none

def missingFile : String :=
  "No such file or directory (os error 2)"

structure Outcome where
  output : List Char := []
  diagnostics : List Char := []
  code : Nat := 0
deriving DecidableEq, Repr

inductive RunError where
  | settingsUnreadable (path reason : String)
  | settingsInvalid (path : String) (error : SettingsError)
  | tableUnreadable (path reason : String)
  | tableInvalid (path : String) (error : TableError)
deriving DecidableEq, Repr

def RunError.message : RunError → String
  | settingsUnreadable path reason => "failed to read config " ++ path ++ ": " ++ reason
  | settingsInvalid path error => "invalid config " ++ path ++ ": " ++ error.message
  | tableUnreadable path reason =>
      "failed to load " ++ path ++ ": IO error: " ++ reason ++ ": " ++ reason
  | tableInvalid path error => "failed to load " ++ path ++ ": " ++ error.message

def usage : List String :=
  ["Usage: tablecalc [OPTIONS]",
    "",
    "Options:",
    "  -c, --command <FORMULA>   Evaluate a formula (can be repeated)",
    "  --csv <FILE>              Table to evaluate against",
    "  --no-header               Treat the first CSV line as data",
    "  --validate                Check formulas without evaluating them",
    "  --json                    Print results as JSON",
    "  --functions               List available functions",
    "  --config <FILE>           Load engine settings from a TOML file",
    "  --no-default-config       Ignore the user's tablecalc.toml",
    "  -h, --help                Print help"]

def usageText : List Char :=
  usage.flatMap fun line => asLine line.toList

def errorLine (message : String) : List Char :=
  asLine ("Error: " ++ message).toList

/-- The path of the settings that count: those asked for, or else the user's own. -/
def settingsPath? (surroundings : Surroundings) (options : Options) : Option String :=
  match options.settingsPath with
  | some path => some path
  | none => if options.ignoresUserSettings then none else surroundings.userSettings

def loadSettings (surroundings : Surroundings) (options : Options) :
    Except RunError Settings :=
  match settingsPath? surroundings options with
  | none => .ok {}
  | some path =>
      match surroundings.file path with
      | .error reason => .error (.settingsUnreadable path reason)
      | .ok content => (Settings.ofText content.toList).mapError (.settingsInvalid path)

def loadTable (surroundings : Surroundings) (options : Options) : Except RunError Table :=
  match options.tablePath with
  | none => .ok {}
  | some path =>
      match surroundings.file path with
      | .error reason => .error (.tableUnreadable path reason)
      | .ok content =>
          (Table.ofText (!options.headless) content.toList).mapError (.tableInvalid path)

def listing (options : Options) (calculator : Calculator) : List Char :=
  let functions := calculator.registry.listing
  if !options.listsFunctions then []
  else if options.json then asLine ((functionsJson functions).render 0)
  else functions.flatMap functionLine

def checkAnswers (options : Options) (calculator : Calculator) : List Char × Bool :=
  let checks := calculator.checkAll (options.formulas.map String.toList)
  let answers :=
    if options.json then asLine ((answersJson options.formulas (checks.map checkJson)).render 0)
    else checks.flatMap checkLine
  (answers, checks.all List.isEmpty)

def valueAnswers (options : Options) (calculator : Calculator) (table : Table) :
    List Char × Bool :=
  let results := calculator.evaluateAll table.grid (options.formulas.map String.toList)
  let answers :=
    if options.json then
      asLine ((answersJson options.formulas (results.map outcomeJson)).render 0)
    else results.flatMap valueLine
  (answers, results.all Except.isOk)

/-- What a run answers after the listing, and whether all is well. -/
def answers (surroundings : Surroundings) (options : Options) (calculator : Calculator) :
    Except RunError (List Char × Bool) :=
  if options.formulas.isEmpty then .ok ([], true)
  else if options.checks then .ok (checkAnswers options calculator)
  else (loadTable surroundings options).map (valueAnswers options calculator)

def runOptions (surroundings : Surroundings) (options : Options) : Outcome :=
  match loadSettings surroundings options with
  | .error error => { diagnostics := errorLine error.message, code := 1 }
  | .ok settings =>
      let calculator : Calculator := { settings }
      let listed := listing options calculator
      match answers surroundings options calculator with
      | .error error => { output := listed, diagnostics := errorLine error.message, code := 1 }
      | .ok (content, isWell) => { output := listed ++ content, code := if isWell then 0 else 1 }

def run (surroundings : Surroundings) (arguments : List String) : Outcome :=
  match Invocation.ofArguments arguments with
  | .error error => { diagnostics := errorLine error.message ++ usageText, code := 1 }
  | .ok .help => { diagnostics := usageText }
  | .ok (.run options) => runOptions surroundings options

def filesOf (surroundings : Surroundings) (arguments : List String) : List String :=
  match Invocation.ofArguments arguments with
  | .ok (.run options) =>
      (settingsPath? surroundings options).toList ++ options.tablePath.toList
  | _ => []

end Worksheet.Command
