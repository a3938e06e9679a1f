/-!
# Options of the command

The arguments of the command are read from left to right. An option that takes a value takes the
next argument, whatever it looks like. Formulas add up, of two files for one purpose the last
counts, and a switch is on or off. Help comes first: it is given as soon as an argument asks for it.
-/

set_option autoImplicit false

namespace Worksheet.Command

structure Options where
  formulas : List String := []
  tablePath : Option String := none
  settingsPath : Option String := none
  /-- Whether the first line of the table is data. -/
  headless : Bool := false
  /-- Whether formulas are only checked. -/
  checks : Bool := false
  json : Bool := false
  listsFunctions : Bool := false
  /-- Whether the user's own settings do not count. -/
  ignoresUserSettings : Bool := false
deriving DecidableEq, Repr

inductive Invocation where
  | help
  | run (options : Options)
deriving DecidableEq, Repr

inductive UsageError where
  | formulaMissing
  | tablePathMissing
  | settingsPathMissing
  | unknownOption (argument : String)
  | unexpectedArgument (argument : String)
  | nothingToDo
deriving DecidableEq, Repr

def UsageError.message : UsageError → String
  | formulaMissing => "--command requires a formula"
  | tablePathMissing => "--csv requires a file path"
  | settingsPathMissing => "--config requires a file path"
  | unknownOption argument => "Unknown option: " ++ argument
  | unexpectedArgument argument => "Unexpected argument: " ++ argument
  | nothingToDo => "nothing to do: pass a formula with -c"

/-- An option that takes the next argument. -/
inductive Parameter where
  | formula
  | tablePath
  | settingsPath
deriving DecidableEq, Repr

inductive Switch where
  | headless
  | checks
  | json
  | listsFunctions
  | ignoresUserSettings
deriving DecidableEq, Repr

inductive Flag where
  | help
  | parameter (parameter : Parameter)
  | switch (switch : Switch)
deriving DecidableEq, Repr

def Flag.ofArgument? : String → Option Flag
  | "-h" => some .help
  | "--help" => some .help
  | "-c" => some (.parameter .formula)
  | "--command" => some (.parameter .formula)
  | "--csv" => some (.parameter .tablePath)
  | "--config" => some (.parameter .settingsPath)
  | "--no-header" => some (.switch .headless)
  | "--validate" => some (.switch .checks)
  | "--json" => some (.switch .json)
  | "--functions" => some (.switch .listsFunctions)
  | "--no-default-config" => some (.switch .ignoresUserSettings)
  | _ => none

def Parameter.missing : Parameter → UsageError
  | formula => .formulaMissing
  | tablePath => .tablePathMissing
  | settingsPath => .settingsPathMissing

def UsageError.ofArgument (argument : String) : UsageError :=
  if argument.toList.head? = some '-' then unknownOption argument else unexpectedArgument argument

namespace Options

def set (options : Options) (parameter : Parameter) (value : String) : Options :=
  match parameter with
  | .formula => { options with formulas := options.formulas ++ [value] }
  | .tablePath => { options with tablePath := some value }
  | .settingsPath => { options with settingsPath := some value }

def turnOn (options : Options) : Switch → Options
  | .headless => { options with headless := true }
  | .checks => { options with checks := true }
  | .json => { options with json := true }
  | .listsFunctions => { options with listsFunctions := true }
  | .ignoresUserSettings => { options with ignoresUserSettings := true }

def isIdle (options : Options) : Bool :=
  options.formulas.isEmpty && !options.listsFunctions

end Options

def Invocation.read (options : Options) : List String → Except UsageError Invocation
  | [] => if options.isIdle then .error .nothingToDo else .ok (.run options)
  | argument :: rest =>
      match Flag.ofArgument? argument with
      | none => .error (.ofArgument argument)
      | some .help => .ok .help
      | some (.switch switch) => read (options.turnOn switch) rest
      | some (.parameter parameter) =>
          match rest with
          | [] => .error parameter.missing
          | value :: rest => read (options.set parameter value) rest

def Invocation.ofArguments (arguments : List String) : Except UsageError Invocation :=
  read {} arguments

end Worksheet.Command
