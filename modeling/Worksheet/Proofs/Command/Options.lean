import Mathlib
import Worksheet.Command.Options

/-!
# Options in groups

Written out, options are groups of arguments: an option with the value behind it, whatever that
looks like, or a switch alone. Reading the arguments applies one group after the other. Of the
options read, the formulas come from some groups and everything else from the others.
-/

set_option autoImplicit false

namespace Worksheet.Command

def Parameter.words : Parameter → List String
  | formula => ["-c", "--command"]
  | tablePath => ["--csv"]
  | settingsPath => ["--config"]

def Switch.word : Switch → String
  | headless => "--no-header"
  | checks => "--validate"
  | json => "--json"
  | listsFunctions => "--functions"
  | ignoresUserSettings => "--no-default-config"

theorem Flag.ofArgument?_of_mem_words {parameter : Parameter} {word : String}
    (known : word ∈ parameter.words) : Flag.ofArgument? word = some (.parameter parameter) := by
  cases parameter with
  | formula =>
      rcases List.mem_pair.mp known with rfl | rfl
      · rfl
      · rfl
  | tablePath =>
      obtain rfl := List.mem_singleton.mp known
      rfl
  | settingsPath =>
      obtain rfl := List.mem_singleton.mp known
      rfl

theorem Flag.ofArgument?_word (switch : Switch) :
    Flag.ofArgument? switch.word = some (.switch switch) := by
  cases switch <;> rfl

/-- An option as it is written. -/
inductive Group where
  | parameter (parameter : Parameter) (word : String) (known : word ∈ parameter.words)
      (value : String)
  | switch (switch : Switch)
deriving DecidableEq

namespace Group

def arguments : Group → List String
  | .parameter _ word _ value => [word, value]
  | .switch which => [which.word]

def formula? : Group → Option String
  | .parameter .formula _ _ value => some value
  | _ => none

end Group

def Options.apply (options : Options) : Group → Options
  | .parameter parameter _ _ value => options.set parameter value
  | .switch which => options.turnOn which

def argumentsOf (groups : List Group) : List String :=
  groups.flatMap Group.arguments

def Options.ofGroups (groups : List Group) : Options :=
  groups.foldl Options.apply {}

theorem Invocation.read_group (options : Options) (group : Group) (rest : List String) :
    Invocation.read options (group.arguments ++ rest) = Invocation.read (options.apply group) rest := by
  cases group with
  | parameter parameter word known value =>
      simp only [Group.arguments, List.cons_append, List.nil_append, Invocation.read,
        Flag.ofArgument?_of_mem_words known, Options.apply]
  | switch switch =>
      simp only [Group.arguments, List.singleton_append, Invocation.read, Flag.ofArgument?_word,
        Options.apply]

theorem Invocation.read_groups (options : Options) (groups : List Group) (rest : List String) :
    Invocation.read options (argumentsOf groups ++ rest) =
      Invocation.read (groups.foldl Options.apply options) rest := by
  induction groups generalizing options with
  | nil => rfl
  | cons group groups ih =>
      rw [argumentsOf, List.flatMap_cons, List.append_assoc, read_group]
      exact ih (options.apply group)

theorem Invocation.ofArguments_groups (groups : List Group) :
    Invocation.ofArguments (argumentsOf groups) =
      if (Options.ofGroups groups).isIdle then .error .nothingToDo
      else .ok (.run (Options.ofGroups groups)) := by
  have read := Invocation.read_groups {} groups []
  rw [List.append_nil] at read
  exact read

def formulasOf (groups : List Group) : List String :=
  groups.filterMap Group.formula?

def fixedOf (groups : List Group) : List Group :=
  groups.filter fun group => group.formula?.isNone

namespace Options

def withFormulas (options : Options) (formulas : List String) : Options :=
  { options with formulas }

theorem apply_withFormulas (options : Options) (formulas : List String) {group : Group}
    (fixed : group.formula? = none) :
    (options.withFormulas formulas).apply group = (options.apply group).withFormulas formulas := by
  cases group with
  | parameter parameter word known value =>
      cases parameter with
      | formula => cases fixed
      | tablePath => rfl
      | settingsPath => rfl
  | switch switch => cases switch <;> rfl

theorem apply_formula (options : Options) (formulas : List String) {group : Group}
    {formula : String} (given : group.formula? = some formula) :
    (options.withFormulas formulas).apply group = options.withFormulas (formulas ++ [formula]) := by
  cases group with
  | parameter parameter word known value =>
      cases parameter with
      | formula =>
          obtain rfl := Option.some.inj given
          rfl
      | tablePath => cases given
      | settingsPath => cases given
  | switch switch => cases given

theorem foldl_apply (options : Options) (formulas : List String) (groups : List Group) :
    groups.foldl apply (options.withFormulas formulas) =
      ((fixedOf groups).foldl apply options).withFormulas (formulas ++ formulasOf groups) := by
  induction groups generalizing options formulas with
  | nil => rw [formulasOf, List.filterMap_nil, List.append_nil]; rfl
  | cons group groups ih =>
      rw [List.foldl_cons]
      cases given : group.formula? with
      | none =>
          have fixed : fixedOf (group :: groups) = group :: fixedOf groups :=
            List.filter_cons_of_pos (by rw [given]; rfl)
          have others : formulasOf (group :: groups) = formulasOf groups :=
            List.filterMap_cons_none given
          rw [apply_withFormulas options formulas given, ih, fixed, List.foldl_cons, others]
      | some formula =>
          have skipped : fixedOf (group :: groups) = fixedOf groups :=
            List.filter_cons_of_neg (by rw [given]; exact Bool.false_ne_true)
          have first : formulasOf (group :: groups) = formula :: formulasOf groups :=
            List.filterMap_cons_some given
          rw [apply_formula options formulas given, ih, skipped, first, List.append_assoc,
            List.singleton_append]

theorem ofGroups_eq (groups : List Group) :
    ofGroups groups = (ofGroups (fixedOf groups)).withFormulas (formulasOf groups) :=
  foldl_apply {} [] groups

def isOn (options : Options) : Switch → Bool
  | .headless => options.headless
  | .checks => options.checks
  | .json => options.json
  | .listsFunctions => options.listsFunctions
  | .ignoresUserSettings => options.ignoresUserSettings

theorem isOn_apply (options : Options) (group : Group) (which : Switch) :
    (options.apply group).isOn which = true ↔
      options.isOn which = true ∨ group = .switch which := by
  cases group with
  | parameter parameter word known value =>
      simp only [reduceCtorEq, or_false]
      cases parameter <;> cases which <;> rfl
  | switch turned => cases turned <;> cases which <;> simp [apply, turnOn, isOn]

theorem isOn_ofGroups (groups : List Group) (which : Switch) :
    (ofGroups groups).isOn which = true ↔ Group.switch which ∈ groups := by
  have onTop (options : Options) : (groups.foldl apply options).isOn which = true ↔
      options.isOn which = true ∨ Group.switch which ∈ groups := by
    induction groups generalizing options with
    | nil => simp
    | cons group groups ih =>
        rw [List.foldl_cons, ih, isOn_apply, List.mem_cons, or_assoc, @eq_comm _ group]
  have off : ({} : Options).isOn which = false := by cases which <;> rfl
  simp [ofGroups, onTop, off]

end Options

end Worksheet.Command
