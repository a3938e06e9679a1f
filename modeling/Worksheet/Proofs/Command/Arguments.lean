import Mathlib
import Worksheet.Proofs.Command.Options

/-!
# What arguments are read as

Of any arguments a stretch of groups is read first. If nothing is left, the options are what the
groups say: all formulas in order, of two files for one purpose the last, and the switches that
occur. Otherwise the next argument stands where an option should and ends the reading: it asks for
help, it is an option without its value, or it is no option. Nothing behind it is looked at, but
what stands in the place of a value never ends the reading.

Reading by position, where an option with a value makes two steps and the name of the program
stands first, comes to the same.
-/

set_option autoImplicit false

namespace Worksheet.Command

def Group.value? (which : Parameter) : Group → Option String
  | .parameter given _ _ value => if given = which then some value else none
  | .switch _ => none

def valuesOf (which : Parameter) (groups : List Group) : List String :=
  groups.filterMap (Group.value? which)

theorem valuesOf_concat (which : Parameter) (groups : List Group) (group : Group) :
    valuesOf which (groups ++ [group]) = valuesOf which groups ++ (group.value? which).toList := by
  rw [valuesOf, List.filterMap_append]
  cases given : group.value? which <;> simp [given, valuesOf]

namespace Options

/-- The options that groups write: all formulas, the last file for each purpose, and the switches
that occur. -/
def written (groups : List Group) : Options where
  formulas := valuesOf .formula groups
  tablePath := (valuesOf .tablePath groups).getLast?
  settingsPath := (valuesOf .settingsPath groups).getLast?
  headless := decide (.switch .headless ∈ groups)
  checks := decide (.switch .checks ∈ groups)
  json := decide (.switch .json ∈ groups)
  listsFunctions := decide (.switch .listsFunctions ∈ groups)
  ignoresUserSettings := decide (.switch .ignoresUserSettings ∈ groups)

theorem written_concat (groups : List Group) (group : Group) :
    written (groups ++ [group]) = (written groups).apply group := by
  cases group with
  | parameter parameter word known value =>
      cases parameter <;> simp [written, valuesOf_concat, Group.value?, apply, set]
  | switch switch => cases switch <;> simp [written, valuesOf_concat, Group.value?, apply, turnOn]

theorem ofGroups_eq_written (groups : List Group) : ofGroups groups = written groups := by
  induction groups using List.reverseRecOn with
  | nil => rfl
  | append_singleton groups group ih =>
      rw [written_concat, ← ih, ofGroups, ofGroups, List.foldl_concat]

theorem isIdle_written (groups : List Group) :
    (written groups).isIdle = true ↔
      valuesOf .formula groups = [] ∧ .switch .listsFunctions ∉ groups := by
  simp [isIdle, written]

end Options

def helpWords : List String :=
  ["-h", "--help"]

namespace Flag

theorem ofArgument?_eq_help_iff {word : String} :
    ofArgument? word = some .help ↔ word ∈ helpWords := by
  constructor
  · intro asked
    unfold ofArgument? at asked
    split at asked <;> cases asked <;> decide
  · intro known
    rcases List.mem_pair.mp known with rfl | rfl <;> rfl

theorem mem_words_of_ofArgument? {parameter : Parameter} {word : String}
    (read : ofArgument? word = some (.parameter parameter)) : word ∈ parameter.words := by
  unfold ofArgument? at read
  split at read <;> cases read <;> decide

theorem eq_word_of_ofArgument? {switch : Switch} {word : String}
    (read : ofArgument? word = some (.switch switch)) : word = switch.word := by
  unfold ofArgument? at read
  split at read <;> cases read <;> rfl

end Flag

/-- These arguments end the reading with this result, in the place of an option. -/
inductive Ends : List String → Except UsageError Invocation → Prop
  | help {word : String} (known : word ∈ helpWords) (rest : List String) :
      Ends (word :: rest) (.ok .help)
  | valueMissing {parameter : Parameter} {word : String} (known : word ∈ parameter.words) :
      Ends [word] (.error parameter.missing)
  | noOption {argument : String} (other : Flag.ofArgument? argument = none) (rest : List String) :
      Ends (argument :: rest) (.error (.ofArgument argument))

namespace Invocation

theorem read_of_ends {arguments : List String} {result : Except UsageError Invocation}
    (ends : Ends arguments result) (options : Options) : read options arguments = result := by
  cases ends with
  | help known rest => simp only [read, Flag.ofArgument?_eq_help_iff.mpr known]
  | valueMissing known => simp only [read, Flag.ofArgument?_of_mem_words known]
  | noOption other rest => simp only [read, other]

theorem exists_groups (arguments : List String) :
    ∃ groups rest, arguments = argumentsOf groups ++ rest ∧
      (rest = [] ∨ ∃ result, Ends rest result) := by
  match arguments with
  | [] => exact ⟨[], [], rfl, .inl rfl⟩
  | argument :: rest =>
      cases flag : Flag.ofArgument? argument with
      | none => exact ⟨[], _, rfl, .inr ⟨_, .noOption flag rest⟩⟩
      | some flag' =>
          cases flag' with
          | help =>
              have known := Flag.ofArgument?_eq_help_iff.mp flag
              exact ⟨[], _, rfl, .inr ⟨_, .help known rest⟩⟩
          | switch switch =>
              obtain rfl := Flag.eq_word_of_ofArgument? flag
              obtain ⟨groups, others, rfl, ended⟩ := exists_groups rest
              exact ⟨.switch switch :: groups, others, rfl, ended⟩
          | parameter parameter =>
              have known := Flag.mem_words_of_ofArgument? flag
              match rest with
              | [] => exact ⟨[], _, rfl, .inr ⟨_, .valueMissing known⟩⟩
              | value :: rest =>
                  obtain ⟨groups, others, rfl, ended⟩ := exists_groups rest
                  exact ⟨.parameter parameter argument known value :: groups, others, rfl, ended⟩
termination_by arguments.length

theorem ofArguments_written (groups : List Group) :
    ofArguments (argumentsOf groups) =
      if valuesOf .formula groups = [] ∧ .switch .listsFunctions ∉ groups then .error .nothingToDo
      else .ok (.run (.written groups)) := by
  rw [ofArguments_groups, Options.ofGroups_eq_written]
  simp only [Options.isIdle_written]

theorem ofArguments_of_ends (groups : List Group) {rest : List String}
    {result : Except UsageError Invocation} (ends : Ends rest result) :
    ofArguments (argumentsOf groups ++ rest) = result := by
  rw [ofArguments, read_groups, read_of_ends ends]

theorem ofArguments_eq_help_iff (arguments : List String) :
    ofArguments arguments = .ok .help ↔
      ∃ groups word rest, word ∈ helpWords ∧ arguments = argumentsOf groups ++ word :: rest := by
  constructor
  · intro asked
    obtain ⟨groups, rest, rfl, rfl | ⟨result, ends⟩⟩ := exists_groups arguments
    · rw [List.append_nil, ofArguments_written] at asked
      split at asked <;> cases asked
    · rw [ofArguments_of_ends groups ends] at asked
      subst asked
      cases ends with
      | help known rest => exact ⟨groups, _, rest, known, rfl⟩
  · rintro ⟨groups, word, rest, known, rfl⟩
    exact ofArguments_of_ends groups (.help known rest)

theorem exists_groups_of_run {arguments : List String} {options : Options}
    (ran : ofArguments arguments = .ok (.run options)) :
    ∃ groups, arguments = argumentsOf groups := by
  obtain ⟨groups, rest, rfl, rfl | ⟨result, ends⟩⟩ := exists_groups arguments
  · exact ⟨groups, List.append_nil _⟩
  · rw [ofArguments_of_ends groups ends] at ran
    subst ran
    cases ends

/-- Reads arguments from a position on, on top of the options read so far. An option that takes a
value makes a step to the value and a further step behind it. -/
def readFrom (arguments : List String) (position : Nat) (options : Options) :
    Except UsageError Invocation :=
  if inside : position < arguments.length then
    match Flag.ofArgument? arguments[position] with
    | none => .error (.ofArgument arguments[position])
    | some .help => .ok .help
    | some (.switch switch) => readFrom arguments (position + 1) (options.turnOn switch)
    | some (.parameter parameter) =>
        match arguments[position + 1]? with
        | none => .error parameter.missing
        | some value => readFrom arguments (position + 1 + 1) (options.set parameter value)
  else if options.isIdle then .error .nothingToDo
  else .ok (.run options)
termination_by arguments.length - position

theorem readFrom_eq_read (arguments : List String) (position : Nat) (options : Options) :
    readFrom arguments position options = read options (arguments.drop position) := by
  fun_induction readFrom arguments position options with
  | case1 position options inside flag => rw [List.drop_eq_getElem_cons inside, read, flag]
  | case2 position options inside flag => rw [List.drop_eq_getElem_cons inside, read, flag]
  | case3 position options inside switch flag ih =>
      rw [List.drop_eq_getElem_cons inside, read, flag]
      exact ih
  | case4 position options inside parameter flag absent =>
      have behind : arguments.drop (position + 1) = [] :=
        List.drop_eq_nil_of_le (List.getElem?_eq_none_iff.mp absent)
      rw [List.drop_eq_getElem_cons inside, read, flag, behind]
  | case5 position options inside parameter flag value present ih =>
      obtain ⟨next, rfl⟩ := List.getElem?_eq_some_iff.mp present
      rw [List.drop_eq_getElem_cons inside, read, flag, List.drop_eq_getElem_cons next]
      exact ih
  | case6 position options outside idle =>
      rw [List.drop_eq_nil_of_le (Nat.le_of_not_lt outside), read, if_pos idle]
  | case7 position options outside busy =>
      rw [List.drop_eq_nil_of_le (Nat.le_of_not_lt outside), read, if_neg busy]

/-- Groups are read as the options that they write, if these ask for anything, and nothing else is
read as options. Help is given exactly if it is asked for behind nothing but groups, whatever
follows. All this holds as well when the arguments are read by position behind the name of the
program. -/
theorem arguments_read_exactly :
    (∀ groups, ofArguments (argumentsOf groups) =
      if valuesOf .formula groups = [] ∧ .switch .listsFunctions ∉ groups then .error .nothingToDo
      else .ok (.run (.written groups))) ∧
    (∀ arguments, (∃ options, ofArguments arguments = .ok (.run options)) ↔
      ∃ groups, arguments = argumentsOf groups ∧
        (valuesOf .formula groups ≠ [] ∨ .switch .listsFunctions ∈ groups)) ∧
    (∀ arguments, ofArguments arguments = .ok .help ↔
      ∃ groups word rest, word ∈ helpWords ∧ arguments = argumentsOf groups ++ word :: rest) ∧
    ∀ program arguments, readFrom (program :: arguments) 1 {} = ofArguments arguments := by
  refine ⟨ofArguments_written, fun arguments => ?_, ofArguments_eq_help_iff,
    fun program arguments => readFrom_eq_read _ 1 {}⟩
  constructor
  · rintro ⟨options, ran⟩
    obtain ⟨groups, rfl⟩ := exists_groups_of_run ran
    refine ⟨groups, rfl, ?_⟩
    by_contra idle
    rw [ofArguments_written, if_pos (by simpa using idle)] at ran
    cases ran
  · rintro ⟨groups, rfl, busy⟩
    refine ⟨.written groups, ?_⟩
    rw [ofArguments_written, if_neg]
    rintro ⟨noFormula, noListing⟩
    exact busy.elim (fun given => given noFormula) noListing

/-- Values that look like options are values, also behind each other. -/
example :
    ofArguments ["--csv", "--help", "-c", "-c", "--json", "--csv", "-h", "--command", "--bogus"] =
      .ok (.run { formulas := ["-c", "--bogus"], tablePath := some "-h", json := true }) := by
  decide

end Invocation

end Worksheet.Command
