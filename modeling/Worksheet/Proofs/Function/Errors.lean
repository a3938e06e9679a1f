import Mathlib
import Worksheet.Function.Application
import Worksheet.Proofs.Expression.Breaks

/-!
# Errors of calls

A function may pass an error on from one of its arguments, or raise one itself. The functions of
the library raise nothing but invalid expressions that mention their own names, and a call raises no
more than that its name is unknown or its number of arguments is wrong. So any other error of a call
comes from an argument.
-/

set_option autoImplicit false

namespace Worksheet

/-- The body never raises the error itself. A lazy one may pass it on from the text of an argument,
or from the empty text, which stands for an argument that is left out. -/
def Body.PassesOn (error : FormulaError) : Body → Prop
  | aggregate run => ∀ numbers settings, run numbers settings ≠ .error error
  | scalar run => ∀ values settings, run values settings ≠ .error error
  | lazy run => ∀ arguments value settings, run arguments value settings = .error error →
      ∃ argument, (argument ∈ arguments ∨ argument = []) ∧ value argument = .error error

def Registry.PassesOn (error : FormulaError) (registry : Registry) : Prop :=
  ∀ function ∈ registry.functions, function.body.PassesOn error

def Fault.name? : Fault → Option (List Char)
  | argumentCount name _ _ | emptySet name | numericArgument name | nonFiniteResult name => some name
  | _ => none

def FormulaError.IsFaultOf (name : List Char) (error : FormulaError) : Prop :=
  ∃ fault, error = .invalidExpression fault ∧ fault.name? = some name

/-- The errors that the body raises itself are faults of the name. A lazy body only passes on the
errors of its arguments. -/
def Body.Blames (name : List Char) : Body → Prop
  | aggregate run => ∀ numbers settings error,
      run numbers settings = .error error → error.IsFaultOf name
  | scalar run => ∀ values settings error, run values settings = .error error → error.IsFaultOf name
  | lazy run => ∀ arguments value settings error, run arguments value settings = .error error →
      ∃ argument, (argument ∈ arguments ∨ argument = []) ∧ value argument = .error error

theorem Body.Blames.passesOn {name : List Char} {body : Body} {error : FormulaError}
    (blames : body.Blames name) (other : ¬ error.IsFaultOf name) : body.PassesOn error := by
  cases body with
  | aggregate run => exact fun _ _ failed => other (blames _ _ _ failed)
  | scalar run => exact fun _ _ failed => other (blames _ _ _ failed)
  | lazy run => exact fun _ _ _ failed => blames _ _ _ _ failed

theorem argumentValue_eq_error {argument : List Char} {error : FormulaError}
    (failed : argumentValue argument = .error error) :
    argument ≠ [] ∧ Expression.valueOf argument = .error error := by
  unfold argumentValue at failed
  split at failed
  · cases failed
  · rename_i present
    refine ⟨?_, failed⟩
    rintro rfl
    exact present rfl

theorem Body.apply_eq_error {body : Body} {error : FormulaError} (passes : body.PassesOn error)
    {settings : Settings} {arguments : List (List Char)}
    (failed : body.apply settings arguments = .error error) :
    ∃ argument ∈ arguments, Expression.valueOf argument = .error error := by
  cases body with
  | aggregate run =>
      rcases Outcome.bind_eq_error.mp failed with failed | ⟨_, _, failed⟩
      · obtain ⟨argument, member, failed⟩ := Outcome.exists_of_mapM_eq_error failed
        exact ⟨argument, List.mem_of_mem_filter member, failed⟩
      · exact absurd failed (passes _ _)
  | scalar run =>
      rcases Outcome.bind_eq_error.mp failed with failed | ⟨_, _, failed⟩
      · obtain ⟨argument, member, failed⟩ := Outcome.exists_of_mapM_eq_error failed
        exact ⟨argument, member, (argumentValue_eq_error failed).2⟩
      · exact absurd failed (passes _ _)
  | lazy run =>
      obtain ⟨argument, member, failed⟩ := passes _ _ _ failed
      obtain ⟨nonempty, failed⟩ := argumentValue_eq_error failed
      exact ⟨argument, member.resolve_right nonempty, failed⟩

theorem capitals_capitals (name : List Char) : capitals (capitals name) = capitals name := by
  simp [capitals]

/-- A call fails because its name is unknown, because it is invalid itself, or for the reason of one
of its arguments. -/
theorem Registry.call_eq_error {registry : Registry} {error : FormulaError}
    (passes : registry.PassesOn error) {settings : Settings} {name : List Char}
    {arguments : List (List Char)} (failed : registry.call settings name arguments = .error error) :
    (error = .unknownFunction (capitals name) ∧ registry.contains name = false) ∨
      (∃ fault, error = .invalidExpression fault) ∨
      ∃ argument ∈ arguments, Expression.valueOf argument = .error error := by
  unfold Registry.call at failed
  cases found : registry.get? (capitals name) with
  | none =>
      left
      simp only [found] at failed
      refine ⟨(Except.error.inj failed).symm, ?_⟩
      have absent : registry.get? name = none := by
        rwa [Registry.get?, capitals_capitals] at found
      simp [Registry.contains, absent]
  | some function =>
      right
      have member : function ∈ registry.functions := List.mem_of_find?_eq_some found
      simp only [found] at failed
      split at failed
      · rcases Outcome.bind_eq_error.mp failed with failed | ⟨value, _, failed⟩
        · exact .inr (Body.apply_eq_error (passes function member) failed)
        · exact .inl ⟨_, Expression.requireFinite_eq_error failed⟩
      · exact .inl ⟨_, (Except.error.inj failed).symm⟩

/-! ## The library -/

namespace Library

theorem numberAt_eq_error {name : String} {index : Nat} {arguments : List Value}
    {error : FormulaError} (failed : numberAt name index arguments = .error error) :
    error = .invalidExpression (.numericArgument name.toList) := by
  unfold numberAt at failed
  split at failed
  · cases failed
  · exact (Except.error.inj failed).symm

theorem round_eq_error {arguments : List Value} {error : FormulaError}
    (failed : round arguments = .error error) :
    error = .invalidExpression (.numericArgument "ROUND".toList) := by
  rcases Outcome.bind_eq_error.mp failed with failed | ⟨x, _, failed⟩
  · exact numberAt_eq_error failed
  · by_cases two : 1 < arguments.length
    · rw [if_pos two] at failed
      rcases Outcome.bind_eq_error.mp failed with failed | ⟨_, _, failed⟩
      · exact numberAt_eq_error failed
      · cases failed
    · rw [if_neg two] at failed
      cases failed

theorem absolute_eq_error {arguments : List Value} {error : FormulaError}
    (failed : absolute arguments = .error error) :
    error = .invalidExpression (.numericArgument "ABS".toList) := by
  rcases Outcome.bind_eq_error.mp failed with failed | ⟨_, _, failed⟩
  · exact numberAt_eq_error failed
  · cases failed

theorem power_eq_error {arguments : List Value} {error : FormulaError}
    (failed : power arguments = .error error) :
    error = .invalidExpression (.numericArgument "POWER".toList) := by
  rcases Outcome.bind_eq_error.mp failed with failed | ⟨_, _, failed⟩
  · exact numberAt_eq_error failed
  rcases Outcome.bind_eq_error.mp failed with failed | ⟨_, _, failed⟩
  · exact numberAt_eq_error failed
  · cases failed

theorem squareRoot_eq_error {arguments : List Value} {error : FormulaError}
    (failed : squareRoot arguments = .error error) :
    error = .invalidExpression (.numericArgument "SQRT".toList) := by
  rcases Outcome.bind_eq_error.mp failed with failed | ⟨_, _, failed⟩
  · exact numberAt_eq_error failed
  · cases failed

theorem choose_eq_error {arguments : List (List Char)} {value : ArgumentValue}
    {error : FormulaError} (failed : choose arguments value = .error error) :
    ∃ argument, (argument ∈ arguments ∨ argument = []) ∧ value argument = .error error := by
  have place (index : Nat) : arguments.getD index [] ∈ arguments ∨ arguments.getD index [] = [] := by
    by_cases within : index < arguments.length
    · left
      rw [List.getD_eq_getElem _ _ within]
      exact List.getElem_mem within
    · exact .inr (List.getD_eq_default _ _ (Nat.le_of_not_lt within))
  rcases Outcome.bind_eq_error.mp failed with failed | ⟨condition, _, failed⟩
  · exact ⟨_, place 0, failed⟩
  · split at failed
    · exact ⟨_, place 1, failed⟩
    · exact ⟨_, place 2, failed⟩

theorem extremum_eq_error {name : String} {pick : Float → Float → Float} {numbers : List Float}
    {settings : Settings} {error : FormulaError}
    (failed : Aggregate.extremum name pick numbers settings = .error error) :
    error = .invalidExpression (.emptySet name.toList) := by
  unfold Aggregate.extremum at failed
  split at failed
  · cases failed
  · cases failed
  · exact (Except.error.inj failed).symm

theorem blames_of_mem : ∀ function ∈ functions, function.body.Blames function.key := by
  have own {α : Type} {outcome : Except FormulaError α} {fault : Fault} {name : List Char}
      (invalid : ∀ error, outcome = .error error → error = .invalidExpression fault)
      (mentions : fault.name? = some name) :
      ∀ error, outcome = .error error → error.IsFaultOf name :=
    fun error failed => ⟨fault, invalid error failed, mentions⟩
  simp only [functions, List.forall_mem_cons]
  refine ⟨?sum, ?average, ?least, ?greatest, ?count, ?median, ?product, ?round, ?absolute, ?power,
    ?squareRoot, ?choose, ?concat, nofun⟩
  case sum => exact fun _ _ _ => nofun
  case average => exact fun _ _ _ => nofun
  case least => exact fun _ _ => own (fun _ => extremum_eq_error) rfl
  case greatest => exact fun _ _ => own (fun _ => extremum_eq_error) rfl
  case count => exact fun _ _ _ => nofun
  case median => exact fun _ _ _ => nofun
  case product => exact fun _ _ _ => nofun
  case round => exact fun _ _ => own (fun _ => round_eq_error) rfl
  case absolute => exact fun _ _ => own (fun _ => absolute_eq_error) rfl
  case power => exact fun _ _ => own (fun _ => power_eq_error) rfl
  case squareRoot => exact fun _ _ => own (fun _ => squareRoot_eq_error) rfl
  case choose => exact fun _ _ _ _ => choose_eq_error
  case concat => exact fun _ _ _ _ => nofun

theorem passesOn_of_mem {error : FormulaError} (other : ∀ fault, error ≠ .invalidExpression fault) :
    ∀ function ∈ functions, function.body.PassesOn error := by
  intro function member
  apply (blames_of_mem function member).passesOn
  rintro ⟨fault, same, _⟩
  exact other fault same

end Library

theorem Registry.mem_of_mem_register {registry : Registry} {function other : Function}
    (member : other ∈ (registry.register function).functions) :
    other = function ∨ other ∈ registry.functions :=
  (List.mem_cons.mp member).imp_right List.mem_of_mem_filter

theorem Registry.mem_library {function : Function} (member : function ∈ standard.functions) :
    function ∈ Library.functions := by
  have registered (functions : List Function) (registry : Registry)
      (member : function ∈ (functions.foldl register registry).functions) :
      function ∈ functions ∨ function ∈ registry.functions := by
    induction functions generalizing registry with
    | nil => exact .inr member
    | cons first rest ih =>
        rcases ih _ member with later | member
        · exact .inl (List.mem_cons_of_mem _ later)
        · rcases mem_of_mem_register member with rfl | earlier
          · exact .inl List.mem_cons_self
          · exact .inr earlier
  exact (registered Library.functions empty member).resolve_right List.not_mem_nil

theorem Registry.mem_library_of_get? {name : List Char} {function : Function}
    (found : standard.get? (capitals name) = some function) :
    function ∈ Library.functions ∧ function.key = capitals name := by
  refine ⟨mem_library (List.mem_of_find?_eq_some found), ?_⟩
  have same := List.find?_some found
  rwa [decide_eq_true_eq, capitals_capitals] at same

/-- A call of the library is blamed under its own name, or it fails for the reason of one of its
arguments. -/
theorem Registry.call_standard_eq_error {settings : Settings} {name : List Char}
    {arguments : List (List Char)} {error : FormulaError}
    (failed : standard.call settings name arguments = .error error) :
    error = .unknownFunction (capitals name) ∨ error.IsFaultOf (capitals name) ∨
      ∃ argument ∈ arguments, Expression.valueOf argument = .error error := by
  unfold Registry.call at failed
  cases found : standard.get? (capitals name) with
  | none =>
      simp only [found] at failed
      exact .inl (Except.error.inj failed).symm
  | some function =>
      right
      obtain ⟨member, key⟩ := mem_library_of_get? found
      simp only [found] at failed
      split at failed
      · rcases Outcome.bind_eq_error.mp failed with failed | ⟨value, _, failed⟩
        · by_cases own : error.IsFaultOf (capitals name)
          · exact .inl own
          · have blames := Library.blames_of_mem function member
            rw [key] at blames
            exact .inr (Body.apply_eq_error (blames.passesOn own) failed)
        · exact .inl ⟨_, Expression.requireFinite_eq_error failed, rfl⟩
      · exact .inl ⟨_, (Except.error.inj failed).symm, rfl⟩

theorem Registry.passesOn_standard {error : FormulaError}
    (other : ∀ fault, error ≠ .invalidExpression fault) : standard.PassesOn error :=
  fun function member => Library.passesOn_of_mem other function (mem_library member)

theorem Body.apply_fails {body : Body} (eager : ∀ run, body ≠ .lazy run) (settings : Settings)
    {arguments : List (List Char)} {argument : List Char} (member : argument ∈ arguments)
    (present : isMissing argument = false)
    (failed : ∃ error, Expression.valueOf argument = .error error) :
    ∃ error, body.apply settings arguments = .error error := by
  cases body with
  | aggregate run =>
      have kept : argument ∈ arguments.filter fun argument => !isMissing argument :=
        List.mem_filter.mpr ⟨member, by simp [present]⟩
      obtain ⟨error, failed⟩ := Outcome.exists_error_of_mapM kept failed
      exact ⟨error, by rw [Body.apply, failed]; rfl⟩
  | scalar run =>
      have same : argumentValue argument = Expression.valueOf argument := by
        simp [argumentValue, present]
      obtain ⟨error, failed⟩ := Outcome.exists_error_of_mapM member (same ▸ failed)
      exact ⟨error, by rw [Body.apply, failed]; rfl⟩
  | lazy run => exact absurd rfl (eager run)

namespace Library

def branchFunction : List Char := "IF".toList

/-- Tells whether `IF` leaves out the argument in a place: it stands in the branch that the
condition does not choose. -/
def LeavesOut (arguments : List (List Char)) (place : Nat) : Prop :=
  ∃ condition, argumentValue (arguments.getD 0 []) = .ok condition ∧
    place = if condition.isTrue then 2 else 1

/-- `IF` fails when the condition or the chosen branch does. -/
theorem choose_fails {arguments : List (List Char)} (few : arguments.length ≤ 3) {place : Nat}
    {argument : List Char} (found : arguments[place]? = some argument)
    (present : isMissing argument = false)
    (failed : ∃ error, Expression.valueOf argument = .error error)
    (taken : ¬ LeavesOut arguments place) :
    ∃ error, choose arguments argumentValue = .error error := by
  have within : place < arguments.length := (List.getElem?_eq_some_iff.mp found).1
  have atPlace : arguments.getD place [] = argument := by
    rw [List.getD_eq_getElem?_getD, found]
    rfl
  have value : ∃ error, argumentValue (arguments.getD place []) = .error error := by
    rw [atPlace]
    simpa [argumentValue, present] using failed
  rw [choose]
  cases condition : argumentValue (arguments.getD 0 []) with
  | error error => exact ⟨error, rfl⟩
  | ok condition' =>
      rw [Outcome.ok_bind]
      have notFirst : place ≠ 0 := by
        rintro rfl
        obtain ⟨error, failed⟩ := value
        rw [condition] at failed
        cases failed
      have notLeft : place ≠ if condition'.isTrue then 2 else 1 :=
        fun same => taken ⟨condition', condition, same⟩
      split at notLeft
      · obtain rfl : place = 1 := by omega
        rename_i isTrue
        rw [if_pos isTrue]
        exact value
      · obtain rfl : place = 2 := by omega
        rename_i isFalse
        rw [if_neg isFalse]
        exact value

theorem eager_of_mem {function : Function} (member : function ∈ functions) :
    (∀ run, function.body ≠ .lazy run) ∨
      function.key = branchFunction ∧ function.arity = .between 2 3 ∧
        function.body = .lazy (fun arguments value _ => choose arguments value) ∨
      function.key = "CONCAT".toList := by
  revert function
  simp only [functions, List.forall_mem_cons]
  refine ⟨?sum, ?average, ?least, ?greatest, ?count, ?median, ?product, ?round, ?absolute, ?power,
    ?squareRoot, ?choose, ?concat, nofun⟩
  case choose => exact .inr (.inl ⟨rfl, trivial, trivial⟩)
  case concat => exact .inr (.inr rfl)
  all_goals exact .inl fun _ => nofun

end Library

/-- A call of the library fails when an argument does that it does not leave out; `CONCAT` leaves
out all. -/
theorem Registry.call_standard_fails {settings : Settings} {name : List Char}
    {arguments : List (List Char)} {place : Nat} {argument : List Char}
    (found : arguments[place]? = some argument) (present : isMissing argument = false)
    (failed : ∃ error, Expression.valueOf argument = .error error)
    (notText : capitals name ≠ "CONCAT".toList)
    (taken : capitals name = Library.branchFunction → ¬ Library.LeavesOut arguments place) :
    ∃ error, standard.call settings name arguments = .error error := by
  unfold Registry.call
  cases registered : standard.get? (capitals name) with
  | none =>
      simp only [registered]
      exact ⟨_, rfl⟩
  | some function =>
      obtain ⟨member, key⟩ := mem_library_of_get? registered
      simp only [registered]
      split
      · rename_i admitted
        suffices fails : ∃ error, function.body.apply settings arguments = .error error by
          obtain ⟨error, fails⟩ := fails
          exact ⟨error, by rw [fails]; rfl⟩
        rcases Library.eager_of_mem member with eager | ⟨isBranch, arity, body⟩ | isText
        · exact Body.apply_fails eager settings (List.mem_of_getElem? found) present failed
        · have few : arguments.length ≤ 3 := by
            rw [arity] at admitted
            simpa [Arity.admits, Arity.between] using (Bool.and_eq_true_iff.mp admitted).2
          rw [body]
          exact Library.choose_fails few found present failed (taken (key ▸ isBranch))
        · exact absurd (key ▸ isText) notText
      · exact ⟨_, rfl⟩

end Worksheet
