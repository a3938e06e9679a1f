import Mathlib
import Worksheet.Proofs.Bounded.Expression
import Worksheet.Proofs.Function.Errors

/-!
# Calling a function by indices

`IF` takes its arguments by their indices, and `MEDIAN` the middle of its numbers in order. Both stay
within bounds: a call of `IF` has two arguments or three, and numbers that are sorted are as many as
before.
-/

set_option autoImplicit false

namespace Worksheet

def argumentValueAt (argument : List Char) : Bounded Value :=
  if isMissing argument then return .number 0.0 else Expression.valueOfAt argument

def Aggregate.medianAt (numbers : List Float) : Bounded Float := do
  let inOrder := sorted numbers
  let middle := inOrder.length / 2
  if numbers.isEmpty then return 0.0
  else if inOrder.length % 2 = 0 then
    let before ← Bounded.reach (minus? middle 1)
    let a ← Bounded.reach inOrder[before]?
    let b ← Bounded.reach inOrder[middle]?
    return (a + b) / 2.0
  else Bounded.reach inOrder[middle]?

namespace Library

def medianFunction : List Char := "MEDIAN".toList

def chooseAt (arguments : List (List Char)) (value : List Char → Bounded Value) :
    Bounded Value := do
  let condition ← value (← Bounded.reach arguments[0]?)
  if condition.isTrue then value (← Bounded.reach arguments[1]?)
  else
    match arguments[2]? with
    | some otherwise => value otherwise
    | none => return .number 0.0

end Library

def Function.applyAt (function : Function) (settings : Settings) (arguments : List (List Char)) :
    Bounded Value :=
  match function.body with
  | .aggregate run => do
      let present := arguments.filter fun argument => !isMissing argument
      let numbers := (← present.mapM Expression.valueOfAt).filterMap Value.number?
      if function.key = Library.medianFunction then
        return .number (← Aggregate.medianAt numbers)
      else Bounded.within (run numbers settings)
  | .scalar run => do
      let values ← arguments.mapM argumentValueAt
      Bounded.within (run values settings)
  | .lazy run =>
      if function.key = Library.branchFunction then Library.chooseAt arguments argumentValueAt
      else Bounded.within (run arguments argumentValue settings)

def callAt (settings : Settings) (name : List Char) (arguments : List (List Char)) :
    Bounded Value :=
  let canonical := capitals name
  match Registry.standard.get? canonical with
  | none => throw (.unknownFunction canonical)
  | some function =>
      if function.arity.admits arguments.length then do
        let value ← function.applyAt settings arguments
        Bounded.within
          (Expression.requireFinite (.invalidExpression (.nonFiniteResult canonical)) value)
      else throw (.invalidExpression (.argumentCount canonical function.arity arguments.length))

theorem argumentValueAt_eq (argument : List Char) :
    argumentValueAt argument = Bounded.within (argumentValue argument) := by
  rw [argumentValueAt, argumentValue]
  split
  · rfl
  · exact Expression.valueOfAt_eq argument

theorem Aggregate.medianAt_eq (numbers : List Float) :
    medianAt numbers = pure (median numbers) := by
  have length : (sorted numbers).length = numbers.length := List.length_mergeSort _
  rw [medianAt, median, length]
  split
  · rfl
  · rename_i nonempty
    have positive : 0 < numbers.length := by
      rw [List.length_pos_iff]
      rintro rfl
      exact nonempty rfl
    have at' (index : Nat) (below : index < numbers.length) :
        (sorted numbers)[index]? = some ((sorted numbers).getD index 0.0) := by
      rw [List.getD_eq_getElem?_getD, List.getElem?_eq_getElem (length.symm ▸ below)]
      rfl
    have middle := at' (numbers.length / 2) (by omega)
    split
    · rename_i even
      have before := at' (numbers.length / 2 - 1) (by omega)
      rw [minus?_of_le (by omega), Bounded.reach_some, pure_bind, before, middle]
      rfl
    · rw [middle]
      rfl

namespace Library

theorem chooseAt_eq {arguments : List (List Char)} (enough : 2 ≤ arguments.length) :
    chooseAt arguments argumentValueAt = Bounded.within (choose arguments argumentValue) := by
  obtain ⟨condition, first, others, rfl⟩ : ∃ condition first others,
      arguments = condition :: first :: others := by
    match arguments, enough with
    | condition :: first :: others, _ => exact ⟨condition, first, others, rfl⟩
  have missing : argumentValue [] = .ok (.number 0.0) := rfl
  have chooses : chooseAt (condition :: first :: others) argumentValueAt = (do
      let chosen ← argumentValueAt condition
      if chosen.isTrue then argumentValueAt first
      else match others.head? with
        | some otherwise => argumentValueAt otherwise
        | none => return .number 0.0) := by
    cases others <;> rfl
  have model : choose (condition :: first :: others) argumentValue = (do
      let chosen ← argumentValue condition
      if chosen.isTrue then argumentValue first else argumentValue (others.headD [])) := by
    cases others <;> rfl
  rw [chooses, model, argumentValueAt_eq, Bounded.within_bind]
  refine bind_congr fun chosen => ?_
  split
  · exact argumentValueAt_eq first
  · cases others with
    | nil => rw [List.headD_nil, missing]; rfl
    | cons otherwise more => exact argumentValueAt_eq otherwise

theorem body_of_median {function : Function} (member : function ∈ functions)
    (named : function.key = medianFunction) :
    function.body = .aggregate fun numbers _ => .ok (.number (Aggregate.median numbers)) := by
  revert function
  simp only [functions, List.forall_mem_cons]
  refine ⟨?sum, ?average, ?least, ?greatest, ?count, fun _ => trivial, ?product, ?round, ?absolute,
    ?power, ?squareRoot, ?choose, ?concat, fun _ member => absurd member List.not_mem_nil⟩
  all_goals exact fun named => absurd named (by decide)

theorem spec_of_branch {function : Function} (member : function ∈ functions)
    (named : function.key = branchFunction) :
    function.arity = .between 2 3 ∧
      function.body = .lazy fun arguments value _ => choose arguments value := by
  revert function
  simp only [functions, List.forall_mem_cons]
  refine ⟨?sum, ?average, ?least, ?greatest, ?count, ?median, ?product, ?round, ?absolute, ?power,
    ?squareRoot, fun _ => ⟨trivial, trivial⟩, ?concat,
    fun _ member => absurd member List.not_mem_nil⟩
  all_goals exact fun named => absurd named (by decide)

end Library

/-- A function of the library runs within bounds, `IF` if it has two arguments or more. -/
theorem Function.applyAt_eq {function : Function} (member : function ∈ Library.functions)
    (settings : Settings) {arguments : List (List Char)}
    (enough : function.key = Library.branchFunction → 2 ≤ arguments.length) :
    function.applyAt settings arguments =
      Bounded.within (function.body.apply settings arguments) := by
  have values : Expression.valueOfAt = fun argument => Bounded.within (Expression.valueOf argument) :=
    funext Expression.valueOfAt_eq
  have argumentValues : argumentValueAt = fun argument => Bounded.within (argumentValue argument) :=
    funext argumentValueAt_eq
  cases body : function.body with
  | aggregate run =>
      simp only [applyAt, body, values, Bounded.mapM_within, Body.apply, Bounded.within_bind]
      refine bind_congr fun values => ?_
      split
      · rename_i isMedian
        rw [Library.body_of_median member isMedian] at body
        cases body
        rw [Aggregate.medianAt_eq]
        rfl
      · rfl
  | scalar run =>
      simp only [applyAt, body, argumentValues, Bounded.mapM_within, Body.apply, Bounded.within_bind]
  | lazy run =>
      simp only [applyAt, body, Body.apply]
      split
      · rename_i isBranch
        rw [(Library.spec_of_branch member isBranch).2] at body
        cases body
        exact Library.chooseAt_eq (enough isBranch)
      · rfl

theorem callAt_eq (settings : Settings) (name : List Char) (arguments : List (List Char)) :
    callAt settings name arguments =
      Bounded.within (Registry.standard.call settings name arguments) := by
  rw [callAt, Registry.call]
  cases registered : Registry.standard.get? (capitals name) with
  | none => rfl
  | some function =>
      obtain ⟨member, _⟩ := Registry.mem_library_of_get? registered
      dsimp only
      split
      · rename_i admitted
        have enough (isBranch : function.key = Library.branchFunction) : 2 ≤ arguments.length := by
          rw [(Library.spec_of_branch member isBranch).1] at admitted
          exact of_decide_eq_true (Bool.and_eq_true_iff.mp admitted).1
        rw [Function.applyAt_eq member settings enough, Bounded.within_bind]
      · rfl

end Worksheet
