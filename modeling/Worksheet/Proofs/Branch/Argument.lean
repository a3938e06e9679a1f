import Mathlib
import Worksheet.Proofs.Meeting.Operand
import Worksheet.Proofs.Reference.Nesting
import Worksheet.Proofs.Reference.Position

/-!
# Arguments by themselves

The arguments of a call come to what each comes to by itself, in one pass less than the call may
take: its references resolve, and the calls in it are made. If one of two neighbours comes to
something, the other alone decides whether both do.
-/

set_option autoImplicit false

namespace Worksheet

namespace Calculator

variable {calculator : Calculator} {grid : Grid} {passes : Nat} {text : List Char}

def rewriteWithin (calculator : Calculator) (grid : Grid) (passes : Nat) (text : List Char) :
    Except FormulaError (List Char) := do
  let script ← Script.ofChars (← resolve grid calculator.settings text)
  let residue ← script.reduce (calculator.registry.call calculator.settings)
    calculator.settings.nestingLimit passes
  return residue.chars

theorem rewrite_eq_rewriteWithin (calculator : Calculator) (grid : Grid) (text : List Char) :
    calculator.rewrite grid text =
      calculator.rewriteWithin grid calculator.settings.nestingLimit text := by
  unfold rewrite rewriteWithin Calculator.reduce Script.reduceText
  cases resolve grid calculator.settings text <;> rfl

theorem rewriteWithin_eq {resolved : List Char} {script : Script}
    (resolves : resolve grid calculator.settings text = .ok resolved)
    (read : Script.ofChars resolved = .ok script) (passes : Nat) :
    calculator.rewriteWithin grid passes text =
      Script.chars <$> script.reduce (calculator.registry.call calculator.settings)
        calculator.settings.nestingLimit passes := by
  rw [rewriteWithin, resolves, Outcome.ok_bind, read, Outcome.ok_bind]
  rfl

theorem rewriteWithin_eq_ok {result : List Char} :
    calculator.rewriteWithin grid passes text = .ok result ↔
      ∃ resolved, resolve grid calculator.settings text = .ok resolved ∧
        Script.Reduces (calculator.registry.call calculator.settings)
          calculator.settings.nestingLimit passes resolved result := by
  constructor
  · intro rewrites
    obtain ⟨resolved, resolves, rewrites⟩ := Outcome.bind_eq_ok.mp rewrites
    obtain ⟨script, read, rewrites⟩ := Outcome.bind_eq_ok.mp rewrites
    obtain ⟨residue, reduced, rewrites⟩ := Outcome.bind_eq_ok.mp rewrites
    exact ⟨resolved, resolves, script, residue, read, reduced, Except.ok.inj rewrites⟩
  · rintro ⟨resolved, resolves, script, residue, read, reduced, rfl⟩
    rw [rewriteWithin_eq resolves read, reduced]
    rfl

theorem rewriteWithin_of_enough {script : Script} (read : Script.ofChars text = .ok script)
    (enough : script.callDepth ≤ passes) {more : Nat} (le : passes ≤ more) :
    calculator.rewriteWithin grid more text = calculator.rewriteWithin grid passes text := by
  have finite := Script.returnsFinite_call calculator.registry calculator.settings
  cases resolves : resolve grid calculator.settings text with
  | error error => rw [rewriteWithin, rewriteWithin, resolves]; rfl
  | ok resolved =>
      obtain ⟨script', read', sameDepth⟩ := callDepth_of_resolve read resolves
      rw [rewriteWithin_eq resolves read', rewriteWithin_eq resolves read',
        Script.reduce_of_enough finite (by omega) le]

/-- A call that does not read text comes to the literal of its value for what its arguments come to
in one pass less. -/
theorem rewriteWithin_call {name inner : List Char} (named : Script.callName? name = some name)
    (numeric : opensText name = false) {script : Script} (read : Script.ofChars inner = .ok script)
    (enough : script.callDepth ≤ passes) :
    calculator.rewriteWithin grid (passes + 1) (name ++ '(' :: (inner ++ [')'])) =
      calculator.rewriteWithin grid passes inner >>= fun arguments =>
        Value.literal <$>
          calculator.registry.call calculator.settings name (Arguments.split arguments) := by
  have finite := Script.returnsFinite_call calculator.registry calculator.settings
  have alone : resolveFrom grid calculator.settings (.opened (opensText name)) inner =
      resolve grid calculator.settings inner := by
    rw [numeric]
    exact Place.alike_alone.resolveFrom_eq inner
  have whole := @resolve_call_eq grid calculator.settings name named inner
  rw [alone] at whole
  cases resolves : resolve grid calculator.settings inner with
  | error error => rw [rewriteWithin, rewriteWithin, whole, resolves]; rfl
  | ok resolved =>
      obtain ⟨inner', innerRead, sameDepth⟩ := callDepth_of_resolve read resolves
      obtain ⟨matched, rfl⟩ := Script.ofChars_eq_ok.mp innerRead
      have groupRead := Script.ofChars_call named innerRead
      rw [resolves] at whole
      rw [rewriteWithin_eq whole groupRead, rewriteWithin_eq resolves innerRead,
        Script.reduce_call_eq finite named (by omega)]
      cases inner'.reduce (calculator.registry.call calculator.settings)
          calculator.settings.nestingLimit passes with
      | error error => rfl
      | ok residue =>
          rw [Outcome.ok_bind]
          change _ = Value.literal <$> calculator.registry.call calculator.settings name
            (Arguments.split residue.chars)
          cases called : calculator.registry.call calculator.settings name
              (Arguments.split residue.chars) with
          | error error => rfl
          | ok value => exact congrArg Except.ok (Script.chars_splice_alone (finite _ _ _ called))

theorem rewriteWithin_comma_of_first {first rest result : List Char}
    (checked : Script.check 0 false first = .ok ())
    (checkedRest : Script.check 0 false rest = .ok ())
    (rewrites : calculator.rewriteWithin grid passes first = .ok result) :
    calculator.rewriteWithin grid passes (first ++ ',' :: rest) =
      (result ++ ',' :: ·) <$> calculator.rewriteWithin grid passes rest := by
  obtain ⟨resolved, resolves, script, residue, read, reduced, rfl⟩ :=
    rewriteWithin_eq_ok.mp rewrites
  have whole := @resolve_comma grid calculator.settings first checked rest
  rw [resolves, Outcome.ok_bind] at whole
  cases restResolves : resolve grid calculator.settings rest with
  | error error =>
      rw [restResolves] at whole
      rw [rewriteWithin, whole, rewriteWithin, restResolves]
      rfl
  | ok resolvedRest =>
      obtain ⟨restScript, restRead⟩ := Script.ofChars_of_check
        ((resolve_keeps restResolves).2.trans checkedRest)
      rw [restResolves] at whole
      rw [rewriteWithin_eq whole (Script.ofChars_comma read restRead),
        rewriteWithin_eq restResolves restRead, Script.reduce_beside_of_left reduced]
      cases restScript.reduce (calculator.registry.call calculator.settings)
          calculator.settings.nestingLimit passes with
      | error error => rfl
      | ok restResidue => exact congrArg Except.ok (Script.chars_beside residue restResidue)

theorem rewriteWithin_comma_of_rest {first rest result : List Char}
    (checked : Script.check 0 false first = .ok ())
    (rewrites : calculator.rewriteWithin grid passes rest = .ok result) :
    calculator.rewriteWithin grid passes (first ++ ',' :: rest) =
      (· ++ ',' :: result) <$> calculator.rewriteWithin grid passes first := by
  obtain ⟨resolved, resolves, script, residue, read, reduced, rfl⟩ :=
    rewriteWithin_eq_ok.mp rewrites
  have whole := @resolve_comma grid calculator.settings first checked rest
  cases firstResolves : resolve grid calculator.settings first with
  | error error =>
      rw [firstResolves] at whole
      rw [rewriteWithin, whole, rewriteWithin, firstResolves]
      rfl
  | ok resolvedFirst =>
      obtain ⟨firstScript, firstRead⟩ := Script.ofChars_of_check
        ((resolve_keeps firstResolves).2.trans checked)
      rw [firstResolves, resolves] at whole
      rw [rewriteWithin_eq whole (Script.ofChars_comma firstRead read),
        rewriteWithin_eq firstResolves firstRead, Script.reduce_beside_of_right reduced]
      cases firstScript.reduce (calculator.registry.call calculator.settings)
          calculator.settings.nestingLimit passes with
      | error error => rfl
      | ok firstResidue => exact congrArg Except.ok (Script.chars_beside firstResidue residue)

end Calculator

end Worksheet
