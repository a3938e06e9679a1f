import Mathlib
import Worksheet.Proofs.Bounded.Walk
import Worksheet.Proofs.Script.Arguments

/-!
# Splitting arguments by offsets

A walk over the bytes of a text remembers where the part in progress begins and cuts it off at a
comma. A comma is one byte, so the next part begins at a character. The walk stays within bounds,
and the parts are those of the text.
-/

set_option autoImplicit false

namespace Worksheet

open Script (byteSize byteSize_append)

structure Cuts where
  depth : Nat
  start : Nat
  parts : List (List Char)

namespace Cuts

/-- What a parenthesis or a comma does. A parenthesis that closes nothing does not count. -/
def act (text : List Char) (index : Nat) (byte : UInt8) (cuts : Cuts) : Bounded Cuts :=
  if byte = asciiByte '(' then return { cuts with depth := cuts.depth + 1 }
  else if byte = asciiByte ')' then return { cuts with depth := cuts.depth - 1 }
  else if byte = asciiByte ',' ∧ cuts.depth = 0 then do
    let part ← Bounded.reach (slice? text cuts.start index)
    return { cuts with start := index + 1, parts := cuts.parts ++ [part] }
  else return cuts

def finish (text : List Char) (cuts : Cuts) : Bounded (List (List Char)) := do
  let last ← Bounded.reach (slice? text cuts.start (byteSize text))
  return (cuts.parts ++ [last]).map trim

theorem act_of_other {text : List Char} {index : Nat} {byte : UInt8} {cuts : Cuts}
    (notOpening : byte ≠ asciiByte '(') (notClosing : byte ≠ asciiByte ')')
    (notComma : byte = asciiByte ',' → cuts.depth ≠ 0) : act text index byte cuts = pure cuts := by
  rw [act, if_neg notOpening, if_neg notClosing,
    if_neg fun separates => notComma separates.1 separates.2]

def walker (text : List Char) : Walker Cuts where
  note _ _ cuts := return cuts
  act := act text
  act_wide index byte cuts wide := by
    have other {c : Char} := @Walker.ne_asciiByte_of_wide byte wide c
    exact act_of_other (other (by decide)) (other (by decide))
      fun isComma => absurd isComma (other (by decide))

end Cuts

def splitArguments (text : List Char) : Bounded (List (List Char)) := do
  if (trim text).isEmpty then return []
  else
    let (_, cuts) ← (Cuts.walker text).walk (bytes text) 0 false ⟨0, 0, []⟩
    cuts.finish text

namespace Cuts

variable {text done part rest : List Char} {index : Nat} {inside : Bool} {cuts : Cuts}

theorem step_idle {c : Char}
    (idle : inside = true ∨ c ≠ '(' ∧ c ≠ ')' ∧ (c = ',' → cuts.depth ≠ 0)) :
    (walker text).step index inside c cuts = pure cuts := by
  refine Walker.step_idle (fun _ _ _ => rfl) fun outside ascii => ?_
  rcases idle with isInside | ⟨notOpening, notClosing, notComma⟩
  · rw [outside] at isInside
    cases isInside
  have same {d : Char} (small : d.toNat < 128) : asciiByte c = asciiByte d → c = d :=
    (Walker.asciiByte_inj ascii small).mp
  exact act_of_other (mt (same (by decide)) notOpening) (mt (same (by decide)) notClosing)
    fun isComma => notComma (same (by decide) isComma)

theorem step_of_joins {c : Char} (joins : ¬ (c = ',' ∧ cuts.depth = 0 ∧ inside = false)) :
    (walker text).step index inside c cuts =
      pure { cuts with depth := Arguments.depthBehind cuts.depth inside c } := by
  by_cases literal : c = '"' ∨ inside = true
  · rw [Arguments.depthBehind, if_pos literal]
    refine step_idle (literal.symm.imp_right ?_)
    rintro rfl
    exact ⟨by decide, by decide, fun isComma => absurd isComma (by decide)⟩
  rw [Arguments.depthBehind, if_neg literal]
  obtain ⟨notQuote, outside⟩ := not_or.mp literal
  rw [Bool.not_eq_true] at outside
  subst outside
  by_cases isOpening : c = '('
  · subst isOpening
    rfl
  rw [if_neg isOpening]
  by_cases isClosing : c = ')'
  · subst isClosing
    rfl
  rw [if_neg isClosing]
  exact step_idle (.inr ⟨isOpening, isClosing, fun isComma closed => joins ⟨isComma, closed, rfl⟩⟩)

theorem step_comma (closed : cuts.depth = 0) (cut : slice? text cuts.start index = some part) :
    (walker text).step index false ',' cuts =
      pure { cuts with start := index + 1, parts := cuts.parts ++ [part] } := by
  change act text index (asciiByte ',') cuts = _
  rw [act, if_neg (by decide), if_neg (by decide), if_pos ⟨rfl, closed⟩, cut]
  rfl

theorem extendText_extendFirst (c : Char) (text : List Char) (list : List (List Char)) :
    Arguments.extendText text (extendFirst c list) = Arguments.extendText (text ++ [c]) list := by
  cases list <;> simp [extendFirst, Arguments.extendText]

/-- With `done` cut off and `part` in progress, a walk cuts off what is left of the text. -/
theorem run_finish (text_eq : text = done ++ (part ++ rest)) (start_eq : cuts.start = byteSize done)
    (index_eq : index = byteSize done + byteSize part) :
    ((walker text).run index inside cuts rest >>= fun (_, cuts) => cuts.finish text) =
      pure ((cuts.parts ++
        Arguments.extendText part (Arguments.parts cuts.depth inside rest)).map trim) := by
  induction rest generalizing done part index inside cuts with
  | nil =>
      have last : slice? text cuts.start (byteSize text) = some part := by
        refine slice?_append text_eq start_eq ?_
        rw [text_eq, byteSize_append, List.append_nil]
      change cuts.finish text = _
      rw [finish, last, Arguments.parts, Arguments.extendText, List.append_nil]
      rfl
  | cons c rest ih =>
      by_cases separates : c = ',' ∧ cuts.depth = 0 ∧ inside = false
      · obtain ⟨rfl, closed, rfl⟩ := separates
        have cut : slice? text cuts.start index = some part :=
          slice?_append text_eq start_eq index_eq
        have single : ','.utf8Size = 1 := by decide
        have begins : index + 1 = byteSize (done ++ (part ++ [','])) := by
          rw [index_eq, byteSize_append, byteSize_append, ← Nat.add_assoc]
          rfl
        have next : text = (done ++ (part ++ [','])) ++ ([] ++ rest) := by rw [text_eq]; simp
        rw [Walker.run, step_comma closed cut, pure_bind, if_neg (by decide), single,
          @ih _ [] _ _ _ next begins begins, Arguments.extendText_nil (Arguments.parts_ne_nil _ _ _),
          closed, Arguments.parts_comma_cons, Arguments.extendText, List.append_assoc,
          List.append_nil]
        rfl
      · have further : text = done ++ ((part ++ [c]) ++ rest) := by rw [text_eq, ← List.append_cons]
        have size : index + c.utf8Size = byteSize done + byteSize (part ++ [c]) := by
          rw [index_eq, byteSize_append, byteSize, byteSize, Nat.add_zero, Nat.add_assoc]
        rw [Walker.run, step_of_joins separates, pure_bind, Arguments.parts_of_joins separates,
          extendText_extendFirst]
        exact ih further start_eq size

end Cuts

theorem splitArguments_eq (text : List Char) :
    splitArguments text = pure (Arguments.split text) := by
  rw [splitArguments, Arguments.split]
  split
  · rfl
  · rw [Walker.walk_text]
    have finished := @Cuts.run_finish text [] [] text 0 false ⟨0, 0, []⟩ rfl rfl rfl
    rw [Arguments.extendText_nil (Arguments.parts_ne_nil _ _ _)] at finished
    exact finished

end Worksheet
