import Mathlib
import Worksheet.Proofs.Table.Fields
import Worksheet.Table.Reading

/-!
# Reading a text of records

The lines of a text decide what becomes of it. If all of them are blank there is no table. Otherwise
the first line whose quotes are odd in number is named as the one that ends inside quotes. If there
is none, each line that is not blank is one record, and the records are the table.
-/

set_option autoImplicit false

namespace Worksheet

theorem isBlankLine_iff {line : List Char} :
    isBlankLine line = true ↔ ∀ c ∈ line, isBlank c = true := by
  rw [isBlankLine, isEmpty_trim, List.all_eq_true]

theorem even_of_isBlankLine {line : List Char} (blank : isBlankLine line = true) :
    line.count '"' % 2 = 0 := by
  have absent : '"' ∉ line := by
    intro member
    have blankQuote := isBlankLine_iff.mp blank '"' member
    revert blankQuote
    decide
  rw [List.count_eq_zero.mpr absent]

/-- The line with this number, counted from one, is the first whose quotes are odd in number. -/
def IsFirstOpen (list : List (List Char)) (number : Nat) : Prop :=
  ∃ before line after, list = before ++ line :: after ∧ number = before.length + 1 ∧
    line.count '"' % 2 = 1 ∧ ∀ earlier ∈ before, earlier.count '"' % 2 = 0

theorem isFirstOpen_of_odd {line : List Char} (odd : line.count '"' % 2 = 1)
    (rest : List (List Char)) (number : Nat) :
    IsFirstOpen (line :: rest) number ↔ number = 1 := by
  constructor
  · rintro ⟨before, other, after, same, rfl, _, even⟩
    cases before with
    | nil => rfl
    | cons first before =>
        obtain ⟨rfl, _⟩ := List.cons.inj same
        have evenFirst := even line List.mem_cons_self
        omega
  · rintro rfl
    exact ⟨[], line, rest, rfl, rfl, odd, by simp⟩

theorem isFirstOpen_of_even {line : List Char} (even : line.count '"' % 2 = 0)
    (rest : List (List Char)) (number : Nat) :
    IsFirstOpen (line :: rest) (number + 1) ↔ IsFirstOpen rest number := by
  constructor
  · rintro ⟨before, other, after, same, count, odd, earlier⟩
    cases before with
    | nil =>
        obtain ⟨rfl, _⟩ := List.cons.inj same
        omega
    | cons first before =>
        obtain ⟨rfl, split⟩ := List.cons.inj same
        refine ⟨before, other, after, split, ?_, odd, fun line member => ?_⟩
        · rw [List.length_cons] at count
          omega
        · exact earlier line (List.mem_cons_of_mem _ member)
  · rintro ⟨before, other, after, rfl, rfl, odd, earlier⟩
    exact ⟨line :: before, other, after, rfl, rfl, odd, List.forall_mem_cons.mpr ⟨even, earlier⟩⟩

theorem IsFirstOpen.unique {list : List (List Char)} {number other : Nat}
    (first : IsFirstOpen list number) (second : IsFirstOpen list other) : other = number := by
  obtain ⟨before, line, after, rfl, rfl, odd, earlier⟩ := first
  induction before generalizing other with
  | nil => exact (isFirstOpen_of_odd odd after other).mp second
  | cons head before ih =>
      have even := earlier head List.mem_cons_self
      have positive : ∃ place, other = place + 1 := by
        obtain ⟨front, _, _, _, rfl, _⟩ := second
        exact ⟨front.length, rfl⟩
      obtain ⟨place, rfl⟩ := positive
      have behind : IsFirstOpen (before ++ line :: after) place :=
        (isFirstOpen_of_even even _ place).mp second
      rw [ih behind fun line member => earlier line (List.mem_cons_of_mem _ member)]
      rfl

theorem IsFirstOpen.not_even {list : List (List Char)} {number : Nat}
    (first : IsFirstOpen list number) : ¬ ∀ line ∈ list, line.count '"' % 2 = 0 := by
  obtain ⟨before, line, after, rfl, _, odd, _⟩ := first
  intro allEven
  have even := allEven line (by simp)
  omega

def recordsFrom (number : Nat) (list : List (List Char)) :
    Except TableError (List (List (List Char))) :=
  ((list.zipIdx number).filter fun (line, _) => !isBlankLine line).mapM
    fun (line, number) => (Record.fields? line).elim (.error (.unterminatedField number)) .ok

section Steps

variable {line : List Char} (number : Nat) (rest : List (List Char))

theorem recordsFrom_of_blank (blank : isBlankLine line = true) :
    recordsFrom number (line :: rest) = recordsFrom (number + 1) rest := by
  rw [recordsFrom, List.zipIdx_cons, List.filter_cons_of_neg (by simp [blank])]
  rfl

theorem recordsFrom_of_fields {fields : List (List Char)} (present : isBlankLine line = false)
    (read : Record.fields? line = some fields) :
    recordsFrom number (line :: rest) = (fields :: ·) <$> recordsFrom (number + 1) rest := by
  rw [recordsFrom, List.zipIdx_cons, List.filter_cons_of_pos (by simp [present]), List.mapM_cons]
  simp only [read, Option.elim_some]
  rfl

theorem recordsFrom_of_none (present : isBlankLine line = false)
    (unread : Record.fields? line = none) :
    recordsFrom number (line :: rest) = .error (.unterminatedField number) := by
  rw [recordsFrom, List.zipIdx_cons, List.filter_cons_of_pos (by simp [present]), List.mapM_cons]
  simp only [unread, Option.elim_none]
  rfl

end Steps

/-- A line and its fields, which are one more than the commas that separate them. -/
structure Record.IsReadAs (line : List Char) (fields : List (List Char)) : Prop where
  read : fields? line = some fields
  width : fields.length = separatorCount false line + 1

/-- Lines are read up to the first whose quotes are odd in number; if there is none, those that are
not blank are the records. -/
theorem recordsFrom_cases (number : Nat) (list : List (List Char)) :
    (∃ place, IsFirstOpen list (place + 1) ∧
        recordsFrom number list = .error (.unterminatedField (number + place))) ∨
      (∀ line ∈ list, line.count '"' % 2 = 0) ∧
        ∃ records,
          List.Forall₂ Record.IsReadAs (list.filter fun line => !isBlankLine line) records ∧
            recordsFrom number list = .ok records := by
  induction list generalizing number with
  | nil => exact .inr ⟨by simp, [], .nil, rfl⟩
  | cons line rest ih =>
      by_cases odd : line.count '"' % 2 = 1
      · left
        have present : isBlankLine line = false := by
          by_contra blank
          have even := even_of_isBlankLine (Bool.not_eq_false _ ▸ blank)
          omega
        refine ⟨0, (isFirstOpen_of_odd odd rest 1).mpr rfl, ?_⟩
        exact recordsFrom_of_none number rest present (Record.fields?_of_odd odd)
      have even : line.count '"' % 2 = 0 := by omega
      rcases ih (number + 1) with ⟨place, open', failed⟩ | ⟨evenRest, others, readRest, success⟩
      · left
        refine ⟨place + 1, (isFirstOpen_of_even even rest (place + 1)).mpr open', ?_⟩
        have next : number + 1 + place = number + (place + 1) := by omega
        cases blank : isBlankLine line with
        | true => rw [recordsFrom_of_blank number rest blank, failed, next]
        | false =>
            obtain ⟨fields, read, _⟩ := Record.fields?_of_even even
            rw [recordsFrom_of_fields number rest blank read, failed, next]
            rfl
      · right
        refine ⟨List.forall_mem_cons.mpr ⟨even, evenRest⟩, ?_⟩
        cases blank : isBlankLine line with
        | true =>
            refine ⟨others, ?_, ?_⟩
            · rwa [List.filter_cons_of_neg (by simp [blank])]
            · rw [recordsFrom_of_blank number rest blank, success]
        | false =>
            obtain ⟨fields, read, width⟩ := Record.fields?_of_even even
            refine ⟨fields :: others, ?_, ?_⟩
            · rw [List.filter_cons_of_pos (by simp [blank])]
              exact .cons ⟨read, width⟩ readRest
            · rw [recordsFrom_of_fields number rest blank read, success]
              rfl

namespace Table

def ofRecords (headed : Bool) (first : List (List Char)) (rest : List (List (List Char))) : Table :=
  if headed then ⟨first, ⟨rest.map (·.map Record.value)⟩⟩
  else ⟨[], ⟨(first :: rest).map (·.map Record.value)⟩⟩

theorem ofText_of_records {headed : Bool} {text : List Char} {first : List (List Char)}
    {rest : List (List (List Char))} (read : records text = .ok (first :: rest)) :
    ofText headed text = .ok (ofRecords headed first rest) := by
  rw [ofText, read, ofRecords]
  cases headed <;> rfl

theorem ofText_of_error {headed : Bool} {text : List Char} {error : TableError}
    (failed : records text = .error error) : ofText headed text = .error error := by
  rw [ofText, failed]
  rfl

theorem ofText_of_none {headed : Bool} {text : List Char} (read : records text = .ok []) :
    ofText headed text = .error .empty := by
  rw [ofText, read]
  rfl

/-- A text of blank lines is no table. Any other text is refused for the first line whose quotes are
odd in number, and no other; if there is none, it becomes a table with one record for each line that
is not blank, in their order, and a record has one field more than commas separate in its line. -/
theorem ofText_by_lines (headed : Bool) (text : List Char) :
    (ofText headed text = .error .empty ↔ ∀ line ∈ lines text, ∀ c ∈ line, isBlank c = true) ∧
    (∀ number, ofText headed text = .error (.unterminatedField number) ↔
      IsFirstOpen (lines text) number) ∧
    ((∃ line ∈ lines text, ∃ c ∈ line, isBlank c = false) →
      (∀ line ∈ lines text, line.count '"' % 2 = 0) →
        ∃ first rest,
          List.Forall₂ Record.IsReadAs ((lines text).filter fun line => !isBlankLine line)
            (first :: rest) ∧
          ofText headed text = .ok (ofRecords headed first rest)) := by
  have noRecord : ((lines text).filter fun line => !isBlankLine line) = [] ↔
      ∀ line ∈ lines text, ∀ c ∈ line, isBlank c = true := by
    rw [List.filter_eq_nil_iff]
    apply forall₂_congr
    intro line _
    rw [← isBlankLine_iff, Bool.not_eq_true, Bool.not_eq_false']
  rcases recordsFrom_cases 1 (lines text) with
    ⟨place, firstOpen, failed⟩ | ⟨even, found, read, success⟩
  · -- The quotes of some line are odd in number.
    have outcome : ofText headed text = .error (.unterminatedField (1 + place)) :=
      ofText_of_error failed
    rw [outcome]
    refine ⟨⟨by simp, ?_⟩, ?_, ?_⟩
    · intro allBlank
      apply absurd _ firstOpen.not_even
      intro line member
      exact even_of_isBlankLine (isBlankLine_iff.mpr (allBlank line member))
    · intro number
      rw [Except.error.injEq, TableError.unterminatedField.injEq, Nat.add_comm]
      constructor
      · rintro rfl
        exact firstOpen
      · intro also
        exact (firstOpen.unique also).symm
    · intro _ even
      exact absurd even firstOpen.not_even
  · -- Each line that is not blank is a record.
    have noneOpen (number : Nat) : ¬ IsFirstOpen (lines text) number :=
      fun firstOpen => firstOpen.not_even even
    cases found with
    | nil =>
        have allBlank := noRecord.mp (List.forall₂_nil_right_iff.mp read)
        rw [ofText_of_none success]
        refine ⟨⟨fun _ => allBlank, fun _ => rfl⟩, ?_, ?_⟩
        · intro number
          simp [noneOpen number]
        · rintro ⟨line, member, c, inLine, visible⟩
          rw [allBlank line member c inLine] at visible
          contradiction
    | cons first rest =>
        rw [ofText_of_records success]
        refine ⟨⟨by simp, ?_⟩, ?_, ?_⟩
        · intro allBlank
          rw [noRecord.mpr allBlank] at read
          cases read
        · intro number
          simp [noneOpen number]
        · intro _ _
          exact ⟨first, rest, read, rfl⟩

/-- Behind a blank line, two records, of which the first holds a comma and a quote in one field. -/
theorem ofText_by_lines_of_quoted_comma :
    ∃ first rest,
      List.Forall₂ Record.IsReadAs
        ((lines " \n\"a,\"\"b\",c\r\n1".toList).filter fun line => !isBlankLine line)
        (first :: rest) ∧
      ofText true " \n\"a,\"\"b\",c\r\n1".toList = .ok (ofRecords true first rest) :=
  (ofText_by_lines true " \n\"a,\"\"b\",c\r\n1".toList).2.2
    ⟨"1".toList, by decide, '1', by decide, by decide⟩ (by decide)

end Table

end Worksheet
