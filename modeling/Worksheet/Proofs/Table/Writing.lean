import Mathlib
import Worksheet.Proofs.Table.Reading

/-!
# Writing tables

A field is written as a literal, or as it is if it has no comma and no quote and no blanks around
it. Commas stand between the fields of a record and line ends between records. Reading gives back
what was written, however each field and each line end was chosen.
-/

set_option autoImplicit false

namespace Worksheet

structure WrittenField where
  content : List Char
  quoted : Bool
  oneLine : '\n' ∉ content
  bare : quoted = false → ',' ∉ content ∧ '"' ∉ content ∧ trim content = content

def WrittenField.chars (field : WrittenField) : List Char :=
  if field.quoted then quote field.content else field.content

/-- The fields of a record. An empty field cannot stand alone without quotes, for this would be a
blank line. -/
structure WrittenRecord where
  first : WrittenField
  rest : List WrittenField
  visible : rest = [] → first.quoted = false → first.content ≠ []

def WrittenRecord.contents (record : WrittenRecord) : List (List Char) :=
  (record.first :: record.rest).map (·.content)

def WrittenRecord.chars (record : WrittenRecord) : List Char :=
  [','].intercalate ((record.first :: record.rest).map (·.chars))

inductive LineEnd where
  | lf
  | crlf

def LineEnd.chars : LineEnd → List Char
  | lf => ['\n']
  | crlf => ['\r', '\n']

/-- Records with the line end in front of each but the first, and one behind the last if there is
any. -/
structure WrittenTable where
  first : WrittenRecord
  rest : List (LineEnd × WrittenRecord)
  close : Option LineEnd

def WrittenTable.chars (table : WrittenTable) : List Char :=
  table.first.chars ++
    (table.rest.flatMap (fun (lineEnd, record) => lineEnd.chars ++ record.chars) ++
      table.close.elim [] LineEnd.chars)

theorem mem_of_mem_doubleQuotes {content : List Char} {c : Char}
    (member : c ∈ doubleQuotes content) : c ∈ content := by
  induction content with
  | nil => exact member
  | cons d content ih =>
      by_cases isQuote : d = '"'
      · simp only [doubleQuotes, if_pos isQuote, List.mem_cons] at member ⊢
        rcases member with rfl | rfl | behind
        · exact .inl isQuote.symm
        · exact .inl isQuote.symm
        · exact .inr (ih behind)
      · simp only [doubleQuotes, if_neg isQuote, List.mem_cons] at member ⊢
        exact member.imp_right ih

namespace Record

theorem isWhole_plain {text : List Char} (noComma : ',' ∉ text) (noQuote : '"' ∉ text) :
    IsWhole text := by
  induction text with
  | nil => exact ⟨rfl, rfl⟩
  | cons c text ih =>
      have behind := ih (List.not_mem_of_not_mem_cons noComma)
        (List.not_mem_of_not_mem_cons noQuote)
      have notComma : c ≠ ',' := (List.ne_of_not_mem_cons noComma).symm
      have notQuote : c ≠ '"' := (List.ne_of_not_mem_cons noQuote).symm
      constructor
      · rw [endsQuoted, if_neg notQuote]
        exact behind.closed
      · rw [separatorCount_cons, if_neg notQuote, if_neg fun separates => notComma separates.1]
        rw [behind.undivided]

theorem isWhole_quote (content : List Char) : IsWhole (quote content) := by
  have within : separatorCount true (doubleQuotes content ++ ['"']) = 0 ∧
      endsQuoted true (doubleQuotes content ++ ['"']) = false := by
    induction content with
    | nil => exact ⟨rfl, rfl⟩
    | cons c content ih =>
        by_cases isQuote : c = '"'
        · simpa [doubleQuotes, isQuote, separatorCount_cons, endsQuoted] using ih
        · simpa [doubleQuotes, isQuote, separatorCount_cons, endsQuoted] using ih
  constructor
  · rw [quote, endsQuoted]
    exact within.2
  · rw [quote, separatorCount_cons]
    simpa using within.1

theorem spelled_quote (content : List Char) : spelled false (quote content) = content := by
  have within : spelled true (doubleQuotes content ++ ['"']) = content := by
    induction content with
    | nil => rfl
    | cons c content ih =>
        by_cases isQuote : c = '"'
        · simp [doubleQuotes, isQuote, spelled, ih]
        · simp [doubleQuotes, isQuote, spelled, ih]
  have opening (text : List Char) : spelled false ('"' :: text) = spelled true text := by
    simp [spelled]
  rw [quote, opening, within]

end Record

namespace WrittenField

variable (field : WrittenField)

theorem isWhole : Record.IsWhole field.chars := by
  rw [chars]
  cases quoted : field.quoted with
  | true => exact Record.isWhole_quote field.content
  | false =>
      obtain ⟨noComma, noQuote, _⟩ := field.bare quoted
      exact Record.isWhole_plain noComma noQuote

theorem fieldText_chars : Record.fieldText field.chars = field.content := by
  rw [chars, Record.fieldText]
  cases quoted : field.quoted with
  | true =>
      have opened : (quote field.content).contains '"' = true := by simp [quote]
      rw [if_pos rfl, if_pos opened, Record.spelled_quote]
  | false =>
      obtain ⟨_, noQuote, trimmed⟩ := field.bare quoted
      have plain : field.content.contains '"' = false := by simpa using noQuote
      rw [if_neg Bool.false_ne_true, plain, if_neg Bool.false_ne_true, trimmed]

theorem oneLine_chars : '\n' ∉ field.chars := by
  rw [chars]
  cases field.quoted with
  | true =>
      intro member
      have within : '\n' ∈ doubleQuotes field.content := by simpa [quote] using member
      exact field.oneLine (mem_of_mem_doubleQuotes within)
  | false => exact field.oneLine

theorem last_chars : ∀ c ∈ field.chars.getLast?, c ≠ '\r' := by
  intro c last
  rw [chars] at last
  cases quoted : field.quoted with
  | true =>
      rw [quoted, if_pos rfl, quote, ← List.cons_append, List.getLast?_concat] at last
      obtain rfl := Option.some.inj last
      decide
  | false =>
      obtain ⟨_, _, trimmed⟩ := field.bare quoted
      rw [quoted, if_neg Bool.false_ne_true] at last
      have visible := isBlank_last trimmed c last
      rintro rfl
      revert visible
      decide

end WrittenField

/-! ## Records and tables -/

section Joined

variable {first : List Char} {rest : List (List Char)} {c : Char}

theorem eq_or_exists_of_last_intercalate
    (last : c ∈ ([','].intercalate (first :: rest)).getLast?) :
    c = ',' ∨ ∃ text ∈ first :: rest, c ∈ text.getLast? := by
  induction rest generalizing first with
  | nil =>
      rw [List.intercalate_singleton] at last
      exact .inr ⟨first, List.mem_cons_self, last⟩
  | cons second rest ih =>
      rw [List.intercalate_cons_cons, List.getLast?_append, List.getLast?_append] at last
      cases behind : ([','].intercalate (second :: rest)).getLast? with
      | none =>
          rw [behind] at last
          exact .inl (Option.some.inj last).symm
      | some d =>
          rw [behind] at last
          obtain rfl : d = c := Option.some.inj last
          apply (ih behind).imp_right
          rintro ⟨text, listed, ends⟩
          exact ⟨text, List.mem_cons_of_mem _ listed, ends⟩

end Joined

namespace WrittenRecord

variable (record : WrittenRecord)

theorem fields?_chars : Record.fields? record.chars = some record.contents := by
  have whole : ∀ text ∈ (record.first :: record.rest).map (·.chars), Record.IsWhole text := by
    simp only [List.forall_mem_map]
    intro field _
    exact field.isWhole
  rw [chars, List.map_cons, Record.fields?_intercalate _ _ whole, ← List.map_cons, List.map_map,
    contents]
  congr 2
  funext field
  exact field.fieldText_chars

theorem isBlankLine_chars : isBlankLine record.chars = false := by
  have seen : ∃ c ∈ record.chars, isBlank c = false := by
    cases others : record.rest with
    | cons second rest =>
        refine ⟨',', ?_, by decide⟩
        simp [chars, others, List.intercalate_cons_cons]
    | nil =>
        have alone : record.chars = record.first.chars := by
          rw [chars, others, List.map_singleton, List.intercalate_singleton]
        rw [alone, WrittenField.chars]
        cases quoted : record.first.quoted with
        | true => exact ⟨'"', by simp [quote], by decide⟩
        | false =>
            obtain ⟨_, _, trimmed⟩ := record.first.bare quoted
            have nonempty := record.visible others quoted
            exact ⟨_, List.getLast_mem nonempty,
              isBlank_last trimmed _ (List.getLast?_eq_some_getLast nonempty)⟩
  obtain ⟨c, member, visible⟩ := seen
  rw [Bool.eq_false_iff]
  intro blank
  rw [isBlankLine_iff.mp blank c member] at visible
  contradiction

theorem oneLine : '\n' ∉ record.chars := by
  intro member
  rcases eq_or_exists_of_mem_intercalate member with isComma | ⟨text, listed, within⟩
  · contradiction
  · obtain ⟨field, _, rfl⟩ := List.mem_map.mp listed
    exact field.oneLine_chars within

theorem last_chars : ∀ c ∈ record.chars.getLast?, c ≠ '\r' := by
  intro c last
  rcases eq_or_exists_of_last_intercalate last with rfl | ⟨text, listed, ends⟩
  · decide
  · rw [← List.map_cons] at listed
    obtain ⟨field, _, rfl⟩ := List.mem_map.mp listed
    exact field.last_chars c ends

end WrittenRecord

theorem lines_cons {c : Char} {rest : List Char} (notEnd : c ≠ '\n')
    (apart : c = '\r' → ∀ d ∈ rest.head?, d ≠ '\n') :
    lines (c :: rest) = extendFirst c (lines rest) := by
  rw [lines]
  · exact notEnd
  · rintro behind isReturn rfl
    exact apart isReturn '\n' rfl rfl

theorem lines_single {text : List Char} (nonempty : text ≠ []) (single : '\n' ∉ text) :
    lines text = [text] := by
  induction text with
  | nil => exact absurd rfl nonempty
  | cons c text ih =>
      have behind : '\n' ∉ text := List.not_mem_of_not_mem_cons single
      rw [lines_cons (List.ne_of_not_mem_cons single).symm]
      · cases text with
        | nil => rfl
        | cons d text => rw [ih (List.cons_ne_nil _ _) behind, extendFirst]
      · rintro _ d head rfl
        exact behind (List.mem_of_mem_head? head)

/-- The line end is not part of the line. The line must not end in a carriage return, which would
become part of the line end. -/
theorem lines_lineEnd {text : List Char} (single : '\n' ∉ text)
    (last : ∀ c ∈ text.getLast?, c ≠ '\r') (lineEnd : LineEnd) (rest : List Char) :
    lines (text ++ (lineEnd.chars ++ rest)) = text :: lines rest := by
  induction text with
  | nil => cases lineEnd <;> simp [LineEnd.chars, lines]
  | cons c text ih =>
      have behind : '\n' ∉ text := List.not_mem_of_not_mem_cons single
      have lastBehind : ∀ d ∈ text.getLast?, d ≠ '\r' :=
        fun d ends => last d (List.mem_getLast?_cons ends)
      have next := ih behind lastBehind
      rw [List.cons_append, lines_cons (List.ne_of_not_mem_cons single).symm, next, extendFirst]
      intro isReturn d head
      cases text with
      | nil => exact absurd isReturn (last c rfl)
      | cons e text =>
          obtain rfl : e = d := by simpa using head
          exact (List.ne_of_not_mem_cons behind).symm

namespace WrittenTable

def records (table : WrittenTable) : List WrittenRecord :=
  table.first :: table.rest.map (·.2)

theorem lines_chars (table : WrittenTable) : lines table.chars = table.records.map (·.chars) := by
  obtain ⟨first, rest, close⟩ := table
  induction rest generalizing first with
  | nil =>
      cases close with
      | none =>
          have nonempty : first.chars ≠ [] := by
            intro empty
            have seen := first.isBlankLine_chars
            rw [empty] at seen
            contradiction
          simpa [chars, records] using lines_single nonempty first.oneLine
      | some lineEnd =>
          have ended := lines_lineEnd first.oneLine first.last_chars lineEnd []
          simpa [chars, records, lines] using ended
  | cons next rest ih =>
      obtain ⟨lineEnd, second⟩ := next
      have unfolded : chars ⟨first, (lineEnd, second) :: rest, close⟩ =
          first.chars ++ (lineEnd.chars ++ chars ⟨second, rest, close⟩) := by
        simp [chars]
      rw [unfolded, lines_lineEnd first.oneLine first.last_chars, ih]
      rfl

end WrittenTable

theorem recordsFrom_chars (number : Nat) (written : List WrittenRecord) :
    recordsFrom number (written.map (·.chars)) = .ok (written.map (·.contents)) := by
  induction written generalizing number with
  | nil => rfl
  | cons record written ih =>
      rw [List.map_cons,
        recordsFrom_of_fields number _ record.isBlankLine_chars record.fields?_chars, ih]
      rfl

/-- Reading undoes writing: a written table has its records as its rows, with the value of each
field, and with the first record as the headers its fields are the headers. -/
theorem Table.ofText_written (table : WrittenTable) :
    Table.ofText false table.chars =
        .ok ⟨[], ⟨table.records.map fun record => record.contents.map Record.value⟩⟩ ∧
      Table.ofText true table.chars =
        .ok ⟨table.first.contents,
          ⟨table.rest.map fun (_, record) => record.contents.map Record.value⟩⟩ := by
  have read : records table.chars = .ok (table.records.map (·.contents)) := by
    change recordsFrom 1 (lines table.chars) = _
    rw [table.lines_chars, recordsFrom_chars]
  rw [WrittenTable.records, List.map_cons, List.map_map] at read
  constructor
  · rw [ofText_of_records read]
    simp [ofRecords, WrittenTable.records]
  · rw [ofText_of_records read]
    simp [ofRecords]

def quotedTable : WrittenTable where
  first :=
    { first := ⟨"a,\"".toList, true, by decide, by decide⟩
      rest := [⟨"x".toList, false, by decide, by decide⟩]
      visible := by decide }
  rest := [(.crlf, ⟨⟨[], true, by decide, by decide⟩, [], by decide⟩)]
  close := none

theorem Table.ofText_written_of_quotes :
    quotedTable.chars = "\"a,\"\"\",x\r\n\"\"".toList ∧
      Table.ofText true quotedTable.chars =
        .ok ⟨["a,\"".toList, "x".toList], ⟨[[.text []]]⟩⟩ :=
  ⟨by decide, (Table.ofText_written quotedTable).2⟩

end Worksheet
