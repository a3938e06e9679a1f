import Mathlib
import Worksheet.Proofs.Meeting.Operand
import Worksheet.Proofs.Reference.Slot

/-!
# Operands without an operator between them

A formula in which one operand directly follows another has no value, because side by side they are
no expression. Two kinds of arguments are excepted, as they are not read as expressions: `CONCAT`
reads its arguments as text, and `IF` does not look at the branch it leaves out.

The literals of the two operands must not be read as one token, and this hypothesis is load-bearing.
A literal takes the place of an operand with nothing around it, so the digits of one call go on with
those of the next, and so do two quoted texts. Such a formula has a value, although it has none as
soon as a blank stands between the operands.
-/

set_option autoImplicit false

namespace Worksheet

structure Marked where
  through : List Char
  rest : List Char

namespace Marked

def text (marked : Marked) : List Char :=
  marked.through ++ marked.rest

def inGroup (front : List Char) (marked : Marked) (back : List Char) : Marked where
  through := front ++ '(' :: (marked.text ++ [')'])
  rest := back

/-- Between the parentheses of `IF` the mark lies in the argument that is left out. -/
def LeftOut (calculator : Calculator) (grid : Grid) (marked : Marked) : Prop :=
  ∃ through reduced, resolve grid calculator.settings marked.through = .ok through ∧
    calculator.rewrite grid marked.text = .ok reduced ∧
    Library.LeavesOut (Arguments.split reduced) (Arguments.commas through)

end Marked

/-- Two operands meet at the mark, or in the parentheses that it stands behind, outside the
arguments of `CONCAT` and what `IF` leaves out. Their literals are not read as one token. -/
inductive Meets (calculator : Calculator) (grid : Grid) : Marked → Prop
  | here {before after : List Char} {first second : Operand}
      (checkedBefore : Script.check 0 false before = .ok ())
      (checkedAfter : Script.check 0 false after = .ok ())
      (meet : first.MayMeet second) (firstWhole : first.IsWhole before (second.spelled ++ after))
      (secondWhole : second.IsWhole (before ++ first.spelled) after)
      (apart : ∀ left right token, first.literal calculator grid = .ok left →
        second.literal calculator grid = .ok right → Token.ofText (left ++ right) ≠ .ok [token]) :
      Meets calculator grid ⟨before ++ first.spelled, second.spelled ++ after⟩
  | inGroup {front back : List Char} {marked : Marked} (within : Meets calculator grid marked)
      (checkedFront : Script.check 0 false front = .ok ())
      (checkedBack : Script.check 0 false back = .ok ())
      (notText : ∀ name, Script.callName? front = some name → capitals name ≠ textFunction)
      (taken : ∀ name, Script.callName? front = some name →
        capitals name = Library.branchFunction → ¬ marked.LeftOut calculator grid) :
      Meets calculator grid (marked.inGroup front back)

theorem Meets.checked {calculator : Calculator} {grid : Grid} {marked : Marked}
    (meets : Meets calculator grid marked) : Script.check 0 false marked.text = .ok () := by
  induction meets with
  | here checkedBefore checkedAfter _ firstWhole secondWhole _ =>
      rw [Marked.text, List.append_assoc, Script.check_append checkedBefore,
        Script.check_append (Operand.checked firstWhole), Script.check_append (Operand.checked secondWhole), checkedAfter]
  | inGroup _ checkedFront checkedBack _ _ ih =>
      have assoc (front text back : List Char) : front ++ '(' :: (text ++ [')']) ++ back =
          front ++ '(' :: (text ++ ')' :: back) := by simp
      rw [Marked.text, Marked.inGroup, assoc, Script.check_group checkedFront ih, checkedBack]

section

variable {calculator : Calculator} {grid : Grid}

/-- What becomes of a call and the text behind it: the call keeps its name, or its literal takes its
place. -/
theorem Operand.exists_of_rewrites_call {name inner inner' back rewritten : List Char}
    {script : Script} (named : Script.callName? name = some name)
    (innerRead : resolveFrom grid calculator.settings (.opened (opensText name)) inner = .ok inner')
    (checked : Script.check 0 false inner' = .ok ())
    (read : Script.ofChars (name ++ '(' :: (inner' ++ ')' :: back)) = .ok script)
    (rewrites : Script.Rewrites (calculator.registry.call calculator.settings)
      calculator.settings.nestingLimit calculator.settings.nestingLimit true script rewritten) :
    ∃ last others, Script.ofChars back = .ok last ∧
      Script.Rewrites (calculator.registry.call calculator.settings)
        calculator.settings.nestingLimit calculator.settings.nestingLimit true last others ∧
      ((∃ rest, rewritten = name ++ '(' :: rest) ∨
        ∃ spelling, IsLiteral spelling ∧ (call name inner).literal calculator grid = .ok spelling ∧
          rewritten = spelling ++ others) := by
  obtain ⟨innerScript, last, others, innerScriptRead, lastRead, othersRewrite, kept | replaced⟩ :=
    rewrites.of_group read (isFlat_of_plain (isPlain_of_name named)) checked
  · obtain ⟨residue, _, rfl⟩ := kept
    exact ⟨last, others, lastRead, othersRewrite, .inl ⟨residue.chars ++ ')' :: others, by simp⟩⟩
  · obtain ⟨found, residue, passes, value, foundNamed, sooner, reduced, called, rfl⟩ := replaced
    obtain rfl := Option.some.inj (named.symm.trans foundNamed)
    obtain ⟨matched, rfl⟩ := Script.ofChars_eq_ok.mp innerScriptRead
    have becomes : (call name inner).literal calculator grid = .ok value.literal := by
      rw [literal, spelled, Calculator.rewrite, resolve_call named innerRead, Outcome.ok_bind,
        calculator.reduce_of_call named matched sooner reduced, called]
      rfl
    have alone : Script.beforeName name name = [] := by simp [Script.beforeName]
    refine ⟨last, others, lastRead, othersRewrite,
      .inr ⟨_, isLiteral_literal (Registry.isFinite_of_call called), becomes, ?_⟩⟩
    rw [alone, List.nil_append]

/-- A text is jammed where what stands behind a start without a name becomes jammed: the start is
rewritten by itself, and its commas stay. -/
theorem jammedAt_of_start {start rest reduced : List Char}
    (startChecked : Script.check 0 false start = .ok ()) (nameless : Script.callName? start = none)
    (success : calculator.reduce (start ++ rest) = .ok reduced) {place : Nat}
    (jammed : ∀ script others, Script.ofChars rest = .ok script →
      Script.Rewrites (calculator.registry.call calculator.settings)
        calculator.settings.nestingLimit calculator.settings.nestingLimit true script others →
      JammedAt place others) : JammedAt (Arguments.commas start + place) reduced := by
  obtain ⟨script, scriptRead, rewrites⟩ := calculator.exists_rewrites success
  have finite := Script.returnsFinite_call calculator.registry calculator.settings
  obtain ⟨last, head, others, lastRead, rfl, headChecked, headCommas, othersRewrite⟩ :=
    rewrites.of_append finite scriptRead startChecked nameless
  rw [← headCommas]
  exact (jammed last others lastRead othersRewrite).behind headChecked

/-- Whatever the second operand becomes, it is jammed with the literal in front of it. -/
theorem jammedAt_of_second {left : List Char} (isLiteral : IsLiteral left) {second : Operand}
    (notCell : ∀ token, second ≠ .cell token) {before after rest others : List Char}
    (whole : second.IsWhole before after) {script : Script}
    (read : resolve grid calculator.settings (second.spelled ++ after) = .ok rest)
    (restRead : Script.ofChars rest = .ok script)
    (rewrites : Script.Rewrites (calculator.registry.call calculator.settings)
      calculator.settings.nestingLimit calculator.settings.nestingLimit true script others)
    (apart : ∀ right token, second.literal calculator grid = .ok right →
      Token.ofText (left ++ right) ≠ .ok [token]) :
    JammedAt 0 (left ++ others) := by
  have ofItself (itself : second.StandsForItself) : JammedAt 0 (left ++ others) := by
    have resolves : Resolves grid calculator.settings after {} second.spelled second.spelled _ :=
      Operand.resolves_itself itself whole rfl
    have same : resolve grid calculator.settings (second.spelled ++ after) = _ := resolves
    rw [read] at same
    obtain ⟨behind, _, rfl⟩ := Outcome.map_eq_ok.mp same.symm
    have literal := Operand.isLiteral_itself itself whole
    obtain ⟨_, tail, _, rfl, _⟩ := rewrites.of_literal restRead literal
    rw [← List.append_assoc]
    exact jammedAt_of_literals isLiteral literal
      (fun token => apart _ token (Operand.literal_itself itself calculator grid)) tail
  cases second with
  | cell token => exact absurd rfl (notCell token)
  | number digits => exact ofItself trivial
  | text content => exact ofItself trivial
  | call name inner =>
      obtain ⟨ends, checkedInner⟩ := whole
      have named := Script.callName?_name ends
      have plain : IsPlain name := isPlain_of_name named
      have assoc : (Operand.call name inner).spelled ++ after =
          name ++ '(' :: (inner ++ ')' :: after) := by simp [Operand.spelled]
      rw [assoc] at read
      obtain ⟨front, inner', after', rfl, _, _, checkedInner', innerRead, _, through⟩ :=
        exists_of_resolve_group (Script.check_of_plain plain) checkedInner read
      have alone := resolve_call named innerRead
      obtain rfl : front = name := by
        rw [alone] at through
        exact (List.append_cancel_right (Except.ok.inj through)).symm
      -- the name of the call meets the literal in front, or the literal of its value does
      obtain ⟨_, tail, _, _, ⟨others, rfl⟩ | ⟨right, isRight, literal, rfl⟩⟩ :=
        Operand.exists_of_rewrites_call named innerRead checkedInner' restRead rewrites
      · have jammed := (jammedAt_of_name named ('(' :: others)).behind isLiteral.checked
        rwa [isLiteral.isSolid.commas_eq] at jammed
      · rw [← List.append_assoc]
        exact jammedAt_of_literals isLiteral isRight (fun token => apart _ token literal) tail

variable {before after resolved reduced : List Char} {second : Operand}
  (checkedBefore : Script.check 0 false before = .ok ())
  (success : calculator.reduce resolved = .ok reduced)
include checkedBefore success

/-- Behind a call, or behind what its name becomes when it is lost, the text is jammed. -/
theorem jammedAt_of_call {name inner : List Char}
    (whole : (Operand.call name inner).IsWhole before (second.spelled ++ after))
    (notCell : ∀ token, second ≠ .cell token)
    (secondWhole : second.IsWhole (before ++ (Operand.call name inner).spelled) after)
    (apart : ∀ left right token, (Operand.call name inner).literal calculator grid = .ok left →
      second.literal calculator grid = .ok right → Token.ofText (left ++ right) ≠ .ok [token])
    (read : resolve grid calculator.settings
      (before ++ (Operand.call name inner).spelled ++ (second.spelled ++ after)) = .ok resolved) :
    ∃ through, resolve grid calculator.settings (before ++ (Operand.call name inner).spelled) =
        .ok through ∧ JammedAt (Arguments.commas through) reduced := by
  obtain ⟨ends, checkedInner⟩ := whole
  have named := Script.callName?_name ends
  have members : ∀ c ∈ name, isNameChar c = true := fun c => isNameChar_of_mem_name named
  have plain : IsPlain name := isPlain_of_nameChars members
  have checkedFront : Script.check 0 false (before ++ name) = .ok () := by
    rw [Script.check_append checkedBefore, Script.check_of_plain plain]
  have assoc (rest : List Char) : before ++ (Operand.call name inner).spelled ++ rest =
      (before ++ name) ++ '(' :: (inner ++ ')' :: rest) := by simp [Operand.spelled]
  rw [assoc] at read
  obtain ⟨front, inner', rest', rfl, sameName, frontChecked, innerChecked, innerRead, restRead,
    through⟩ := exists_of_resolve_group checkedFront checkedInner read
  obtain ⟨start, lead, rfl, startChecked, nameless, _, ⟨_, none⟩ | ⟨frontNamed, _⟩⟩ :=
    Script.exists_name_at_end frontChecked
  · rw [none, ends] at sameName
    cases sameName
  obtain rfl : name = lead := Option.some.inj (ends.symm.trans (sameName.symm.trans frontNamed))
  have opens : opensText (before ++ name) = opensText name := by simp [opensText, ends, named]
  rw [opens] at innerRead
  have solid := Arguments.isSolid_name members
  refine ⟨start ++ name ++ '(' :: (inner' ++ [')']), by simpa [Operand.spelled] using through, ?_⟩
  rw [Arguments.commas_group frontChecked innerChecked, Arguments.commas_append startChecked,
    solid.commas_eq, Arguments.isSolid_nil.commas_eq]
  rw [List.append_assoc] at success
  refine jammedAt_of_start startChecked nameless success fun last others lastRead othersRewrite => ?_
  obtain ⟨behind, tail, behindRead, tailRewrite,
      ⟨others, rfl⟩ | ⟨left, isLeft, literal, rfl⟩⟩ :=
    Operand.exists_of_rewrites_call named innerRead innerChecked lastRead othersRewrite
  · exact jammedAt_of_name named _
  · exact jammedAt_of_second isLeft notCell secondWhole restRead behindRead tailRewrite
      fun right token => apart _ right token literal

theorem jammedAt_of_cell {token : List Char}
    (whole : (Operand.cell token).IsWhole before (second.spelled ++ after))
    (meet : (Operand.cell token).MayMeet second)
    (secondWhole : second.IsWhole (before ++ (Operand.cell token).spelled) after)
    (apart : ∀ left right token', (Operand.cell token).literal calculator grid = .ok left →
      second.literal calculator grid = .ok right → Token.ofText (left ++ right) ≠ .ok [token'])
    (read : resolve grid calculator.settings
      (before ++ (Operand.cell token).spelled ++ (second.spelled ++ after)) = .ok resolved) :
    ∃ through, resolve grid calculator.settings (before ++ (Operand.cell token).spelled) =
        .ok through ∧ JammedAt (Arguments.commas through) reduced := by
  obtain ⟨itself, c, more, begins, cuts, notOpening⟩ := Operand.cuts_of_mayMeet meet
  have checkedThrough : Script.check 0 false (before ++ token) = .ok () := by
    rw [Script.check_append checkedBefore]
    exact Operand.checked whole
  have fromStart : resolveFrom grid calculator.settings {} (before ++ token ++ c :: (more ++ after)) =
      .ok resolved := by
    rw [begins] at read
    exact read
  obtain ⟨through, back, rfl, throughRead, backRead⟩ :=
    exists_of_resolveFrom_before cuts notOpening fromStart
  obtain ⟨start, left, rfl, startRead, nameless, leftRead⟩ :=
    exists_of_resolve_cell checkedBefore whole throughRead
  have outside : ((before ++ token).foldl Place.step {}).inside = false :=
    (Place.foldl_matched checkedThrough).1
  have resolves : resolveFrom grid calculator.settings ((before ++ token).foldl Place.step {})
      (second.spelled ++ after) = _ := Operand.resolves_itself itself secondWhole outside
  rw [begins, List.cons_append, backRead] at resolves
  obtain ⟨rest, _, rfl⟩ := Outcome.map_eq_ok.mp resolves.symm
  have startChecked : Script.check 0 false start = .ok () :=
    (resolve_keeps startRead).2.trans checkedBefore
  have leftLiteral := isLiteral_cellLiteral leftRead
  refine ⟨start ++ left, throughRead, ?_⟩
  rw [Arguments.commas_append startChecked, leftLiteral.isSolid.commas_eq]
  rw [List.append_assoc, ← begins] at success
  refine jammedAt_of_start startChecked nameless success fun last others lastRead othersRewrite => ?_
  have secondLiteral := Operand.isLiteral_itself itself secondWhole
  obtain ⟨behind, tail, behindRead, rfl, tailRewrite⟩ := othersRewrite.of_literal lastRead leftLiteral
  obtain ⟨_, tail, _, rfl, _⟩ := tailRewrite.of_literal behindRead secondLiteral
  rw [← List.append_assoc]
  exact jammedAt_of_literals leftLiteral secondLiteral
    (fun token' => apart _ _ token' leftRead (Operand.literal_itself itself calculator grid)) tail

end

/-! ## The whole formula -/

section

variable {settings : Settings} {grid : Grid} {marked : Marked}

theorem rewrite_of_reduce {calculator : Calculator} {text resolved : List Char}
    (read : resolve grid calculator.settings text = .ok resolved) {script residue : Script}
    (scriptRead : Script.ofChars resolved = .ok script) {passes : Nat}
    (le : passes ≤ calculator.settings.nestingLimit)
    (reduced : script.reduce (calculator.registry.call calculator.settings)
      calculator.settings.nestingLimit passes = .ok residue) :
    calculator.rewrite grid text = .ok residue.chars := by
  rw [Calculator.rewrite, read, Outcome.ok_bind]
  exact (calculator.reduce_eq_ok scriptRead _).mpr ⟨residue, Script.reduce_mono le reduced, rfl⟩

/-- Where two operands meet in parentheses, what stands in these is jammed in the argument with the
mark, so no call takes it, and the parentheses stay. -/
theorem jammedAt_of_group {front back : List Char}
    (checkedFront : Script.check 0 false front = .ok ())
    (checkedMarked : Script.check 0 false marked.text = .ok ())
    (notText : ∀ name, Script.callName? front = some name → capitals name ≠ textFunction)
    (taken : ∀ name, Script.callName? front = some name →
      capitals name = Library.branchFunction → ¬ marked.LeftOut ⟨settings, .standard⟩ grid)
    (within : ∀ {reduced : List Char},
      Calculator.rewrite ⟨settings, .standard⟩ grid marked.text = .ok reduced →
        ∃ through, resolve grid settings marked.through = .ok through ∧
          JammedAt (Arguments.commas through) reduced)
    {reduced : List Char} (success : Calculator.rewrite ⟨settings, .standard⟩ grid
      (marked.inGroup front back).text = .ok reduced) :
    ∃ through, resolve grid settings (marked.inGroup front back).through = .ok through ∧
      JammedAt (Arguments.commas through) reduced := by
  obtain ⟨resolved, read, reduction⟩ := Outcome.bind_eq_ok.mp success
  have assoc : (marked.inGroup front back).text = front ++ '(' :: (marked.text ++ ')' :: back) := by
    simp [Marked.inGroup, Marked.text]
  rw [assoc] at read
  obtain ⟨front', text', back', rfl, sameName, frontChecked, textChecked, textRead, _,
    throughRead⟩ := exists_of_resolve_group checkedFront checkedMarked read
  have noText : opensText front = false := by
    rw [opensText]
    cases named : Script.callName? front with
    | none => rfl
    | some name => simpa using notText name named
  rw [noText, Place.alike_alone.resolveFrom_eq] at textRead
  refine ⟨_, throughRead, ?_⟩
  obtain ⟨start, lead, rfl, startChecked, nameless, solid, leadCases⟩ :=
    Script.exists_name_at_end frontChecked
  rw [Arguments.commas_group frontChecked textChecked, Arguments.commas_append startChecked,
    solid.commas_eq, Arguments.isSolid_nil.commas_eq]
  rw [List.append_assoc] at reduction
  refine jammedAt_of_start startChecked nameless reduction
    fun last others lastRead othersRewrite => ?_
  have leadPlain : IsPlain lead := by
    rcases leadCases with ⟨rfl, _⟩ | ⟨_, named⟩
    · exact fun _ none => absurd none List.not_mem_nil
    · exact isPlain_of_name named
  obtain ⟨inner, _, tail, innerRead, _, _, kept | replaced⟩ :=
    othersRewrite.of_group lastRead (isFlat_of_plain leadPlain) textChecked
  · obtain ⟨residue, innerReduced, rfl⟩ := kept
    obtain ⟨_, _, jammed⟩ := within (rewrite_of_reduce textRead innerRead le_rfl innerReduced)
    have finite := Script.returnsFinite_call .standard settings
    have residueChecked :=
      (Script.matched_reduce finite (Script.ofChars_eq_ok.mp innerRead).1 innerReduced).checked
    have inGroup := (jammed.group residueChecked tail).behind (Script.check_of_plain leadPlain)
    rw [solid.commas_eq] at inGroup
    simpa using inGroup
  · -- a call would have failed on the argument with the mark
    exfalso
    obtain ⟨name, residue, passes, value, named, sooner, innerReduced, called, rfl⟩ := replaced
    have rewritten := rewrite_of_reduce textRead innerRead sooner.le innerReduced
    obtain ⟨through, throughRead', jammed⟩ := within rewritten
    have frontNamed : Script.callName? front = some name := by
      rcases leadCases with ⟨rfl, _⟩ | ⟨frontNamed, leadNamed⟩
      · cases named
      · rw [← sameName, frontNamed, ← leadNamed, named]
    obtain ⟨error, failed⟩ := jammed.call_fails settings (notText name frontNamed)
      fun branch leaves =>
        taken name frontNamed branch ⟨through, _, throughRead', rewritten, leaves⟩
    rw [failed] at called
    cases called

theorem Meets.jammedAt (meets : Meets ⟨settings, .standard⟩ grid marked) {reduced : List Char}
    (success : Calculator.rewrite ⟨settings, .standard⟩ grid marked.text = .ok reduced) :
    ∃ through, resolve grid settings marked.through = .ok through ∧
      JammedAt (Arguments.commas through) reduced := by
  induction meets generalizing reduced with
  | @here before after first second checkedBefore _ meet firstWhole secondWhole apart =>
      obtain ⟨resolved, read, reduction⟩ := Outcome.bind_eq_ok.mp success
      cases first with
      | call name inner =>
          refine jammedAt_of_call checkedBefore reduction firstWhole ?_ secondWhole apart read
          rintro token rfl
          exact meet
      | cell token =>
          exact jammedAt_of_cell checkedBefore reduction firstWhole meet secondWhole apart read
      | number digits => exact meet.elim
      | text content => exact meet.elim
  | inGroup within checkedFront _ notText taken ih =>
      exact jammedAt_of_group checkedFront within.checked notText taken ih success

/-- A formula in which two operands meet has no value. -/
theorem Calculator.evaluate_of_meets (meets : Meets ⟨settings, .standard⟩ grid marked)
    {formula : List Char} (body : Formula.body formula = marked.text) :
    ∃ error, Calculator.evaluate ⟨settings, .standard⟩ formula grid = .error error := by
  cases outcome : Calculator.evaluate ⟨settings, .standard⟩ formula grid with
  | error error => exact ⟨error, rfl⟩
  | ok value =>
      exfalso
      unfold Calculator.evaluate at outcome
      split at outcome
      · cases outcome
      · rw [body] at outcome
        obtain ⟨resolved, read, outcome⟩ := Outcome.bind_eq_ok.mp outcome
        obtain ⟨reduced, reduction, outcome⟩ := Outcome.bind_eq_ok.mp outcome
        have rewritten : Calculator.rewrite ⟨settings, .standard⟩ grid marked.text = .ok reduced := by
          rw [Calculator.rewrite, read, Outcome.ok_bind, reduction]
        obtain ⟨_, _, jammed⟩ := meets.jammedAt rewritten
        obtain ⟨error, failed⟩ := jammed.isJammed.result_fails
        rw [failed] at outcome
        cases outcome

/-- The branch that `IF` chooses holds a call with a quoted text directly behind it. -/
theorem Calculator.evaluate_of_meets_in_branch :
    ∃ error, Calculator.evaluate {} "=IF(1,SUM(2)\"x\",3)".toList {} = .error error := by
  have meets : Meets {} {} ⟨"1,".toList ++ (Operand.call "SUM".toList "2".toList).spelled,
      (Operand.text "x".toList).spelled ++ ",3".toList⟩ := by
    refine .here (by decide) (by decide) trivial ⟨by decide, by decide⟩
      (by unfold Operand.IsWhole; decide) ?_
    have literal : (Operand.call "SUM".toList "2".toList).literal {} {} = .ok "2".toList := by
      decide +kernel
    have tokens : Token.ofText ("2".toList ++ quote "x".toList) =
        .ok [.number 2.0, .text "x".toList] := by decide +kernel
    intro left right token first second same
    rw [literal] at first
    cases first
    cases second
    rw [tokens] at same
    cases same
  refine evaluate_of_meets
    (@Meets.inGroup {} {} "IF".toList [] _ meets rfl rfl ?_ ?_) (by decide)
  · intro name named
    obtain rfl : name = "IF".toList := (Option.some.inj named).symm
    decide
  · intro name _ _ leftOut
    obtain ⟨through, reduced, throughRead, rewritten, condition, conditionRead, place⟩ := leftOut
    have resolved : resolve {} {} "1,SUM(2)".toList = .ok "1,SUM(2)".toList := by decide +kernel
    have argument : Calculator.rewrite {} {} "1,SUM(2)\"x\",3".toList =
        .ok "1,2\"x\",3".toList := by decide +kernel
    obtain rfl := Except.ok.inj (resolved.symm.trans throughRead)
    obtain rfl := Except.ok.inj (argument.symm.trans rewritten)
    have value : argumentValue "1".toList = .ok (.number 1.0) := by decide +kernel
    obtain rfl := Except.ok.inj (value.symm.trans conditionRead)
    revert place
    decide +kernel

/-- Two sums side by side are read as one number. With a blank between them they are no expression. -/
theorem Calculator.evaluate_of_merged_calls :
    Formula.body "=SUM(1)SUM(2)".toList =
        (Operand.call "SUM".toList "1".toList).spelled ++
          (Operand.call "SUM".toList "2".toList).spelled ∧
      Calculator.check {} "=SUM(1)SUM(2)".toList = [] ∧
      Calculator.evaluate {} "=SUM(1)SUM(2)".toList {} = .ok (.number 12.0) ∧
      Calculator.evaluate {} "=SUM(1) SUM(2)".toList {} =
        .error (.invalidExpression .unexpectedToken) := by
  decide +kernel

/-- What `IF` leaves out is not looked at. -/
example : Calculator.evaluate {} "=IF(1,2,SUM(1)\"x\")".toList {} = .ok (.number 2.0) := by
  decide +kernel

end

end Worksheet
