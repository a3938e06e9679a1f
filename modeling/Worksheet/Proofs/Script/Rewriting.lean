import Mathlib
import Worksheet.Proofs.Script.Literal
import Worksheet.Proofs.Script.Reduction

/-!
# What a reduction can make of a script

Seen from outside, a reduction that succeeds has gone through the groups of a script one by one:
it has reduced what stands in each, and then it has either replaced the group and its name by the
literal of a value, or kept both. A name is only kept when it stands directly behind another group,
whose literal has joined it; `Rewrites` says so without the passes.
-/

set_option autoImplicit false

namespace Worksheet

namespace Script

/-- What a reduction of at most so many passes can make of a script. The flag tells whether a group
stands directly in front of the script. -/
inductive Rewrites (call : CallValue) (limit passes : Nat) : Bool → Script → List Char → Prop
  | plain {behindGroup : Bool} {content : List Char} :
      Rewrites call limit passes behindGroup (plain content) content
  | kept {behindGroup : Bool} {lead : List Char} {inner rest residue : Script} {text : List Char}
      (lost : ∀ name, callName? lead = some name → behindGroup = true ∧ beforeName lead name = [])
      (reduced : inner.reduce call limit passes = .ok residue)
      (others : Rewrites call limit passes true rest text) :
      Rewrites call limit passes behindGroup (group lead inner rest)
        (lead ++ ('(' :: (residue.chars ++ [')'])) ++ text)
  | replaced {behindGroup : Bool} {lead name : List Char} {inner rest residue : Script}
      {text : List Char} {earlier : Nat} {value : Value}
      (named : callName? lead = some name) (sooner : earlier < passes)
      (reduced : inner.reduce call limit earlier = .ok residue)
      (called : call name (Arguments.split residue.chars) = .ok value)
      (others : Rewrites call limit passes true rest text) :
      Rewrites call limit passes behindGroup (group lead inner rest)
        (beforeName lead name ++ value.literal ++ text)

variable {call : CallValue} {limit passes : Nat}

theorem rewrites_of_no_call {script : Script} (none : script.hasCall = false)
    (behindGroup : Bool) : Rewrites call limit passes behindGroup script script.chars := by
  induction script generalizing behindGroup with
  | plain content => exact .plain
  | group lead inner rest _ ihRest =>
      simp only [hasCall, Bool.or_eq_false_iff] at none
      obtain ⟨⟨nameless, innerNone⟩, restNone⟩ := none
      have unnamed : callName? lead = Option.none := by simpa using nameless
      have kept : Rewrites call limit passes behindGroup (group lead inner rest)
          (lead ++ ('(' :: (inner.chars ++ [')'])) ++ rest.chars) := by
        refine .kept (fun name named => ?_) (reduce_of_no_call innerNone passes) (ihRest restNone true)
        rw [unnamed] at named
        cases named
      simpa [chars] using kept

/-- Text without a name at its end stays in front of whatever becomes of a script. -/
theorem Rewrites.of_prepend {text : List Char} (nameless : callName? text = none)
    {script : Script} {behindGroup : Bool} {result : List Char}
    (rewrites : Rewrites call limit passes behindGroup (script.prepend text) result) :
    ∃ others, result = text ++ others ∧ Rewrites call limit passes true script others := by
  cases script with
  | plain content =>
      cases rewrites
      exact ⟨content, rfl, .plain⟩
  | group lead inner rest =>
      cases rewrites with
      | @kept _ _ _ _ residue others lost reduced tail =>
          refine ⟨_, by rw [List.append_assoc, List.append_assoc], ?_⟩
          rw [← List.append_assoc]
          refine .kept (fun name named => ⟨rfl, ?_⟩) reduced tail
          rcases callName?_append nameless lead with same | ⟨_, whole⟩
          · have none := (lost name (same.trans named)).2
            rw [beforeName_append named] at none
            exact (List.append_eq_nil_iff.mp none).2
          · exact beforeName_of_whole named whole
      | @replaced _ _ name _ _ residue others earlier value named sooner reduced called tail =>
          have named' : callName? lead = some name := by
            rcases callName?_append nameless lead with same | ⟨gone, _⟩
            · exact same ▸ named
            · rw [gone] at named
              cases named
          refine ⟨_, ?_, .replaced named' sooner reduced called tail⟩
          rw [beforeName_append named']
          simp

theorem Rewrites.of_splice {front : List Char} (stops : StopsName front.reverse) {value : Value}
    (finite : value.IsFinite) {script : Script} {behindGroup : Bool} {result : List Char}
    (rewrites : Rewrites call limit passes behindGroup (splice front value script) result) :
    ∃ others, result = front ++ value.literal ++ others ∧
      Rewrites call limit passes true script others := by
  rcases splice_cases finite front script with
    ⟨plain, spliced⟩ | ⟨literalInner, _, literal, spliced⟩
  · have nameless : callName? (front ++ value.literal) = none := by
      rw [callName?, List.reverse_append]
      exact plain.nameless _ stops
    rw [spliced] at rewrites
    exact rewrites.of_prepend nameless
  · -- a negative number stands in a group without a name, which holds no call
    rw [spliced] at rewrites
    cases rewrites with
    | @kept _ _ _ _ _ others _ reduced tail =>
        rw [reduce_of_no_call rfl] at reduced
        cases reduced
        exact ⟨others, by rw [chars, ← literal], tail⟩
    | replaced found _ _ _ _ =>
        rw [callName?, stops.nameBehind?_eq] at found
        cases found

theorem rewrites_of_pass (finite : ReturnsFinite call) {script passed : Script}
    (success : script.pass call = .ok passed) {behindGroup : Bool} {text : List Char}
    (rewrites : Rewrites call limit passes behindGroup passed text) :
    Rewrites call limit (passes + 1) behindGroup script text := by
  rw [pass_eq_ok] at success
  induction success generalizing behindGroup text with
  | plain content =>
      cases rewrites
      exact .plain
  | inward nested innerPasses _ _ ihRest =>
      have innerSuccess := pass_eq_ok.mpr innerPasses
      cases rewrites with
      | kept lost reduced tail =>
          exact .kept lost (reduce_of_pass innerSuccess nested reduced) (ihRest tail)
      | replaced named sooner reduced called tail =>
          exact .replaced named (Nat.succ_lt_succ sooner)
            (reduce_of_pass innerSuccess nested reduced) called (ihRest tail)
  | kept _ nameless _ ihRest =>
      cases rewrites with
      | kept lost reduced tail => exact .kept lost (reduce_succ reduced) (ihRest tail)
      | replaced found _ _ _ _ =>
          rw [nameless] at found
          cases found
  | replaced leaf named called _ ihRest =>
      obtain ⟨others, rfl, tail⟩ :=
        rewrites.of_splice (lead_eq_of_callName? named).2 (finite _ _ _ called)
      exact .replaced named (Nat.succ_pos passes) (reduce_of_no_call leaf 0) called (ihRest tail)

theorem rewrites_of_reduce (finite : ReturnsFinite call) {script residue : Script}
    (success : script.reduce call limit passes = .ok residue) :
    Rewrites call limit passes false script residue.chars := by
  rw [reduce_eq_ok] at success
  induction success with
  | done none => exact rewrites_of_no_call none false
  | step _ success _ ih => exact rewrites_of_pass finite success ih

/-! ## Parts of a text -/

theorem chars_append (first last : Script) :
    (first.append last).chars = first.chars ++ last.chars := by
  induction first with
  | plain content => exact chars_prepend content last
  | group lead inner rest _ ih => simp [append, chars, ih]

theorem Matched.append {inside : Bool} {first last : Script} (matched : first.Matched inside)
    (lastMatched : last.Matched false) : (first.append last).Matched inside := by
  induction first generalizing inside with
  | plain content => exact lastMatched.prepend matched
  | group lead inner rest _ ih => exact ⟨matched.1, matched.2.1, ih matched.2.2⟩

theorem exists_of_ofChars_append {front rest : List Char} {script : Script}
    (checked : check 0 false front = .ok ()) (read : ofChars (front ++ rest) = .ok script) :
    ∃ first last, ofChars front = .ok first ∧ ofChars rest = .ok last ∧
      script = first.append last := by
  have restChecked : check 0 false rest = .ok () := by
    obtain ⟨matched, chars⟩ := ofChars_eq_ok.mp read
    rw [← check_append checked, ← chars, matched.checked]
  obtain ⟨first, firstRead⟩ := ofChars_of_check checked
  obtain ⟨last, lastRead⟩ := ofChars_of_check restChecked
  obtain ⟨firstMatched, rfl⟩ := ofChars_eq_ok.mp firstRead
  obtain ⟨lastMatched, rfl⟩ := ofChars_eq_ok.mp lastRead
  have whole : ofChars (first.chars ++ last.chars) = .ok (first.append last) :=
    ofChars_eq_ok.mpr ⟨firstMatched.append lastMatched, chars_append first last⟩
  exact ⟨first, last, firstRead, lastRead, Except.ok.inj (read.symm.trans whole)⟩

theorem callName?_behind_closing (front lead : List Char) :
    callName? (front ++ ')' :: lead) = callName? lead := by
  rw [callName?, callName?, List.reverse_append, List.reverse_cons, List.append_assoc]
  exact nameBehind?_append_of_stops _ (stopsName_closing _)

/-- A matched text without a name at its end is rewritten by itself, and its commas stay. -/
theorem Rewrites.of_append (finite : ReturnsFinite call) {front rest : List Char} {script : Script}
    (read : ofChars (front ++ rest) = .ok script) (checked : check 0 false front = .ok ())
    (nameless : callName? front = none) {behindGroup : Bool} {rewritten : List Char}
    (rewrites : Rewrites call limit passes behindGroup script rewritten) :
    ∃ last before others, ofChars rest = .ok last ∧ rewritten = before ++ others ∧
      check 0 false before = .ok () ∧ Arguments.commas before = Arguments.commas front ∧
      Rewrites call limit passes true last others := by
  obtain ⟨first, last, firstRead, lastRead, rfl⟩ := exists_of_ofChars_append checked read
  obtain ⟨firstMatched, rfl⟩ := ofChars_eq_ok.mp firstRead
  refine ⟨last, ?_⟩
  clear read checked firstRead
  -- group by group through the front; its last text holds no name, so the rest is rewritten apart
  induction first generalizing behindGroup rewritten with
  | plain content =>
      obtain ⟨others, rfl, othersRewrite⟩ := rewrites.of_prepend nameless
      exact ⟨content, others, lastRead, rfl, @Matched.checked (Script.plain content) false firstMatched,
        rfl, othersRewrite⟩
  | group lead inner rest _ ih =>
      obtain ⟨flat, innerMatched, restMatched⟩ := firstMatched
      have leadChecked : check 0 false lead = .ok () := @Matched.checked (Script.plain lead) false flat
      have restNameless : callName? rest.chars = none := by
        rw [← callName?_behind_closing (lead ++ '(' :: inner.chars)]
        exact nameless
      have wholeCommas : Arguments.commas (group lead inner rest).chars =
          Arguments.commas lead + Arguments.commas rest.chars := by
        rw [← Arguments.commas_group leadChecked innerMatched.checked, chars]
        simp
      cases rewrites with
      | @kept _ _ _ _ residue _ lost reduced tail =>
          obtain ⟨before, others, _, rfl, checked, sameCommas, othersRewrite⟩ :=
            ih tail restMatched restNameless
          have residueChecked := (matched_reduce finite innerMatched reduced).checked
          have assoc : lead ++ ('(' :: (residue.chars ++ [')'])) ++ before =
              lead ++ '(' :: (residue.chars ++ ')' :: before) := by simp
          refine ⟨lead ++ ('(' :: (residue.chars ++ [')'])) ++ before, others, lastRead, by simp,
            ?_, ?_, othersRewrite⟩
          · rw [assoc, check_group leadChecked residueChecked, checked]
          · rw [assoc, Arguments.commas_group leadChecked residueChecked, wholeCommas, sameCommas]
      | @replaced _ _ name _ _ _ _ _ value named sooner reduced called tail =>
          obtain ⟨before, others, _, rfl, checked, sameCommas, othersRewrite⟩ :=
            ih tail restMatched restNameless
          have literal := isLiteral_literal (finite _ _ _ called)
          have solid := Arguments.isSolid_name fun c member => isNameChar_of_mem_name named member
          have frontChecked : check 0 false (beforeName lead name) = .ok () :=
            @Matched.checked (Script.plain _) false (isFlat_beforeName flat named)
          have leadCommas : Arguments.commas lead = Arguments.commas (beforeName lead name) := by
            conv_lhs => rw [(lead_eq_of_callName? named).1, Arguments.commas_append frontChecked,
              solid.commas_eq, Nat.add_zero]
          refine ⟨beforeName lead name ++ value.literal ++ before, others, lastRead, by simp, ?_, ?_,
            othersRewrite⟩
          · rw [List.append_assoc, check_append frontChecked, check_append literal.checked, checked]
          · rw [List.append_assoc, Arguments.commas_append frontChecked,
              Arguments.commas_append literal.checked, literal.isSolid.commas_eq, wholeCommas,
              leadCommas, sameCommas, Nat.zero_add]

/-- A group at the start of a text is kept, or replaced with the name in front of it. -/
theorem Rewrites.of_group {lead text back : List Char} {script : Script}
    (read : ofChars (lead ++ '(' :: (text ++ ')' :: back)) = .ok script)
    (flat : isFlat false lead = true) (checkedText : check 0 false text = .ok ())
    {behindGroup : Bool} {rewritten : List Char}
    (rewrites : Rewrites call limit passes behindGroup script rewritten) :
    ∃ inner last others, ofChars text = .ok inner ∧ ofChars back = .ok last ∧
      Rewrites call limit passes true last others ∧
      ((∃ residue, inner.reduce call limit passes = .ok residue ∧
          rewritten = lead ++ ('(' :: (residue.chars ++ [')'])) ++ others) ∨
        ∃ name residue earlier value, callName? lead = some name ∧ earlier < passes ∧
          inner.reduce call limit earlier = .ok residue ∧
          call name (Arguments.split residue.chars) = .ok value ∧
          rewritten = beforeName lead name ++ value.literal ++ others) := by
  have checkedBack : check 0 false back = .ok () := by
    obtain ⟨matched, chars⟩ := ofChars_eq_ok.mp read
    have leadChecked : check 0 false lead = .ok () := @Matched.checked (Script.plain lead) false flat
    rw [← check_group leadChecked checkedText, ← chars, matched.checked]
  obtain ⟨inner, innerRead⟩ := ofChars_of_check checkedText
  obtain ⟨last, lastRead⟩ := ofChars_of_check checkedBack
  obtain ⟨innerMatched, rfl⟩ := ofChars_eq_ok.mp innerRead
  obtain ⟨lastMatched, rfl⟩ := ofChars_eq_ok.mp lastRead
  have whole : ofChars (lead ++ '(' :: (inner.chars ++ ')' :: last.chars)) =
      .ok (group lead inner last) :=
    ofChars_eq_ok.mpr ⟨⟨flat, innerMatched, lastMatched⟩, by simp [chars]⟩
  obtain rfl := Except.ok.inj (whole.symm.trans read)
  cases rewrites with
  | kept _ reduced others =>
      exact ⟨inner, last, _, innerRead, lastRead, others, .inl ⟨_, reduced, rfl⟩⟩
  | replaced named sooner reduced called others =>
      exact ⟨inner, last, _, innerRead, lastRead, others,
        .inr ⟨_, _, _, _, named, sooner, reduced, called, rfl⟩⟩

theorem Rewrites.of_literal {literal back : List Char} {script : Script}
    (read : ofChars (literal ++ back) = .ok script) (isLiteral : IsLiteral literal)
    {behindGroup : Bool} {rewritten : List Char}
    (rewrites : Rewrites call limit passes behindGroup script rewritten) :
    ∃ last others, ofChars back = .ok last ∧ rewritten = literal ++ others ∧
      Rewrites call limit passes true last others := by
  have ofFlat (flat : isFlat false literal = true) (nameless : callName? literal = none) :
      ∃ last others, ofChars back = .ok last ∧ rewritten = literal ++ others ∧
        Rewrites call limit passes true last others := by
    have alone : ofChars literal = .ok (.plain literal) := ofChars_eq_ok.mpr ⟨flat, rfl⟩
    have checked : check 0 false literal = .ok () := @Matched.checked (.plain literal) false flat
    obtain ⟨first, last, firstRead, lastRead, rfl⟩ := exists_of_ofChars_append checked read
    obtain rfl := Except.ok.inj (alone.symm.trans firstRead)
    obtain ⟨others, same, othersRewrite⟩ := rewrites.of_prepend nameless
    exact ⟨last, others, lastRead, same, othersRewrite⟩
  cases isLiteral with
  | number numeric _ =>
      refine ofFlat (isFlat_numeric numeric) ?_
      rw [callName?, ← List.append_nil (List.reverse _)]
      exact nameBehind?_of_numeric numeric stopsName_nil
  | text content =>
      refine ofFlat (isFlat_quoted content) ?_
      rw [callName?, ← List.append_nil (List.reverse _)]
      exact (stopsName_quote content []).nameBehind?_eq
  | @negative digits numeric =>
      have flat := isFlat_negative numeric
      have assoc : '(' :: '-' :: (digits ++ [')']) ++ back =
          [] ++ '(' :: ('-' :: digits ++ ')' :: back) := by simp
      rw [assoc] at read
      obtain ⟨inner, last, others, innerRead, lastRead, othersRewrite, kept | replaced⟩ :=
        rewrites.of_group read rfl (@Matched.checked (Script.plain _) false flat)
      · obtain ⟨residue, reduced, rfl⟩ := kept
        have plain : ofChars ('-' :: digits) = .ok (.plain ('-' :: digits)) :=
          ofChars_eq_ok.mpr ⟨flat, rfl⟩
        obtain rfl := Except.ok.inj (plain.symm.trans innerRead)
        rw [reduce_of_no_call rfl] at reduced
        cases reduced
        exact ⟨last, others, lastRead, by simp [chars], othersRewrite⟩
      · obtain ⟨name, _, _, _, named, _⟩ := replaced
        cases named

theorem exists_name_at_end {front : List Char} (checked : check 0 false front = .ok ()) :
    ∃ start lead, front = start ++ lead ∧ check 0 false start = .ok () ∧ callName? start = none ∧
      Arguments.IsSolid lead ∧
      (lead = [] ∧ callName? front = none ∨
        callName? front = some lead ∧ callName? lead = some lead) := by
  cases named : callName? front with
  | none => exact ⟨front, [], by simp, checked, named, Arguments.isSolid_nil, .inl ⟨rfl, rfl⟩⟩
  | some name =>
      obtain ⟨whole, stops⟩ := lead_eq_of_callName? named
      have members : ∀ c ∈ name, isNameChar c = true := fun c => isNameChar_of_mem_name named
      have plain : IsPlain name := isPlain_of_nameChars members
      refine ⟨beforeName front name, name, whole, ?_, stops.nameBehind?_eq,
        Arguments.isSolid_name members, .inr ⟨rfl, callName?_name named⟩⟩
      have idle (depth : Nat) (inside : Bool) : check depth inside name = check depth inside [] := by
        rw [← check_plain depth inside plain [], List.append_nil]
      rwa [whole, check_append_of_idle idle] at checked

end Script

theorem Calculator.exists_rewrites (calculator : Calculator) {text reduced : List Char}
    (success : calculator.reduce text = .ok reduced) :
    ∃ script, Script.ofChars text = .ok script ∧
      Script.Rewrites (calculator.registry.call calculator.settings)
        calculator.settings.nestingLimit calculator.settings.nestingLimit false script reduced := by
  have finite := Script.returnsFinite_call calculator.registry calculator.settings
  have parts := success
  rw [Calculator.reduce, Script.reduceText] at parts
  obtain ⟨script, read, _⟩ := Outcome.bind_eq_ok.mp parts
  obtain ⟨residue, reduction, rfl⟩ := (calculator.reduce_eq_ok read reduced).mp success
  exact ⟨script, read, Script.rewrites_of_reduce finite reduction⟩

end Worksheet
