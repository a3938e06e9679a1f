import Mathlib
import Worksheet.Proofs.Formula.Failure

/-!
# The names that the check looks up

The check looks up the names that are words of their own, in a text whose literals are blanked out. A
call takes whatever name stands directly in front of its parenthesis. The two differ in one case
only: a word character that no name may contain stands in front of the name and makes one word of
both. Then the name is called without having been looked up.
-/

set_option autoImplicit false

namespace Worksheet

/-- The name is called outside literals, and a word character that no name may contain stands
directly in front of it. -/
def JoinsName (text name : List Char) : Prop :=
  ∃ before c after, text = before ++ c :: (name ++ '(' :: after) ∧
    endsQuoted false before = false ∧ isWord c = true ∧ isNameChar c = false ∧
    nameBehind? name.reverse = some name

def namesFrom (name? : List Char → Option (List Char)) (inside : Bool) (behind : List Char) :
    List Char → List (List Char)
  | [] => []
  | c :: rest =>
      (if c = '(' ∧ inside = false then (name? behind).toList else []) ++
        namesFrom name? (if c = '"' then !inside else inside) (c :: behind) rest

theorem namesFrom_nameBehind? (inside : Bool) (behind text : List Char) :
    namesFrom nameBehind? inside behind text = callNamesFrom inside behind text := by
  induction text generalizing inside behind with
  | nil => rfl
  | cons c rest ih => rw [namesFrom, callNamesFrom, ih]

def openings (inside : Bool) (behind : List Char) : List Char → List (List Char)
  | [] => []
  | c :: rest =>
      (if c = '(' ∧ inside = false then [behind] else []) ++
        openings (if c = '"' then !inside else inside) (c :: behind) rest

theorem mem_openings {inside : Bool} {behind text front : List Char} :
    front ∈ openings inside behind text ↔
      ∃ before after, text = before ++ '(' :: after ∧ endsQuoted inside before = false ∧
        before.reverse ++ behind = front := by
  induction text generalizing inside behind with
  | nil => simp [openings]
  | cons c rest ih =>
      rw [openings, List.mem_append, ih]
      constructor
      · rintro (here | ⟨before, after, rfl, outside, same⟩)
        · split at here
          · rename_i opens
            obtain ⟨rfl, rfl⟩ := opens
            exact ⟨[], rest, rfl, rfl, (List.mem_singleton.mp here).symm⟩
          · cases here
        · exact ⟨c :: before, after, rfl, outside, by simpa using same⟩
      · rintro ⟨before, after, split, outside, same⟩
        cases before with
        | nil =>
            obtain ⟨rfl, rfl⟩ := List.cons.inj split
            rw [endsQuoted] at outside
            exact .inl (by simpa [outside] using same.symm)
        | cons d before =>
            obtain ⟨rfl, rfl⟩ := List.cons.inj split
            exact .inr ⟨before, after, rfl, outside, by simpa using same⟩

theorem namesFrom_eq_filterMap (name? : List Char → Option (List Char)) (inside : Bool)
    (behind text : List Char) :
    namesFrom name? inside behind text = (openings inside behind text).filterMap name? := by
  induction text generalizing inside behind with
  | nil => rfl
  | cons c rest ih =>
      rw [namesFrom, openings, List.filterMap_append, ih]
      split
      · cases found : name? behind <;> simp [found]
      · rfl

theorem mem_namesFrom {name? : List Char → Option (List Char)} {inside : Bool}
    {behind text name : List Char} :
    name ∈ namesFrom name? inside behind text ↔
      ∃ before after, text = before ++ '(' :: after ∧ endsQuoted inside before = false ∧
        name? (before.reverse ++ behind) = some name := by
  rw [namesFrom_eq_filterMap, List.mem_filterMap]
  constructor
  · rintro ⟨front, member, found⟩
    obtain ⟨before, after, split, outside, rfl⟩ := mem_openings.mp member
    exact ⟨before, after, split, outside, found⟩
  · rintro ⟨before, after, split, outside, found⟩
    exact ⟨_, mem_openings.mpr ⟨before, after, split, outside, rfl⟩, found⟩

/-- A rule that finds some of what another finds finds all of it in a list exactly when it finds the
same in each place. -/
theorem filterMap_eq_iff {fewer more : List Char → Option (List Char)}
    (some : ∀ front, fewer front = none ∨ fewer front = more front) (fronts : List (List Char)) :
    fronts.filterMap fewer = fronts.filterMap more ↔ ∀ front ∈ fronts, fewer front = more front := by
  have shorter (fronts : List (List Char)) :
      (fronts.filterMap fewer).length ≤ (fronts.filterMap more).length := by
    induction fronts with
    | nil => exact Nat.le_refl _
    | cons front others ih =>
        rcases some front with none | same
        · rw [List.filterMap_cons_none none]
          cases found : more front with
          | none => rwa [List.filterMap_cons_none found]
          | some name =>
              rw [List.filterMap_cons_some found]
              exact Nat.le_succ_of_le ih
        · cases found : more front <;> simpa [List.filterMap_cons, same, found] using ih
  induction fronts with
  | nil => simp
  | cons front others ih =>
      refine Iff.trans ?_ (List.forall_mem_cons.trans (and_congr_right fun _ => ih.symm)).symm
      rcases some front with none | same
      · cases found : more front with
        | none => simp [none, found]
        | some name =>
            -- the other rule finds one name more than this one can find
            refine ⟨fun equal => ?_, fun ⟨same, _⟩ => ?_⟩
            · have fewerLater := shorter others
              have lengths := congrArg List.length equal
              rw [List.filterMap_cons_none none, List.filterMap_cons_some found,
                List.length_cons] at lengths
              omega
            · rw [none] at same
              cases same
      · cases found : more front <;> simp [same, found]

/-- A rule that finds some of the names of another finds all of them in a text exactly when it does
so at every parenthesis. -/
theorem namesFrom_eq_iff {fewer more : List Char → Option (List Char)}
    (some : ∀ behind, fewer behind = none ∨ fewer behind = more behind) (inside : Bool)
    (behind text : List Char) :
    namesFrom fewer inside behind text = namesFrom more inside behind text ↔
      ∀ before after, text = before ++ '(' :: after → endsQuoted inside before = false →
        fewer (before.reverse ++ behind) = more (before.reverse ++ behind) := by
  rw [namesFrom_eq_filterMap, namesFrom_eq_filterMap, filterMap_eq_iff some]
  constructor
  · intro everywhere before after split outside
    exact everywhere _ (mem_openings.mpr ⟨before, after, split, outside, rfl⟩)
  · intro everywhere front member
    obtain ⟨before, after, split, outside, rfl⟩ := mem_openings.mp member
    exact everywhere before after split outside

theorem wholeNameBehind?_append (near : List Char) {far : List Char}
    (edge : wordEdge far.head? = true) :
    wholeNameBehind? (near ++ far) = wholeNameBehind? near := by
  have stops : StopsName far := Piece.isNameChar_of_edge edge
  rw [wholeNameBehind?, wholeNameBehind?, nameBehind?_append_of_stops near stops]
  cases found : nameBehind? near with
  | none => rfl
  | some name =>
      obtain ⟨before, rfl, _⟩ := eq_append_of_nameBehind? found
      have dropped (tail : List Char) :
          (name.reverse ++ tail).drop name.length = tail := by
        rw [List.drop_append, List.length_reverse]
        simp
      rw [List.append_assoc, Option.filter_some, Option.filter_some, dropped, dropped]
      cases before with
      | nil => rw [List.nil_append, edge]; rfl
      | cons c rest => rfl

theorem wholeNameBehind?_cases (behind : List Char) :
    wholeNameBehind? behind = none ∨ wholeNameBehind? behind = nameBehind? behind := by
  rw [wholeNameBehind?]
  cases nameBehind? behind with
  | none => exact .inl rfl
  | some name =>
      rw [Option.filter_some]
      split
      · exact .inr rfl
      · exact .inl rfl

theorem wholeNameBehind?_of_joined {name far : List Char} {c : Char}
    (named : nameBehind? name.reverse = some name) (word : isWord c = true)
    (other : isNameChar c = false) :
    nameBehind? (name.reverse ++ c :: far) = some name ∧
      wholeNameBehind? (name.reverse ++ c :: far) = none := by
  have found : nameBehind? (name.reverse ++ c :: far) = some name := by
    rw [nameBehind?_append_of_stops _ (stopsName_cons other far), named]
  refine ⟨found, ?_⟩
  rw [wholeNameBehind?, found, Option.filter_some, List.drop_append, List.length_reverse]
  simp [wordEdge, word]

theorem joined_of_wholeNameBehind? {behind name : List Char}
    (found : nameBehind? behind = some name) (missed : wholeNameBehind? behind ≠ some name) :
    ∃ c far, behind = name.reverse ++ c :: far ∧ nameBehind? name.reverse = some name ∧
      isWord c = true ∧ isNameChar c = false := by
  obtain ⟨before, rfl, stops⟩ := eq_append_of_nameBehind? found
  have dropped : (name.reverse ++ before).drop name.length = before := by
    rw [List.drop_append, List.length_reverse]
    simp
  rw [wholeNameBehind?, found, Option.filter_some, dropped] at missed
  cases before with
  | nil => exact absurd rfl missed
  | cons c far =>
      refine ⟨c, far, rfl, ?_, ?_, stops c rfl⟩
      · rwa [nameBehind?_append_of_stops _ stops] at found
      · by_contra notWord
        simp [wordEdge, notWord] at missed

/-- The rule by which the check finds names, on a text with its literals and on one without. -/
theorem calledNames_maskFrom (inside : Bool) (text : List Char) {masked behind : List Char}
    (agree : inside = false → ∃ near far far', masked = near ++ far ∧ behind = near ++ far' ∧
      wordEdge far.head? = true ∧ wordEdge far'.head? = true) :
    calledNames masked (maskFrom inside text) = namesFrom wholeNameBehind? inside behind text := by
  have blankEdge : wordEdge (some ' ') = true := by decide
  have quoteEdge : wordEdge (some '"') = true := by decide
  induction text generalizing inside masked behind with
  | nil => rfl
  | cons c rest ih =>
      by_cases isQuote : c = '"'
      · subst isQuote
        have next : calledNames (' ' :: masked) (maskFrom (!inside) rest) =
            namesFrom wholeNameBehind? (!inside) ('"' :: behind) rest := by
          apply ih
          intro _
          exact ⟨[], ' ' :: masked, '"' :: behind, rfl, rfl, blankEdge, quoteEdge⟩
        simpa [maskFrom, calledNames, namesFrom] using next
      · cases inside with
        | true =>
            have next := @ih true (' ' :: masked) (c :: behind) (by simp)
            simpa [maskFrom, calledNames, namesFrom, isQuote] using next
        | false =>
            obtain ⟨near, far, far', rfl, rfl, edge, edge'⟩ := agree rfl
            have next := @ih false (c :: (near ++ far)) (c :: (near ++ far'))
              fun _ => ⟨c :: near, far, far', rfl, rfl, edge, edge'⟩
            have here : wholeNameBehind? (near ++ far) = wholeNameBehind? (near ++ far') := by
              rw [wholeNameBehind?_append near edge, wholeNameBehind?_append near edge']
            simpa [maskFrom, calledNames, namesFrom, isQuote, here] using next

theorem maskQuoted_rule (text : List Char) :
    calledNames [] (maskQuoted text) = namesFrom wholeNameBehind? false [] text :=
  calledNames_maskFrom false text fun _ => ⟨[], [], [], rfl, rfl, rfl, rfl⟩

/-! ## The names of a formula -/

theorem endsQuoted_joined {before name : List Char} {c : Char} (word : isWord c = true)
    (named : nameBehind? name.reverse = some name) :
    endsQuoted false (before ++ c :: name) = endsQuoted false before := by
  have plain : IsPlain (c :: name) := by
    intro d member
    rcases List.mem_cons.mp member with rfl | inName
    · refine ⟨?_, ?_, ?_⟩ <;> (rintro rfl; revert word; decide)
    · exact isNameChar_ne (isNameChar_of_mem_name named inName)
  rw [endsQuoted_append, endsQuoted_plain _ plain]

theorem joinsName_of_missed {before after name : List Char}
    (outside : endsQuoted false before = false) (found : nameBehind? before.reverse = some name)
    (missed : wholeNameBehind? before.reverse ≠ some name) :
    JoinsName (before ++ '(' :: after) name := by
  obtain ⟨c, far, same, named, word, other⟩ := joined_of_wholeNameBehind? found missed
  obtain rfl : before = far.reverse ++ c :: name := by
    rw [← List.reverse_reverse before, same]
    simp
  rw [endsQuoted_joined word named] at outside
  exact ⟨far.reverse, c, after, by simp, outside, word, other, named⟩

theorem calledNames_eq_iff (text : List Char) :
    calledNames [] (maskQuoted text) = callNames text ↔ ¬ ∃ name, JoinsName text name := by
  rw [maskQuoted_rule, callNames, ← namesFrom_nameBehind?, namesFrom_eq_iff wholeNameBehind?_cases]
  simp only [List.append_nil]
  constructor
  · rintro everywhere ⟨name, before, c, after, rfl, outside, word, other, named⟩
    have at' := everywhere (before ++ c :: name) after (by simp)
      (by rw [endsQuoted_joined word named, outside])
    obtain ⟨found, missed⟩ := @wholeNameBehind?_of_joined name before.reverse c named word other
    have reversed : (before ++ c :: name).reverse = name.reverse ++ c :: before.reverse := by simp
    rw [reversed, found, missed] at at'
    cases at'
  · intro apart before after same outside
    cases found : nameBehind? before.reverse with
    | none => rw [wholeNameBehind?, found]; rfl
    | some name =>
        by_contra missed
        refine apart ⟨name, ?_⟩
        rw [same]
        exact joinsName_of_missed outside found missed

theorem joinsName_of_mem {text name : List Char} (called : name ∈ callNames text)
    (missed : name ∉ calledNames [] (maskQuoted text)) : JoinsName text name := by
  rw [callNames, ← namesFrom_nameBehind?] at called
  obtain ⟨before, after, rfl, outside, found⟩ := mem_namesFrom.mp called
  rw [List.append_nil] at found
  refine joinsName_of_missed outside found ?_
  intro own
  rw [maskQuoted_rule] at missed
  exact missed (mem_namesFrom.mpr ⟨before, after, rfl, outside, by rwa [List.append_nil]⟩)

theorem Formula.joinsName_of_unknown {registry : Registry} {formula name : List Char}
    (clean : check registry formula = []) (called : name ∈ callNames (body formula))
    (unknown : registry.contains name = false) : JoinsName (body formula) name := by
  refine joinsName_of_mem called ?_
  intro found
  have listed : capitals name ∈ unknownFunctions registry (maskQuoted (body formula)) := by
    rw [unknownFunctions, List.mem_eraseDups, List.mem_filter]
    refine ⟨List.mem_map_of_mem found, ?_⟩
    have same : registry.contains (capitals name) = registry.contains name := by
      simp [Registry.contains, Registry.get?, capitals_capitals]
    simp [same, unknown]
  unfold check at clean
  simp only [] at clean
  split at clean
  · cases clean
  · rw [List.append_eq_nil_iff, List.map_eq_nil_iff] at clean
    rw [clean.2] at listed
    cases listed

theorem mem_callNames_of_called {text name : List Char}
    (found : name ∈ calledNames [] (maskQuoted text)) : name ∈ callNames text := by
  rw [maskQuoted_rule] at found
  obtain ⟨before, after, rfl, outside, whole⟩ := mem_namesFrom.mp found
  rw [callNames, ← namesFrom_nameBehind?]
  refine mem_namesFrom.mpr ⟨before, after, rfl, outside, ?_⟩
  rcases wholeNameBehind?_cases (before.reverse ++ []) with none | same
  · rw [none] at whole
    cases whole
  · rwa [← same]

theorem Formula.body_call {name : List Char} (named : Script.callName? name = some name)
    (inner : List Char) :
    Formula.body ('=' :: (name ++ '(' :: (inner ++ [')']))) = name ++ '(' :: (inner ++ [')']) := by
  have last : (name ++ '(' :: (inner ++ [')'])).getLast? = some ')' := by
    rw [← List.cons_append, ← List.append_assoc, List.getLast?_concat]
  have closing (c : Char) (member : c ∈ some ')') : isBlank c = false := by
    obtain rfl := Option.some.inj member
    decide
  have whole : trim ('=' :: (name ++ '(' :: (inner ++ [')']))) =
      '=' :: (name ++ '(' :: (inner ++ [')'])) := by
    refine trim_of_ends (fun c member => ?_) (by rwa [List.getLast?_cons, last])
    obtain rfl := Option.some.inj member
    decide
  rw [Formula.body, whole]
  refine trim_of_ends (fun c member => ?_) (by
    change ∀ c ∈ (name ++ '(' :: (inner ++ [')'])).getLast?, isBlank c = false
    rwa [last])
  obtain ⟨first, more, rfl⟩ := List.exists_cons_of_ne_nil (nameBehind?_ne_nil named)
  obtain rfl : first = c := Option.some.inj member
  exact isBlank_of_isNameChar (isNameChar_of_mem_name named List.mem_cons_self)

/-- A formula passes the check if its parentheses and quotes match and every function that it calls
is known. -/
theorem Formula.check_of_known {registry : Registry} {formula : List Char}
    (nonempty : body formula ≠ []) (matched : Script.check 0 false (body formula) = .ok ())
    (known : ∀ name ∈ callNames (body formula), registry.contains name = true) :
    check registry formula = [] := by
  obtain ⟨closed, balanced⟩ := (Script.check_iff 0 false _).mp matched
  have allKnown : ((calledNames [] (maskQuoted (body formula))).map capitals).filter
      (fun name => !registry.contains name) = [] := by
    rw [List.filter_eq_nil_iff]
    intro capital member
    obtain ⟨name, found, rfl⟩ := List.mem_map.mp member
    have same : registry.contains (capitals name) = registry.contains name := by
      simp [Registry.contains, Registry.get?, capitals_capitals]
    simp [same, known name (mem_callNames_of_called found)]
  have none : unknownFunctions registry (maskQuoted (body formula)) = [] := by
    rw [unknownFunctions, allKnown]
    rfl
  rw [← maskQuoted] at balanced
  simp [check, nonempty, closed, balanced, none]

namespace Calculator

/-- The check finds all names that a formula calls exactly when no word character joins one. A
formula that passes it meets an unknown function only under a name that is joined. -/
theorem unknown_only_when_joined (calculator : Calculator) {formula : List Char}
    (clean : calculator.check formula = [])
    (passes : ∀ name, calculator.registry.PassesOn (.unknownFunction name)) :
    (calledNames [] (maskQuoted (Formula.body formula)) = callNames (Formula.body formula) ↔
        ¬ ∃ name, JoinsName (Formula.body formula) name) ∧
      ∀ grid name, calculator.evaluate formula grid = .error (.unknownFunction name) →
        ∃ spelled, JoinsName (Formula.body formula) spelled ∧ name = capitals spelled ∧
          calculator.registry.contains spelled = false := by
  refine ⟨calledNames_eq_iff _, ?_⟩
  intro grid name failed
  rcases evaluate_eq_error clean (passes name) failed with
    ⟨_, other⟩ | other | ⟨_, other⟩ | ⟨spelled, called, same, unknown⟩ | ⟨text, _, failed⟩
  · cases other
  · cases other
  · cases other
  · obtain rfl := FormulaError.unknownFunction.inj same
    exact ⟨spelled, Formula.joinsName_of_unknown clean called unknown, rfl, unknown⟩
  · rcases Expression.isReading_of_valueOf failed with other | other <;> cases other

/-- The letter in front of the name is a word character and makes one word of both. -/
theorem unknown_only_when_joined_of_accent :
    ∃ spelled, JoinsName (Formula.body "=éFOO(1)".toList) spelled ∧
      "FOO".toList = capitals spelled ∧ Registry.standard.contains spelled = false :=
  (unknown_only_when_joined {} (by decide +kernel) fun _ => Registry.passesOn_standard nofun).2 {} _
    (by decide +kernel : Calculator.evaluate {} "=éFOO(1)".toList {} =
      .error (.unknownFunction "FOO".toList))

/-- A formula passes the check and calls an unknown function all the same. -/
theorem unknown_after_check :
    Calculator.check {} "=éFOO(1)".toList = [] ∧
      Calculator.evaluate {} "=éFOO(1)".toList {} = .error (.unknownFunction "FOO".toList) := by
  decide +kernel

end Calculator

end Worksheet
