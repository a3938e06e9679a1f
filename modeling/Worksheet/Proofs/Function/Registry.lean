import Mathlib
import Worksheet.Function.Registry
import Worksheet.Proofs.Text.Bytes
import Worksheet.Proofs.Text.Case

/-!
# Registries and their histories

A registry is settled by the history of its registrations, and of these only the last one of each
name counts, where letter case does not matter. So the order in which functions of different names
were registered leaves no trace, and neither does the order in which a registry keeps its
functions: both listings are strictly in the order of bytes.
-/

set_option autoImplicit false

namespace Worksheet

def SameLetter (c d : Char) : Prop :=
  c = d ∨ ∃ place < 26, (c = Char.ofNat (65 + place) ∧ d = Char.ofNat (97 + place)) ∨
    (c = Char.ofNat (97 + place) ∧ d = Char.ofNat (65 + place))

def SameName (first second : List Char) : Prop :=
  List.Forall₂ SameLetter first second

theorem toUpper_eq_toUpper_iff {c d : Char} : c.toUpper = d.toUpper ↔ SameLetter c d := by
  have capital : ∀ place < 26, (Char.ofNat (65 + place)).toUpper = Char.ofNat (65 + place) ∧
      (Char.ofNat (97 + place)).toUpper = Char.ofNat (65 + place) := by decide
  have place_eq : ∀ p < 26, ∀ q < 26, Char.ofNat (65 + p) = Char.ofNat (65 + q) → p = q := by
    decide
  constructor
  · intro same
    rcases toUpper_cases c with cSame | ⟨p, pLess, cLower, cUpper⟩
    · rcases toUpper_cases d with dSame | ⟨q, qLess, dLower, dUpper⟩
      · exact .inl (by rw [← cSame, same, dSame])
      · exact .inr ⟨q, qLess, .inl ⟨by rw [← cSame, same, dUpper], dLower⟩⟩
    · rcases toUpper_cases d with dSame | ⟨q, qLess, dLower, dUpper⟩
      · exact .inr ⟨p, pLess, .inr ⟨cLower, by rw [← dSame, ← same, cUpper]⟩⟩
      · rw [cUpper, dUpper] at same
        obtain rfl := place_eq p pLess q qLess same
        exact .inl (cLower.trans dLower.symm)
  · rintro (rfl | ⟨place, less, ⟨rfl, rfl⟩ | ⟨rfl, rfl⟩⟩)
    · rfl
    · rw [(capital place less).1, (capital place less).2]
    · rw [(capital place less).1, (capital place less).2]

theorem capitals_eq_iff {first second : List Char} :
    capitals first = capitals second ↔ SameName first second := by
  rw [← List.forall₂_eq_eq_eq, capitals, capitals, List.forall₂_map_left_iff,
    List.forall₂_map_right_iff]
  simp only [toUpper_eq_toUpper_iff]
  rfl

instance (first second : List Char) : Decidable (SameName first second) :=
  decidable_of_iff _ capitals_eq_iff

/-- Elements in the order of a text that each of them has. -/
def inOrder {α : Type} (text : α → List Char) (list : List α) : List α :=
  list.mergeSort fun a b => !precedes (text b) (text a)

section InOrder

variable {α : Type} {text : α → List Char} {list other : List α}

theorem pairwise_inOrder (distinct : (list.map text).Nodup) :
    (inOrder text list).Pairwise fun a b => bytes (text a) < bytes (text b) := by
  have weakly : (inOrder text list).Pairwise fun a b => ¬ bytes (text b) < bytes (text a) := by
    have sorted := @List.pairwise_mergeSort α (fun a b => !precedes (text b) (text a))
      (fun a b c => ?_) (fun a b => ?_) list
    · refine sorted.imp fun {a b} ordered => ?_
      rw [← precedes_iff_bytes_lt]
      simpa using ordered
    · simp only [Bool.not_eq_true', ← Bool.not_eq_true, precedes_iff_bytes_lt]
      exact fun first second =>
        List.not_lt.mpr (List.le_trans (List.not_lt.mp first) (List.not_lt.mp second))
    · simp only [Bool.or_eq_true, Bool.not_eq_true', ← Bool.not_eq_true, precedes_iff_bytes_lt]
      exact (List.le_total (bytes (text a)) (bytes (text b))).imp List.not_lt.mpr List.not_lt.mpr
  have differ : (inOrder text list).Pairwise fun a b => text a ≠ text b := by
    have perm := (List.mergeSort_perm list fun a b => !precedes (text b) (text a)).map text
    exact List.pairwise_map.mp (perm.nodup_iff.mpr distinct)
  refine (weakly.and differ).imp fun {a b} ⟨notBehind, other⟩ => ?_
  rw [← precedes_iff_bytes_lt] at notBehind ⊢
  rcases precedes_total (text a) (text b) with before | same | behind
  · exact before
  · exact absurd same other
  · exact absurd behind notBehind

theorem inOrder_eq_of_perm (distinct : (list.map text).Nodup) (perm : list.Perm other) :
    inOrder text list = inOrder text other := by
  have distinct' : (other.map text).Nodup := (perm.map text).nodup_iff.mp distinct
  have both : (inOrder text list).Perm (inOrder text other) :=
    ((List.mergeSort_perm _ _).trans perm).trans (List.mergeSort_perm _ _).symm
  refine both.eq_of_pairwise (fun a b _ _ before behind => ?_) (pairwise_inOrder distinct)
    (pairwise_inOrder distinct')
  exact absurd behind (List.lt_asymm before)

end InOrder

namespace Registry

/-- No two functions of the registry share a name. -/
def HasDistinctNames (registry : Registry) : Prop :=
  (registry.functions.map Function.key).Nodup

theorem get?_register (registry : Registry) (function : Function) (name : List Char) :
    (registry.register function).get? name =
      if SameName function.name name then some function else registry.get? name := by
  rw [get?, register, List.find?_cons]
  by_cases same : function.key = capitals name
  · simp [same, capitals_eq_iff.mp same]
  · have differ : ¬ SameName function.name name := fun same' => same (capitals_eq_iff.mpr same')
    simp only [same, decide_false, if_neg differ, List.find?_filter]
    refine congrArg (fun property => List.find? property registry.functions) (funext fun other => ?_)
    by_cases found : other.key = capitals name
    · simp [found, Ne.symm same]
    · simp [found]

theorem HasDistinctNames.register {registry : Registry} (distinct : registry.HasDistinctNames)
    (function : Function) : (registry.register function).HasDistinctNames := by
  refine List.nodup_cons.mpr ⟨?_, ?_⟩
  · intro member
    obtain ⟨other, kept, same⟩ := List.mem_map.mp member
    simp [same] at kept
  · exact distinct.sublist (List.filter_sublist.map _)

/-! ## A history of registrations -/

def ofHistory (history : List Function) : Registry :=
  history.foldl register empty

theorem ofHistory_concat (history : List Function) (function : Function) :
    ofHistory (history ++ [function]) = (ofHistory history).register function :=
  List.foldl_concat register empty function history

theorem foldl_register_standard (later : List Function) :
    later.foldl register standard = ofHistory (Library.functions ++ later) := by
  rw [ofHistory, List.foldl_append]
  rfl

theorem hasDistinctNames_ofHistory (history : List Function) :
    (ofHistory history).HasDistinctNames := by
  induction history using List.reverseRecOn with
  | nil => exact List.nodup_nil
  | append_singleton history function ih =>
      rw [ofHistory_concat]
      exact ih.register function

theorem get?_ofHistory (history : List Function) (name : List Char) :
    (ofHistory history).get? name =
      (history.filter fun function => SameName function.name name).getLast? := by
  induction history using List.reverseRecOn with
  | nil => rfl
  | append_singleton history function ih =>
      rw [ofHistory_concat, get?_register, ih, List.filter_append, List.getLast?_append]
      by_cases same : SameName function.name name <;> simp [same]

/-- Of the functions of a history with the name, this one was registered last. -/
def IsLatest (history : List Function) (name : List Char) (function : Function) : Prop :=
  ∃ earlier later, history = earlier ++ function :: later ∧ SameName function.name name ∧
    ∀ other ∈ later, ¬ SameName other.name name

theorem get?_ofHistory_eq_some_iff {history : List Function} {name : List Char}
    {function : Function} :
    (ofHistory history).get? name = some function ↔ IsLatest history name function := by
  rw [get?_ofHistory, List.getLast?_filter, List.find?_eq_some_iff_append]
  constructor
  · rintro ⟨same, later, earlier, reversed, others⟩
    refine ⟨earlier.reverse, later.reverse, ?_, by simpa using same, ?_⟩
    · rw [← List.reverse_reverse history, reversed]
      simp
    · intro other member
      simpa using others other (List.mem_reverse.mp member)
  · rintro ⟨earlier, later, rfl, same, others⟩
    refine ⟨by simpa using same, later.reverse, earlier.reverse, by simp, ?_⟩
    intro other member
    simpa using others other (List.mem_reverse.mp member)

theorem get?_ofHistory_eq_none_iff {history : List Function} {name : List Char} :
    (ofHistory history).get? name = none ↔
      ∀ function ∈ history, ¬ SameName function.name name := by
  rw [get?_ofHistory, List.getLast?_filter, List.find?_eq_none]
  simp

theorem get?_eq_some_iff {registry : Registry} (distinct : registry.HasDistinctNames)
    {name : List Char} {function : Function} :
    registry.get? name = some function ↔
      function ∈ registry.functions ∧ function.key = capitals name := by
  constructor
  · intro found
    exact ⟨List.mem_of_find?_eq_some found, by simpa using List.find?_some found⟩
  · rintro ⟨member, same⟩
    have isFound : (registry.get? name).isSome = true :=
      List.find?_isSome.mpr ⟨function, member, decide_eq_true same⟩
    obtain ⟨other, found⟩ := Option.isSome_iff_exists.mp isFound
    have same' : other.key = capitals name := by simpa using List.find?_some found
    rw [found, List.inj_on_of_nodup_map distinct (List.mem_of_find?_eq_some found) member
      (same'.trans same.symm)]

theorem mem_functions_iff {registry : Registry} (distinct : registry.HasDistinctNames)
    {function : Function} :
    function ∈ registry.functions ↔ ∃ name, registry.get? name = some function := by
  simp only [get?_eq_some_iff distinct]
  exact ⟨fun member => ⟨function.name, member, rfl⟩, fun ⟨_, member, _⟩ => member⟩

theorem contains_ofHistory_iff {history : List Function} {name : List Char} :
    (ofHistory history).contains name = true ↔
      ∃ function ∈ history, SameName function.name name := by
  rw [contains, ← not_iff_not, Bool.not_eq_true, Option.isSome_eq_false_iff, Option.isNone_iff_eq_none,
    get?_ofHistory_eq_none_iff]
  simp

theorem mem_names_ofHistory_iff {history : List Function} {name : List Char} :
    name ∈ (ofHistory history).names ↔ ∃ function ∈ history, name = capitals function.name := by
  have distinct := hasDistinctNames_ofHistory history
  rw [names, List.mem_mergeSort, List.mem_map]
  constructor
  · rintro ⟨function, member, rfl⟩
    obtain ⟨name, found⟩ := (mem_functions_iff distinct).mp member
    obtain ⟨earlier, later, rfl, _⟩ := get?_ofHistory_eq_some_iff.mp found
    exact ⟨function, by simp, rfl⟩
  · rintro ⟨function, member, rfl⟩
    have isContained : (ofHistory history).contains function.name = true :=
      contains_ofHistory_iff.mpr ⟨function, member, capitals_eq_iff.mp rfl⟩
    obtain ⟨latest, found⟩ := Option.isSome_iff_exists.mp isContained
    obtain ⟨_, _, _, same, _⟩ := get?_ofHistory_eq_some_iff.mp found
    exact ⟨latest, (mem_functions_iff distinct).mpr ⟨_, found⟩, capitals_eq_iff.mpr same⟩

theorem perm_of_get?_eq {first second : Registry} (distinct : first.HasDistinctNames)
    (distinct' : second.HasDistinctNames) (same : ∀ name, first.get? name = second.get? name) :
    first.functions.Perm second.functions := by
  refine (List.perm_ext_iff_of_nodup (List.Nodup.of_map _ distinct)
    (List.Nodup.of_map _ distinct')).mpr fun function => ?_
  rw [mem_functions_iff distinct, mem_functions_iff distinct']
  simp only [same]

theorem nodup_names {registry : Registry} (distinct : registry.HasDistinctNames) :
    (registry.functions.map Function.name).Nodup := by
  refine List.Nodup.of_map capitals ?_
  rw [List.map_map]
  exact distinct

theorem names_eq_inOrder (registry : Registry) :
    registry.names = inOrder id (registry.functions.map Function.key) :=
  rfl

theorem listing_eq_inOrder (registry : Registry) :
    registry.listing = inOrder Function.name registry.functions :=
  rfl

theorem pairwise_names {registry : Registry} (distinct : registry.HasDistinctNames) :
    registry.names.Pairwise fun first second => bytes first < bytes second :=
  @pairwise_inOrder _ id _ (by rwa [List.map_id])

theorem pairwise_listing {registry : Registry} (distinct : registry.HasDistinctNames) :
    registry.listing.Pairwise fun first second => bytes first.name < bytes second.name :=
  pairwise_inOrder (nodup_names distinct)

theorem listings_eq_of_perm {first second : Registry} (distinct : first.HasDistinctNames)
    (perm : first.functions.Perm second.functions) :
    first.names = second.names ∧ first.listing = second.listing := by
  constructor
  · rw [names_eq_inOrder, names_eq_inOrder]
    exact inOrder_eq_of_perm (by rwa [List.map_id]) (perm.map _)
  · rw [listing_eq_inOrder, listing_eq_inOrder]
    exact inOrder_eq_of_perm (nodup_names distinct) perm

end Registry

/-- A registry is a map from names in any case to the last function registered under them. Its names
are those of the history in capitals, and its listing is of the functions that are found, each
once; both are strictly in the order of bytes. Neither depends on the order in which the registry
keeps its functions, nor on that in which functions of different names were registered. -/
theorem registry_of_history :
    (∀ later : List Function, later.foldl Registry.register .standard =
      .ofHistory (Library.functions ++ later)) ∧
    ∀ history, let registry := Registry.ofHistory history
      (∀ name function, registry.get? name = some function ↔
        Registry.IsLatest history name function) ∧
      (∀ name, registry.get? name = none ↔
        ∀ function ∈ history, ¬ SameName function.name name) ∧
      (∀ name, registry.contains name = true ↔
        ∃ function ∈ history, SameName function.name name) ∧
      registry.names.Pairwise (fun first second => bytes first < bytes second) ∧
      (∀ name, name ∈ registry.names ↔ ∃ function ∈ history, name = capitals function.name) ∧
      registry.listing.Pairwise (fun first second => bytes first.name < bytes second.name) ∧
      (∀ function, function ∈ registry.listing ↔ ∃ name, registry.get? name = some function) ∧
      (∀ kept : Registry, registry.functions.Perm kept.functions →
        kept.names = registry.names ∧ kept.listing = registry.listing) ∧
      ∀ other, (∀ name, (other.filter fun function => SameName function.name name) =
          history.filter fun function => SameName function.name name) →
        (∀ name, (Registry.ofHistory other).get? name = registry.get? name) ∧
          (Registry.ofHistory other).names = registry.names ∧
          (Registry.ofHistory other).listing = registry.listing := by
  refine ⟨Registry.foldl_register_standard, fun history => ?_⟩
  have distinct := Registry.hasDistinctNames_ofHistory history
  refine ⟨fun _ _ => Registry.get?_ofHistory_eq_some_iff,
    fun _ => Registry.get?_ofHistory_eq_none_iff, fun _ => Registry.contains_ofHistory_iff,
    Registry.pairwise_names distinct, fun _ => Registry.mem_names_ofHistory_iff,
    Registry.pairwise_listing distinct, fun function => ?_, fun kept perm => ?_,
    fun other same => ?_⟩
  · rw [Registry.listing, List.mem_mergeSort, Registry.mem_functions_iff distinct]
  · obtain ⟨names, listing⟩ := Registry.listings_eq_of_perm distinct perm
    exact ⟨names.symm, listing.symm⟩
  · have found (name : List Char) : (Registry.ofHistory other).get? name =
        (Registry.ofHistory history).get? name := by
      rw [Registry.get?_ofHistory, Registry.get?_ofHistory, same]
    have distinct' := Registry.hasDistinctNames_ofHistory other
    exact ⟨found, Registry.listings_eq_of_perm distinct'
      (Registry.perm_of_get?_eq distinct' distinct found)⟩

/-- A sum in small letters replaces that of the library, and it does not matter that another function
is registered in between. -/
theorem registry_of_history_of_small_letters :
    let body : Body := .aggregate fun numbers _ => .ok (.number (Aggregate.sum numbers))
    let sum : Function := ⟨"sum".toList, .any, body, "Sum"⟩
    let total : Function := ⟨"Total".toList, .any, body, "Sum"⟩
    ([total, sum].foldl Registry.register .standard).get? "Sum".toList = some sum ∧
      (Registry.ofHistory [sum, total]).names = (Registry.ofHistory [total, sum]).names := by
  intro body sum total
  obtain ⟨fromLibrary, histories⟩ := registry_of_history
  constructor
  · rw [fromLibrary, (histories _).1]
    refine ⟨Library.functions ++ [total], [], by simp, by decide, by simp⟩
  · obtain ⟨_, _, _, _, _, _, _, _, exchanged⟩ := histories [total, sum]
    refine (exchanged [sum, total] fun name => ?_).2.1
    by_cases isSum : SameName sum.name name
    · have notTotal : ¬ SameName total.name name := fun isTotal =>
        absurd (isSum.length_eq.trans isTotal.length_eq.symm) (by decide)
      simp [isSum, notTotal]
    · simp [List.filter_cons, isSum]

end Worksheet
