import Mathlib
import Worksheet.Proofs.Bounded.Name
import Worksheet.Proofs.Bounded.Walk
import Worksheet.Proofs.Reference.Resolution

/-!
# What is known about each byte

A walk over the bytes of a text writes down for each whether it belongs to a literal and whether text
is read there. The walk stays within the list it writes to, and at the first byte of a character it
writes down what the text in front of the character says.
-/

set_option autoImplicit false

namespace Worksheet

open Script (byteSize byteSize_append)

/-- Whether a byte belongs to a literal, and whether text is read there. -/
structure Context where
  inside : Bool
  readsText : Bool

def Context.unknown : Context := ⟨false, false⟩

structure Classes where
  contexts : List Context
  textLevels : List Bool

namespace Classes

def readsText (classes : Classes) : Bool :=
  classes.textLevels.headD false

def note (index : Nat) (inside : Bool) (classes : Classes) : Bounded Classes := do
  let contexts ← Bounded.reach (set? classes.contexts index ⟨inside, classes.readsText⟩)
  return ⟨contexts, classes.textLevels⟩

def act (text : List Char) (index : Nat) (byte : UInt8) (classes : Classes) : Bounded Classes := do
  if byte = asciiByte '(' then
    match ← Bounded.reach (nameBefore? text index) with
    | some name =>
        return ⟨classes.contexts, decide (capitals name = textFunction) :: classes.textLevels⟩
    | none => return ⟨classes.contexts, classes.readsText :: classes.textLevels⟩
  else if byte = asciiByte ')' then return ⟨classes.contexts, classes.textLevels.tail⟩
  else return classes

def walker (text : List Char) : Walker Classes where
  note := note
  act := act text
  act_wide index byte classes wide := by
    rw [act, if_neg (Walker.ne_asciiByte_of_wide wide (by decide)),
      if_neg (Walker.ne_asciiByte_of_wide wide (by decide))]

end Classes

def classify (text : List Char) : Bounded (List Context) := do
  let (_, classes) ←
    (Classes.walker text).walk (bytes text) 0 false ⟨List.replicate (byteSize text) .unknown, []⟩
  return classes.contexts

def Place.contexts (place : Place) : List Char → List Context
  | [] => []
  | c :: rest =>
      List.replicate c.utf8Size ⟨place.inside || c == '"', place.readsText⟩ ++
        (place.step c).contexts rest

theorem Place.getElem?_contexts (place : Place) (front : List Char) (c : Char) (rest : List Char) :
    (place.contexts (front ++ c :: rest))[byteSize front]? =
      some ⟨(front.foldl step place).inside || c == '"', (front.foldl step place).readsText⟩ := by
  induction front generalizing place with
  | nil =>
      have wide := Char.utf8Size_pos c
      rw [List.nil_append, contexts, byteSize, List.getElem?_append_left (by simpa using wide),
        List.getElem?_replicate, if_pos wide]
      rfl
  | cons d more ih =>
      rw [List.cons_append, contexts, byteSize, List.getElem?_append_right (by simp),
        List.length_replicate, Nat.add_sub_cancel_left, ih]
      rfl

namespace Classes

variable {text front rest : List Char} {index : Nat}

theorem noteAll_replicate {count : Nat} {done : List Context} (index_eq : index = done.length)
    (inside : Bool) (levels : List Bool) (later : List Context) :
    (walker text).noteAll index inside count
        ⟨done ++ (List.replicate count .unknown ++ later), levels⟩ =
      pure ⟨done ++ (List.replicate count ⟨inside, levels.headD false⟩ ++ later), levels⟩ := by
  induction count generalizing index done with
  | zero => rfl
  | succ count ih =>
      have written := set?_append_cons
        (rfl : done ++ (List.replicate (count + 1) .unknown ++ later) =
          done ++ Context.unknown :: (List.replicate count .unknown ++ later)) index_eq
        ⟨inside, levels.headD false⟩
      have onward := @ih (index + 1) (done ++ [⟨inside, levels.headD false⟩])
        (by rw [index_eq, List.length_append]; rfl)
      simp only [List.append_assoc, List.singleton_append] at onward
      have noted : (walker text).note index inside
          ⟨done ++ (List.replicate (count + 1) .unknown ++ later), levels⟩ =
          pure ⟨done ++ ⟨inside, levels.headD false⟩ ::
            (List.replicate count .unknown ++ later), levels⟩ := by
        change note index inside _ = _
        rw [note, readsText, written]
        rfl
      rw [Walker.noteAll, noted, pure_bind, onward]
      rfl

theorem act_append {c : Char} (ascii : c.toNat < 128) (text_eq : text = front ++ rest)
    (index_eq : index = byteSize front) {place : Place} (behind : place.behind = front.reverse)
    (outside : place.inside = false) (contexts : List Context) :
    act text index (asciiByte c) ⟨contexts, place.textLevels⟩ =
      pure ⟨contexts, (place.step c).textLevels⟩ := by
  have single {d : Char} (small : d.toNat < 128) : asciiByte c = asciiByte d ↔ c = d :=
    Walker.asciiByte_inj ascii small
  have opening := single (by decide : '('.toNat < 128)
  have closing := single (by decide : ')'.toNat < 128)
  rw [act, Place.step, outside, if_neg Bool.false_ne_true]
  by_cases isOpening : c = '('
  · rw [if_pos (opening.mpr isOpening), if_pos isOpening, nameBefore?_append text_eq index_eq,
      Bounded.reach_some, pure_bind, Place.opensText, behind]
    cases nameBehind? front.reverse <;> rfl
  rw [if_neg (mt opening.mp isOpening), if_neg isOpening]
  by_cases isClosing : c = ')'
  · rw [if_pos (closing.mpr isClosing), if_pos isClosing]
  · rw [if_neg (mt closing.mp isClosing), if_neg isClosing]

theorem step_append {c : Char} (text_eq : text = front ++ c :: rest)
    (index_eq : index = byteSize front) {place : Place} (behind : place.behind = front.reverse)
    {done : List Context} (done_eq : index = done.length) (later : List Context) :
    (walker text).step index place.inside c
        ⟨done ++ (List.replicate c.utf8Size .unknown ++ later), place.textLevels⟩ =
      pure ⟨done ++ (List.replicate c.utf8Size ⟨place.inside || c == '"', place.readsText⟩ ++ later),
        (place.step c).textLevels⟩ := by
  have kept (literal : place.inside = true ∨ c = '"' ∨ ¬ c.toNat < 128) :
      (place.step c).textLevels = place.textLevels := by
    rw [Place.step]
    rcases literal with inside | rfl | wide
    · exact if_pos inside
    · exact ite_self _
    · have notOpening : c ≠ '(' := by
        rintro rfl
        exact wide (by decide)
      have notClosing : c ≠ ')' := by
        rintro rfl
        exact wide (by decide)
      simp only [notOpening, notClosing, if_false, ite_self]
  rw [Walker.step, noteAll_replicate done_eq, pure_bind]
  split
  · rename_i acts
    obtain ⟨outside, _, ascii⟩ := acts
    exact act_append ascii text_eq index_eq behind outside _
  · rename_i idle
    rw [kept]
    · rfl
    · by_contra acts
      obtain ⟨outside, notQuote, ascii⟩ : place.inside ≠ true ∧ c ≠ '"' ∧ c.toNat < 128 := by
        simpa only [not_or, not_not] using acts
      exact idle ⟨by simpa using outside, notQuote, ascii⟩

theorem run_append (text_eq : text = front ++ rest) (index_eq : index = byteSize front)
    {place : Place} (behind : place.behind = front.reverse) {done : List Context}
    (done_eq : index = done.length) :
    (walker text).run index place.inside
        ⟨done ++ List.replicate (byteSize rest) .unknown, place.textLevels⟩ rest =
      pure ((rest.foldl Place.step place).inside,
        ⟨done ++ place.contexts rest, (rest.foldl Place.step place).textLevels⟩) := by
  induction rest generalizing front index place done with
  | nil => rfl
  | cons c rest ih =>
      have further : text = (front ++ [c]) ++ rest := by rw [text_eq, List.append_cons]
      have size : index + c.utf8Size = byteSize (front ++ [c]) := by rw [index_eq, byteSize_concat]
      have behind' : (place.step c).behind = (front ++ [c]).reverse := by
        rw [List.reverse_append]
        exact congrArg (c :: ·) behind
      have onward := @ih (front ++ [c]) (index + c.utf8Size) further size (place.step c) behind'
        (done ++ List.replicate c.utf8Size ⟨place.inside || c == '"', place.readsText⟩)
        (by rw [List.length_append, List.length_replicate, done_eq])
      rw [List.append_assoc, List.append_assoc] at onward
      rw [byteSize, List.replicate_add, Walker.run, step_append text_eq index_eq behind done_eq,
        pure_bind, List.foldl_cons, Place.contexts]
      exact onward

end Classes

theorem classify_eq (text : List Char) : classify text = pure ((({} : Place)).contexts text) := by
  have walked := @Classes.run_append text [] text 0 rfl rfl {} rfl [] rfl
  rw [classify, Walker.walk_text]
  change ((Classes.walker text).run 0 false _ text >>= _) = _
  rw [List.nil_append] at walked
  exact congrArg (· >>= _) walked

end Worksheet
