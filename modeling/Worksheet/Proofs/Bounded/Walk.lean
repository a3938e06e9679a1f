import Mathlib
import Worksheet.Proofs.Bounded.Basic
import Worksheet.Proofs.Text.Bytes

/-!
# A walk over the bytes of a text

A walk goes from byte to byte by index and keeps track of the literals: a quote opens one outside
and closes one inside, and a doubled quote inside is stepped over. It only ever looks for characters
within ASCII, and their bytes stand for nothing else. So a walk over the bytes does at every
character what a walk over the characters does, and it never leaves the text.
-/

set_option autoImplicit false

namespace Worksheet

open Script (byteSize byteSize_append)

def asciiByte (c : Char) : UInt8 :=
  .ofNat c.toNat

/-- What a walk does: something at every byte, and something at a byte outside literals. -/
structure Walker (σ : Type) where
  /-- Takes note of a byte and of whether it belongs to a literal. -/
  note : Nat → Bool → σ → Bounded σ
  act : Nat → UInt8 → σ → Bounded σ
  act_wide : ∀ index byte state, 128 ≤ byte.toNat → act index byte state = pure state

namespace Walker

variable {σ : Type} (walker : Walker σ)

def walk (bytes : List UInt8) (index : Nat) (inside : Bool) (state : σ) : Bounded (Bool × σ) :=
  if index < bytes.length then do
    let byte ← Bounded.reach bytes[index]?
    if inside then
      let state ← walker.note index true state
      if byte = asciiByte '"' then
        if bytes[index + 1]? = some (asciiByte '"') then
          let state ← walker.note (index + 1) true state
          walk bytes (index + 2) true state
        else walk bytes (index + 1) false state
      else walk bytes (index + 1) true state
    else if byte = asciiByte '"' then
      let state ← walker.note index true state
      walk bytes (index + 1) true state
    else
      let state ← walker.note index false state
      let state ← walker.act index byte state
      walk bytes (index + 1) false state
  else return (inside, state)
termination_by bytes.length - index

def noteAll (index : Nat) (inside : Bool) : Nat → σ → Bounded σ
  | 0, state => return state
  | count + 1, state => do
      let state ← walker.note index inside state
      noteAll (index + 1) inside count state

def step (index : Nat) (inside : Bool) (c : Char) (state : σ) : Bounded σ := do
  let state ← walker.noteAll index (inside || c == '"') c.utf8Size state
  if inside = false ∧ c ≠ '"' ∧ c.toNat < 128 then walker.act index (asciiByte c) state
  else return state

def run (index : Nat) (inside : Bool) (state : σ) : List Char → Bounded (Bool × σ)
  | [] => return (inside, state)
  | c :: rest => do
      let state ← walker.step index inside c state
      run (index + c.utf8Size) (if c = '"' then !inside else inside) state rest

theorem asciiByte_inj {c d : Char} (first : c.toNat < 128) (second : d.toNat < 128) :
    asciiByte c = asciiByte d ↔ c = d := by
  rw [← UInt8.toNat_inj, asciiByte, asciiByte, UInt8.toNat_ofNat', UInt8.toNat_ofNat',
    Nat.mod_eq_of_lt (by omega), Nat.mod_eq_of_lt (by omega), Char.toNat_inj]

theorem ne_asciiByte_of_wide {byte : UInt8} (wide : 128 ≤ byte.toNat) {c : Char}
    (ascii : c.toNat < 128) : byte ≠ asciiByte c := by
  rintro rfl
  rw [asciiByte, UInt8.toNat_ofNat'] at wide
  omega

theorem bytes_cons_of_ascii {c : Char} (ascii : c.toNat < 128) (rest : List Char) :
    bytes (c :: rest) = asciiByte c :: bytes rest := by
  rw [bytes_cons, utf8EncodeChar_of_ascii ascii]
  rfl

theorem utf8Size_of_ascii {c : Char} (ascii : c.toNat < 128) : c.utf8Size = 1 := by
  rw [← String.length_utf8EncodeChar, utf8EncodeChar_of_ascii ascii]
  rfl

/-- The first byte of a text is that of an ASCII character exactly when the character is the first
of the text. -/
theorem head?_bytes_iff {c : Char} (ascii : c.toNat < 128) (text : List Char) :
    (bytes text).head? = some (asciiByte c) ↔ text.head? = some c := by
  cases text with
  | nil => simp
  | cons d rest =>
      by_cases small : d.toNat < 128
      · rw [bytes_cons_of_ascii small, List.head?_cons, List.head?_cons, Option.some.injEq,
          Option.some.injEq, asciiByte_inj small ascii]
      · obtain ⟨byte, others, whole⟩ := List.exists_cons_of_ne_nil
          (String.utf8EncodeChar_ne_nil (c := d))
        have wide := le_of_mem_utf8EncodeChar (Nat.not_lt.mp small) (whole ▸ List.mem_cons_self)
        rw [bytes_cons, whole, List.cons_append, List.head?_cons, List.head?_cons,
          Option.some.injEq, Option.some.injEq]
        constructor
        · intro same
          exact absurd same (ne_asciiByte_of_wide wide ascii)
        · rintro rfl
          exact absurd ascii small

variable {walker} {text front rest : List Char} {index : Nat}

theorem getElem?_bytes (text_eq : text = front ++ rest) (index_eq : index = byteSize front) :
    (bytes text)[index]? = (bytes rest).head? := by
  rw [text_eq, bytes_append, index_eq, ← length_bytes,
    List.getElem?_append_right (Nat.le_refl _), Nat.sub_self, List.head?_eq_getElem?]

theorem walk_end (text_eq : text = front) (index_eq : index = byteSize front) (inside : Bool)
    (state : σ) : walker.walk (bytes text) index inside state = pure (inside, state) := by
  rw [walk, if_neg (by rw [length_bytes, text_eq, index_eq]; exact Nat.lt_irrefl _)]

theorem walk_byte {bytes : List UInt8} {byte : UInt8} (here : bytes[index]? = some byte)
    (inside : Bool) (plain : byte ≠ asciiByte '"') (state : σ) :
    walker.walk bytes index inside state =
      (walker.note index inside state >>= fun state =>
        (if inside then pure state else walker.act index byte state) >>= fun state =>
          walker.walk bytes (index + 1) inside state) := by
  obtain ⟨below, -⟩ := List.getElem?_eq_some_iff.mp here
  rw [walk, if_pos below, here]
  cases inside <;>
    simp only [Bounded.reach_some, pure_bind, if_true, plain, if_false, Bool.false_eq_true]

theorem walk_wide {bytes before wide behind : List UInt8} (isWide : ∀ byte ∈ wide, 128 ≤ byte.toNat)
    (bytes_eq : bytes = before ++ (wide ++ behind)) (index_eq : index = before.length)
    (inside : Bool) (state : σ) :
    walker.walk bytes index inside state =
      (walker.noteAll index inside wide.length state >>= fun state =>
        walker.walk bytes (index + wide.length) inside state) := by
  induction wide generalizing before index state with
  | nil => rfl
  | cons byte others ih =>
      have large := isWide byte List.mem_cons_self
      have plain : byte ≠ asciiByte '"' := ne_asciiByte_of_wide large (by decide)
      have here : bytes[index]? = some byte := getElem?_append_cons bytes_eq index_eq
      have acts (state : σ) :
          (if inside then pure state else walker.act index byte state) = pure state := by
        rw [walker.act_wide _ _ _ large, ite_self]
      have onward (state : σ) := @ih (index + 1) (before ++ [byte])
        (fun other member => isWide other (List.mem_cons_of_mem _ member)) (by simp [bytes_eq])
        (by simp [index_eq]) state
      simp only [walk_byte here inside plain, acts, pure_bind, onward, noteAll, List.length_cons,
        bind_assoc, Nat.add_assoc, Nat.add_comm 1]

theorem walk_char {c : Char} (text_eq : text = front ++ c :: rest)
    (index_eq : index = byteSize front) (inside : Bool) (plain : c ≠ '"') (state : σ) :
    walker.walk (bytes text) index inside state =
      (walker.step index inside c state >>= fun state =>
        walker.walk (bytes text) (index + c.utf8Size) inside state) := by
  have notQuote : (c == '"') = false := beq_eq_false_iff_ne.mpr plain
  by_cases ascii : c.toNat < 128
  · have here : (bytes text)[index]? = some (asciiByte c) := by
      rw [getElem?_bytes text_eq index_eq, bytes_cons_of_ascii ascii]
      rfl
    have other : asciiByte c ≠ asciiByte '"' :=
      fun same => plain ((asciiByte_inj ascii (by decide)).mp same)
    rw [walk_byte here inside other, step, utf8Size_of_ascii ascii, notQuote, Bool.or_false]
    cases inside <;> simp [noteAll, plain, ascii]
  · have wide : ∀ byte ∈ String.utf8EncodeChar c, 128 ≤ byte.toNat :=
      fun byte member => le_of_mem_utf8EncodeChar (Nat.not_lt.mp ascii) member
    have whole : bytes text = bytes front ++ (String.utf8EncodeChar c ++ bytes rest) := by
      rw [text_eq, bytes_append, bytes_cons]
    rw [walk_wide wide whole (by rw [index_eq, length_bytes]), String.length_utf8EncodeChar, step,
      notQuote, Bool.or_false]
    simp only [ascii, and_false, if_false, bind_pure]

theorem walk_open (text_eq : text = front ++ '"' :: rest) (index_eq : index = byteSize front)
    (state : σ) :
    walker.walk (bytes text) index false state =
      (walker.note index true state >>= fun state =>
        walker.walk (bytes text) (index + 1) true state) := by
  have here : (bytes text)[index]? = some (asciiByte '"') := by
    rw [getElem?_bytes text_eq index_eq, bytes_cons_of_ascii (by decide)]
    rfl
  obtain ⟨below, -⟩ := List.getElem?_eq_some_iff.mp here
  rw [walk, if_pos below, here]
  rfl

theorem walk_quote (text_eq : text = front ++ '"' :: rest) (index_eq : index = byteSize front)
    (state : σ) :
    walker.walk (bytes text) index true state =
      (walker.note index true state >>= fun state =>
        if rest.head? = some '"' then
          walker.note (index + 1) true state >>= fun state =>
            walker.walk (bytes text) (index + 2) true state
        else walker.walk (bytes text) (index + 1) false state) := by
  have here : (bytes text)[index]? = some (asciiByte '"') := by
    rw [getElem?_bytes text_eq index_eq, bytes_cons_of_ascii (by decide)]
    rfl
  have further : text = (front ++ ['"']) ++ rest := by rw [text_eq, List.append_cons]
  have next : (bytes text)[index + 1]? = (bytes rest).head? :=
    getElem?_bytes further (by rw [index_eq, byteSize_concat]; rfl)
  obtain ⟨below, -⟩ := List.getElem?_eq_some_iff.mp here
  rw [walk, if_pos below, here]
  simp only [Bounded.reach_some, pure_bind, if_true, next, head?_bytes_iff (c := '"') (by decide)]

theorem step_quote (inside : Bool) (state : σ) :
    walker.step index inside '"' state = walker.note index true state := by
  have single : '"'.utf8Size = 1 := by decide
  simp [step, single, noteAll]

theorem run_cons (inside : Bool) {c : Char} (plain : c ≠ '"') (state : σ) :
    walker.run index inside state (c :: rest) =
      (walker.step index inside c state >>= fun state =>
        walker.run (index + c.utf8Size) inside state rest) := by
  rw [run, if_neg plain]

theorem run_quote (inside : Bool) (state : σ) :
    walker.run index inside state ('"' :: rest) =
      (walker.note index true state >>= fun state =>
        walker.run (index + 1) (!inside) state rest) := by
  have single : '"'.utf8Size = 1 := by decide
  rw [run, step_quote, if_pos rfl, single]

theorem step_of_quiet (quiet : ∀ index inside state, walker.note index inside state = pure state)
    (inside : Bool) (c : Char) (state : σ) :
    walker.step index inside c state =
      if inside = false ∧ c ≠ '"' ∧ c.toNat < 128 then walker.act index (asciiByte c) state
      else pure state := by
  have noted (count index : Nat) (inside : Bool) :
      walker.noteAll index inside count state = pure state := by
    induction count generalizing index with
    | zero => rfl
    | succ count ih => rw [noteAll, quiet, pure_bind, ih]
  rw [step, noted, pure_bind]

theorem step_idle (quiet : ∀ index inside state, walker.note index inside state = pure state)
    {inside : Bool} {c : Char} {state : σ}
    (idle : inside = false → c.toNat < 128 → walker.act index (asciiByte c) state = pure state) :
    walker.step index inside c state = pure state := by
  rw [step_of_quiet quiet]
  split
  · rename_i acts
    exact idle acts.1 acts.2.2
  · rfl

/-- The walk over the bytes of a text is the walk over its characters: a doubled quote closes a
literal and opens it again. -/
theorem walk_eq_run (text_eq : text = front ++ rest) (index_eq : index = byteSize front)
    (inside : Bool) (state : σ) :
    walker.walk (bytes text) index inside state = walker.run index inside state rest := by
  -- on the length of the rest, as a doubled quote takes two characters at once
  induction length : rest.length using Nat.strong_induction_on
    generalizing rest front index inside state with
  | _ n ih =>
  cases rest with
  | nil => exact walk_end (by rw [text_eq, List.append_nil]) index_eq inside state
  | cons c rest =>
      have further : text = (front ++ [c]) ++ rest := by rw [text_eq, List.append_cons]
      have size : index + c.utf8Size = byteSize (front ++ [c]) := by rw [index_eq, byteSize_concat]
      have shorter : rest.length < n := by rw [← length, List.length_cons]; exact Nat.lt_succ_self _
      have onward := fun inside state => ih _ shorter further size inside state rfl
      by_cases plain : c = '"'
      · subst plain
        cases inside with
        | false =>
            rw [walk_open text_eq index_eq, run_quote]
            exact bind_congr fun state => onward true state
        | true =>
            rw [walk_quote text_eq index_eq, run_quote]
            refine bind_congr fun state => ?_
            split
            · rename_i doubled
              obtain ⟨more, rfl⟩ : ∃ more, rest = '"' :: more := by
                cases rest with
                | nil => cases doubled
                | cons d more => exact ⟨more, by rw [Option.some.inj doubled]⟩
              rw [run_quote]
              refine bind_congr fun state => ?_
              have behind : text = (front ++ ['"', '"']) ++ more := by
                rw [text_eq, List.append_assoc]
                rfl
              have two : index + 2 = byteSize (front ++ ['"', '"']) := by
                rw [index_eq, byteSize_append]
                rfl
              exact ih _ (Nat.lt_of_succ_lt shorter) behind two true state rfl
            · exact onward false state
      · rw [walk_char text_eq index_eq inside plain, run_cons inside plain]
        exact bind_congr fun state => onward inside state

theorem walk_text (text : List Char) (inside : Bool) (state : σ) :
    walker.walk (bytes text) 0 inside state = walker.run 0 inside state text :=
  @walk_eq_run _ _ text [] text 0 rfl rfl inside state

end Walker

end Worksheet
