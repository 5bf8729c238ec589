import Carcer.Wire.Runes

/-!
# Text made valid

`strings.ToValidUTF8` with the replacement character: each run of bytes that belong to no valid
sequence becomes one replacement character. A run of one or two bytes gets longer by that.

## Main definitions

* `toValidUTF8`: a text with its invalid bytes replaced
* `invalidBytes`, `invalidRuns`: the number of invalid bytes, and of the runs they form

## Main results

* `utf8Valid_toValidUTF8`: the result is valid
* `length_toValidUTF8`: its length
* `toValidUTF8_append`: the valid front of a text stays as it is
-/

namespace Carcer.Wire

open List

/-- U+FFFD. -/
def replacementCharacter : Bytes := [0xef, 0xbf, 0xbd]

/-- The sequences of a text with the invalid ones replaced; `invalid` says that the one before was
invalid. -/
def replaceFrom : Bool → List Bytes → Bytes
  | _, [] => []
  | invalid, part :: parts =>
    if IsSequence part then part ++ replaceFrom false parts
    else (if invalid then [] else replacementCharacter) ++ replaceFrom true parts

/-- `strings.ToValidUTF8` with U+FFFD. -/
def toValidUTF8 (text : Bytes) : Bytes := replaceFrom false (sequences text)

/-- The bytes of the invalid sequences. -/
def invalidLength (parts : List Bytes) : ℕ :=
  (parts.map fun part => if IsSequence part then 0 else part.length).sum

/-- The runs of invalid sequences. -/
def runsFrom : Bool → List Bytes → ℕ
  | _, [] => 0
  | invalid, part :: parts =>
    if IsSequence part then runsFrom false parts
    else (if invalid then 0 else 1) + runsFrom true parts

/-- The number of bytes that belong to no valid sequence. -/
def invalidBytes (text : Bytes) : ℕ := invalidLength (sequences text)

/-- The number of runs that they form. -/
def invalidRuns (text : Bytes) : ℕ := runsFrom false (sequences text)

theorem utf8Valid_replaceFrom (invalid : Bool) (parts : List Bytes) :
    utf8Valid (replaceFrom invalid parts) = true := by
  induction parts generalizing invalid with
  | nil => rfl
  | cons part parts ih =>
    rw [replaceFrom]
    split_ifs with hpart hinvalid
    · rw [utf8Valid_append hpart.utf8Valid]
      exact ih false
    · exact ih true
    · rw [utf8Valid_append (by decide)]
      exact ih true

/-- **The result is valid.** -/
theorem utf8Valid_toValidUTF8 (text : Bytes) : utf8Valid (toValidUTF8 text) = true :=
  utf8Valid_replaceFrom false (sequences text)

theorem length_replaceFrom (invalid : Bool) (parts : List Bytes) :
    (replaceFrom invalid parts).length + invalidLength parts =
      parts.flatten.length + 3 * runsFrom invalid parts := by
  induction parts generalizing invalid with
  | nil => rfl
  | cons part parts ih =>
    have hfalse := ih false
    have htrue := ih true
    simp only [invalidLength, map_cons, sum_cons, flatten_cons, replaceFrom,
      runsFrom, length_append] at hfalse htrue ⊢
    split_ifs
    · rw [length_append]
      omega
    · rw [nil_append]
      omega
    have hthree : replacementCharacter.length = 3 := rfl
    rw [length_append, hthree]
    omega

/-- **The length of the result**: the invalid bytes go, and three bytes come for each run. -/
theorem length_toValidUTF8 (text : Bytes) :
    (toValidUTF8 text).length + invalidBytes text = text.length + 3 * invalidRuns text := by
  have hlength := length_replaceFrom false (sequences text)
  rwa [flatten_sequences] at hlength

theorem replaceFrom_append {front} (h : ∀ part ∈ front, IsSequence part) (parts : List Bytes) :
    replaceFrom false (front ++ parts) = front.flatten ++ replaceFrom false parts := by
  induction front with
  | nil => rfl
  | cons part front ih =>
    obtain ⟨hpart, hfront⟩ := forall_mem_cons.mp h
    rw [cons_append, replaceFrom, if_pos hpart, ih hfront, flatten_cons,
      append_assoc]

/-- **The valid front of a text stays as it is.** -/
theorem toValidUTF8_append {front : Bytes} (h : utf8Valid front = true) (text : Bytes) :
    toValidUTF8 (front ++ text) = front ++ toValidUTF8 text := by
  rw [toValidUTF8, sequences_append h, replaceFrom_append fun part => isSequence_of_mem h part,
    flatten_sequences]
  rfl

theorem toValidUTF8_of_valid {text : Bytes} (h : utf8Valid text = true) :
    toValidUTF8 text = text := by
  have happend := toValidUTF8_append h []
  rwa [append_nil, show toValidUTF8 [] = [] from rfl, append_nil] at happend

end Carcer.Wire
