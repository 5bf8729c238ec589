import Carcer.Json.Text

/-!
# JSON values as data

How `encoding/json` stores a value in a variable of a given type: `null` leaves the variable as it
is, a member of an object is stored in the field of its name, or else in the one whose name differs
in case only, and the last member of a name counts.

## Main definitions

* `parseUint`, `parseInt`: the numbers of 64 bits
* `intoUint`, `intoInt`, `intoString`, `intoBool`, `intoPointer`, `intoSlice`: a value is stored in
  a variable
* `Field`, `intoStruct`: a value is stored in a structure
* `member`, `memberCount`: an object read as a map

## Main results

* `intoStruct_object`: an object with the members of a structure is stored member by member
-/

namespace Carcer.Json

open Carcer.Wire List

/-! ### Numbers and strings -/

/-- `strconv.ParseUint` in base ten for 64 bits. -/
def parseUint (literal : Bytes) : Option ℕ :=
  if literal ≠ [] ∧ literal.all isDigit ∧ decimalValue literal < 2 ^ 64 then
    some (decimalValue literal)
  else none

/-- `strconv.ParseInt` in base ten for 64 bits, on a literal of JSON. -/
def parseInt : Bytes → Option ℤ
  | 0x2d :: digits =>
    if digits ≠ [] ∧ digits.all isDigit ∧ decimalValue digits ≤ 2 ^ 63 then
      some (-(decimalValue digits : ℤ))
    else none
  | digits =>
    if digits ≠ [] ∧ digits.all isDigit ∧ decimalValue digits < 2 ^ 63 then
      some (decimalValue digits)
    else none

theorem all_isDigit_decimal (n : ℕ) : (decimal n).all isDigit = true :=
  all_eq_true.mpr fun digit hdigit => by simpa [isDigit] using digit_of_mem_decimal hdigit

theorem parseUint_decimal {n : ℕ} (h : n < 2 ^ 64) : parseUint (decimal n) = some n := by
  rw [parseUint, decimalValue_decimal, if_pos ⟨decimal_ne_nil n, all_isDigit_decimal n, h⟩]

theorem lt_of_parseUint {literal : Bytes} {value : ℕ} (h : parseUint literal = some value) :
    value < 2 ^ 64 := by
  rw [parseUint, Option.ite_none_right_eq_some, Option.some.injEq] at h
  exact h.2 ▸ h.1.2.2

theorem parseUint_padded (width : ℕ) (n : UInt64) :
    parseUint (padded width n.toNat) = some n.toNat := by
  have hdigits : (padded width n.toNat).all isDigit = true :=
    all_eq_true.mpr fun digit hdigit => by simpa [isDigit] using digit_of_mem_padded hdigit
  rw [parseUint, decimalValue_padded, if_pos ⟨padded_ne_nil width _, hdigits, n.toNat_lt⟩]

theorem parseInt_decimal {n : ℕ} (h : n < 2 ^ 63) : parseInt (decimal n) = some (n : ℤ) := by
  unfold parseInt
  split
  · rename_i digits heq
    have hminus := digit_of_mem_decimal (heq ▸ mem_cons_self : (0x2d : UInt8) ∈ decimal n)
    exact absurd hminus (by decide)
  · rw [decimalValue_decimal, if_pos ⟨decimal_ne_nil n, all_isDigit_decimal n, h⟩]

/-- A value is stored in an unsigned integer. -/
def intoUint : Value → ℕ → Option ℕ
  | .null, old => some old
  | .number literal, _ => parseUint literal
  | _, _ => none

/-- A value is stored in an unsigned integer of 64 bits. -/
def intoUint64 (value : Value) (old : UInt64) : Option UInt64 :=
  (intoUint value old.toNat).map UInt64.ofNat

theorem intoUint64_number (n old : UInt64) :
    intoUint64 (.number (decimal n.toNat)) old = some n := by
  have hparse : parseUint (decimal n.toNat) = some n.toNat := parseUint_decimal n.toNat_lt
  rw [intoUint64, intoUint, hparse, Option.map_some, UInt64.ofNat_toNat]

/-- A value is stored in an integer. -/
def intoInt : Value → ℤ → Option ℤ
  | .null, old => some old
  | .number literal, _ => parseInt literal
  | _, _ => none

/-- A value is stored in a string. -/
def intoString : Value → Bytes → Option Bytes
  | .null, old => some old
  | .string text, _ => some text
  | _, _ => none

/-- A value is stored in a Boolean. -/
def intoBool : Value → Bool → Option Bool
  | .null, old => some old
  | .bool value, _ => some value
  | _, _ => none

section Composite

variable {α σ : Type}

/-- A value is stored behind a pointer; `null` makes it nil. -/
def intoPointer (into : Value → α → Option α) (zero : α) : Value → Option α → Option (Option α)
  | .null, _ => some none
  | value, old => (into value (old.getD zero)).map some

/-- The elements of an array are stored in those of a slice, which grows where they are more. -/
def intoItems (into : Value → α → Option α) (zero : α) : List Value → List α → Option (List α)
  | [], _ => some []
  | item :: items, old => do
    let head ← into item (old.headD zero)
    let tail ← intoItems into zero items old.tail
    return head :: tail

/-- A value is stored in a slice; `null` makes it nil. -/
def intoSlice (into : Value → α → Option α) (zero : α) :
    Value → Option (List α) → Option (Option (List α))
  | .null, _ => some none
  | .array items, old => (intoItems into zero items (old.getD [])).map some
  | _, _ => none

/-! ### Structures -/

/-- A field of a structure: its name, and how a value is stored in it. -/
structure Field (σ : Type) where
  name : Bytes
  into : Value → σ → Option σ

/-- A letter of a name in upper case, as names are compared: the two letters outside of ASCII that
have an ASCII letter as another case count as it. -/
def foldSequence : Bytes → Bytes
  | [byte] => if 0x61 ≤ byte ∧ byte ≤ 0x7a then [byte - 0x20] else [byte]
  | bytes => if rune bytes = 0x17f then [0x53] else if rune bytes = 0x212a then [0x4b] else bytes

def foldName (name : Bytes) : Bytes := (sequences name).flatMap foldSequence

/-- The field that a member belongs to. -/
def findField (fields : List (Field σ)) (name : Bytes) : Option (Field σ) :=
  match fields.find? fun field => field.name = name with
  | some field => some field
  | none => fields.find? fun field => foldName field.name = foldName name

/-- A member is stored in its field; `strict` refuses a member without a field. -/
def intoField (strict : Bool) (fields : List (Field σ)) (s : σ) (member : Bytes × Value) :
    Option σ :=
  match findField fields member.1 with
  | some field => field.into member.2 s
  | none => if strict then none else some s

/-- A value is stored in a structure. -/
def intoStruct (strict : Bool) (fields : List (Field σ)) : Value → σ → Option σ
  | .null, s => some s
  | .object members, s => members.foldlM (intoField strict fields) s
  | _, _ => none

theorem findField_of_mem {fields : List (Field σ)} (hnodup : (fields.map Field.name).Nodup)
    {field : Field σ} (hfield : field ∈ fields) : findField fields field.name = some field := by
  have hfind : fields.find? (fun other => decide (other.name = field.name)) = some field := by
    induction fields with
    | nil => cases hfield
    | cons other fields ih =>
      rw [map_cons, nodup_cons] at hnodup
      rcases mem_cons.mp hfield with rfl | hmem
      · simp
      have hne : other.name ≠ field.name := fun heq =>
        hnodup.1 (heq ▸ mem_map_of_mem hmem)
      rw [find?_cons_of_neg (by simpa using hne)]
      exact ih hnodup.2 hmem
  rw [findField, hfind]

/-- The value of every field of `source`, stored one after the other. -/
def storeAll : List (Field σ × Value) → σ → Option σ
  | [], s => some s
  | (field, value) :: rest, s => (field.into value s).bind (storeAll rest)

/-- **An object with members of a structure is stored member by member.** -/
theorem intoStruct_object (strict : Bool) {fields : List (Field σ)}
    (hnodup : (fields.map Field.name).Nodup) {stored : List (Field σ × Value)}
    (hstored : ∀ part ∈ stored, part.1 ∈ fields) (s : σ) :
    intoStruct strict fields (.object (stored.map fun part => (part.1.name, part.2))) s =
      storeAll stored s := by
  rw [intoStruct]
  induction stored generalizing s with
  | nil => rfl
  | cons part stored ih =>
    obtain ⟨hpart, hrest⟩ := forall_mem_cons.mp hstored
    rw [map_cons, foldlM_cons, intoField, findField_of_mem hnodup hpart, storeAll]
    simp only [Option.bind_eq_bind]
    exact Option.bind_congr fun s' _ => ih hrest s'

end Composite

/-! ### Objects as maps -/

section Map

variable {β : Type}

/-- The value of a name in an object read as a map. -/
def member (members : List (Bytes × β)) (name : Bytes) : Option β :=
  (members.reverse.find? fun member => member.1 = name).map Prod.snd

/-- The number of names in an object read as a map. -/
def memberCount (members : List (Bytes × β)) : ℕ := (members.map Prod.fst).dedup.length

/-- The object has the given names and no others. -/
def hasExactMembers (members : List (Bytes × β)) (names : List Bytes) : Bool :=
  memberCount members = names.length ∧ names.all fun name => (member members name).isSome

theorem member_of_mem {members : List (Bytes × β)} (hnodup : (members.map Prod.fst).Nodup)
    {name : Bytes} {b : β} (h : (name, b) ∈ members) : member members name = some b := by
  have hmem : (name, b) ∈ members.reverse := mem_reverse.mpr h
  have hnodup : (members.reverse.map Prod.fst).Nodup := by
    rw [map_reverse]
    exact nodup_reverse.mpr hnodup
  rw [member]
  generalize members.reverse = reversed at hmem hnodup
  induction reversed with
  | nil => cases hmem
  | cons head rest ih =>
    rw [map_cons, nodup_cons] at hnodup
    rcases mem_cons.mp hmem with rfl | hmem
    · simp
    have hne : head.1 ≠ name := fun heq => hnodup.1 (heq ▸ mem_map_of_mem hmem)
    rw [find?_cons_of_neg (by simpa using hne)]
    exact ih hmem hnodup.2

theorem member_eq_none {members : List (Bytes × β)} {name : Bytes}
    (h : name ∉ members.map Prod.fst) : member members name = none := by
  rw [member, Option.map_eq_none_iff, find?_eq_none]
  intro pair hpair
  have hne : pair.1 ≠ name := fun heq =>
    h (heq ▸ mem_map_of_mem (mem_reverse.mp hpair))
  simpa using hne

theorem hasExactMembers_of_perm {members : List (Bytes × β)} {names}
    (hnodup : (members.map Prod.fst).Nodup) (h : (members.map Prod.fst).Perm names) :
    hasExactMembers members names = true := by
  refine decide_eq_true ⟨?_, all_eq_true.mpr fun name hname => ?_⟩
  · rw [memberCount, hnodup.dedup, h.length_eq]
  · obtain ⟨⟨_, b⟩, hmem, rfl⟩ := mem_map.mp (h.mem_iff.mpr hname)
    rw [member_of_mem hnodup hmem]
    rfl

end Map

end Carcer.Json
