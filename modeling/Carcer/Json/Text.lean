import Carcer.Json.Numbers
import Carcer.Json.Strings

/-!
# JSON texts

The texts of RFC 8259 as `encoding/json` reads and writes them. A value keeps the literals of its
numbers, and the members of its objects in order, a name that stands twice included.

## Main definitions

* `Value`: the value of a text
* `value`: the scanner, and `first`, the first value of a text
* `Layout`, `print`: a value as text

## Main results

* `first_print`: a value is read back from its text
-/

namespace Carcer.Json

open Carcer.Wire List

/-- The value of a JSON text. -/
inductive Value
  | null
  | bool (value : Bool)
  | number (literal : Bytes)
  | string (text : Bytes)
  | array (items : List Value)
  | object (members : List (Bytes × Value))

/-! ### The scanner -/

/-- White space of JSON. -/
def isBlank (byte : UInt8) : Bool := byte = 0x20 ∨ byte = 0x09 ∨ byte = 0x0a ∨ byte = 0x0d

/-- What stands behind the white space. -/
def skipBlank (text : Bytes) : Bytes := text.dropWhile isBlank

/-- A word in front of a text. -/
def takeWord (word text : Bytes) : Option Bytes :=
  if word.isPrefixOf text then some (text.drop word.length) else none

/-- A value that is neither a string nor an array nor an object. -/
def scalar (text : Bytes) : Option (Value × Bytes) :=
  match takeWord (ascii "null") text with
  | some rest => some (.null, rest)
  | none =>
    match takeWord (ascii "true") text with
    | some rest => some (.bool true, rest)
    | none =>
      match takeWord (ascii "false") text with
      | some rest => some (.bool false, rest)
      | none => (numberText text).map fun (literal, rest) => (.number literal, rest)

/-- A string in its quotes. -/
def quoted : Bytes → Option (Bytes × Bytes)
  | 0x22 :: rest => stringBody rest.length rest
  | _ => none

mutual

/-- The first value of a text and what stands behind it. Arrays and objects nest to `depth`; a
round takes at least every second time a byte off the text, and `fuel` counts the rounds. -/
def value : ℕ → ℕ → Bytes → Option (Value × Bytes)
  | 0, _, _ => none
  | fuel + 1, depth, text =>
    match skipBlank text with
    | 0x22 :: rest => (quoted (0x22 :: rest)).map fun (text, rest) => (.string text, rest)
    | 0x5b :: rest =>
      match depth with
      | 0 => none
      | depth + 1 =>
        match skipBlank rest with
        | 0x5d :: rest => some (.array [], rest)
        | rest => (elements fuel depth rest).map fun (items, rest) => (.array items, rest)
    | 0x7b :: rest =>
      match depth with
      | 0 => none
      | depth + 1 =>
        match skipBlank rest with
        | 0x7d :: rest => some (.object [], rest)
        | rest => (pairs fuel depth rest).map fun (members, rest) => (.object members, rest)
    | rest => scalar rest

/-- The elements of an array up to its end. -/
def elements : ℕ → ℕ → Bytes → Option (List Value × Bytes)
  | 0, _, _ => none
  | fuel + 1, depth, text => do
    let (item, rest) ← value fuel depth text
    match skipBlank rest with
    | 0x2c :: rest =>
      let (items, rest) ← elements fuel depth rest
      return (item :: items, rest)
    | 0x5d :: rest => return ([item], rest)
    | _ => none

/-- The members of an object up to its end. -/
def pairs : ℕ → ℕ → Bytes → Option (List (Bytes × Value) × Bytes)
  | 0, _, _ => none
  | fuel + 1, depth, text => do
    let (name, rest) ← quoted (skipBlank text)
    match skipBlank rest with
    | 0x3a :: rest =>
      let (item, rest) ← value fuel depth rest
      match skipBlank rest with
      | 0x2c :: rest =>
        let (members, rest) ← pairs fuel depth rest
        return ((name, item) :: members, rest)
      | 0x7d :: rest => return ([(name, item)], rest)
      | _ => none
    | _ => none

end

/-- The greatest depth that `encoding/json` reads. -/
def maxNestingDepth : ℕ := 10000

/-- The first value of a text and what stands behind it. -/
def first (text : Bytes) : Option (Value × Bytes) := value (2 * text.length) maxNestingDepth text

/-- The value of a text with nothing behind it. -/
def parse (text : Bytes) : Option Value := do
  let (value, rest) ← first text
  if skipBlank rest = [] then some value else none

/-! ### Printing -/

/-- Where a writer puts white space: before an element or the end of an array or object, by its
depth, and behind the colon of a member. -/
structure Layout where
  line : ℕ → Bytes
  colon : Bytes
  line_blank : ∀ depth, (line depth).all isBlank = true
  colon_blank : colon.all isBlank = true

/-- The layout of `json.MarshalIndent` with two blanks. -/
def indented : Layout where
  line depth := 0x0a :: List.replicate (2 * depth) 0x20
  colon := [0x20]
  line_blank depth := by simp [isBlank]
  colon_blank := by decide

section Print

variable (quote : Bytes → Bytes) (layout : Layout)

/-- A string in its quotes. -/
def printString (text : Bytes) : Bytes := 0x22 :: quote text ++ [0x22]

mutual

/-- A value as text; `quote` writes the inside of a string. -/
def print (depth : ℕ) : Value → Bytes
  | .null => ascii "null"
  | .bool true => ascii "true"
  | .bool false => ascii "false"
  | .number literal => literal
  | .string text => printString quote text
  | .array items =>
    if items.isEmpty then [0x5b, 0x5d]
    else 0x5b :: (printItems (depth + 1) items).tail ++ (layout.line depth ++ [0x5d])
  | .object members =>
    if members.isEmpty then [0x7b, 0x7d]
    else 0x7b :: (printMembers (depth + 1) members).tail ++ (layout.line depth ++ [0x7d])

/-- The elements of an array as text, with a comma before each. -/
def printItems (depth : ℕ) : List Value → Bytes
  | [] => []
  | item :: items => 0x2c :: (layout.line depth ++ print depth item ++ printItems depth items)

/-- The members of an object as text, with a comma before each. -/
def printMembers (depth : ℕ) : List (Bytes × Value) → Bytes
  | [] => []
  | (name, item) :: members =>
    0x2c :: (layout.line depth ++ printString quote name ++ 0x3a :: layout.colon ++
      print depth item ++ printMembers depth members)

end

end Print

/-! ### Reading what was printed -/

theorem skipBlank_append {blank : Bytes} (h : blank.all isBlank = true) (text : Bytes) :
    skipBlank (blank ++ text) = skipBlank text := by
  rw [skipBlank, dropWhile_append_of_pos (all_eq_true.mp h), skipBlank]

theorem skipBlank_cons {byte : UInt8} (h : isBlank byte = false) (text : Bytes) :
    skipBlank (byte :: text) = byte :: text :=
  dropWhile_cons_of_neg (by simp [h])

theorem stops_blank {blank rest : Bytes} (h : blank.all isBlank = true) (hrest : Stops rest) :
    Stops (blank ++ rest) := by
  cases blank with
  | nil => exact hrest
  | cons byte blank =>
    have hbyte : isBlank byte = true := by simp_all
    have hcases : byte = 0x20 ∨ byte = 0x09 ∨ byte = 0x0a ∨ byte = 0x0d := by
      simpa [isBlank] using hbyte
    refine stops_cons ?_
    rcases hcases with rfl | rfl | rfl | rfl <;> decide

theorem takeWord_of_ne {first second : UInt8} (h : first ≠ second) (word text : Bytes) :
    takeWord (first :: word) (second :: text) = none := by
  simp [takeWord, h]

theorem takeWord_append (word rest : Bytes) : takeWord word (word ++ rest) = some rest := by
  simp [takeWord]

theorem ascii_words : ascii "null" = [0x6e, 0x75, 0x6c, 0x6c] ∧
    ascii "true" = [0x74, 0x72, 0x75, 0x65] ∧ ascii "false" = [0x66, 0x61, 0x6c, 0x73, 0x65] := by
  decide +kernel

theorem scalar_words (rest : Bytes) : scalar (ascii "null" ++ rest) = some (.null, rest) ∧
    scalar (ascii "true" ++ rest) = some (.bool true, rest) ∧
    scalar (ascii "false" ++ rest) = some (.bool false, rest) := by
  refine ⟨?_, ?_, ?_⟩
  · rw [scalar, takeWord_append]
  · rw [scalar, ascii_words.1, ascii_words.2.1, cons_append, takeWord_of_ne (by decide),
      ← cons_append, takeWord_append]
  · rw [scalar, ascii_words.1, ascii_words.2.1, ascii_words.2.2, cons_append,
      takeWord_of_ne (by decide), takeWord_of_ne (by decide), ← cons_append, takeWord_append]

/-- The first byte of a number. -/
theorem IsNumber.head {literal : Bytes} (h : IsNumber literal) :
    ∃ byte text, literal = byte :: text ∧ isNumeric byte = true := by
  obtain ⟨byte, text, rfl⟩ := exists_cons_of_ne_nil (numberText_reads h).1
  exact ⟨byte, text, rfl, h.numeric byte mem_cons_self⟩

theorem ne_of_isNumeric {byte other : UInt8} (h : isNumeric byte = true)
    (hother : isNumeric other = false) : byte ≠ other := by
  rintro rfl
  rw [h] at hother
  cases hother

theorem scalar_of_numberText {text literal rest} (h : numberText text = some (literal, rest)) :
    scalar text = some (.number literal, rest) := by
  obtain ⟨hne, hreads⟩ := numberText_reads h
  obtain ⟨byte, part, rfl⟩ := exists_cons_of_ne_nil hne
  have hne : ∀ other : UInt8, isNumeric other = false → other ≠ byte := fun other hother =>
    (ne_of_isNumeric (hreads.numeric byte mem_cons_self) hother).symm
  unfold scalar
  rw [h, hreads.text_eq, ascii_words.1, ascii_words.2.1, ascii_words.2.2, cons_append,
    takeWord_of_ne (hne 0x6e (by decide)), takeWord_of_ne (hne 0x74 (by decide)),
    takeWord_of_ne (hne 0x66 (by decide))]
  rfl

theorem scalar_number {literal : Bytes} (hliteral : IsNumber literal) {rest : Bytes}
    (h : Stops rest) : scalar (literal ++ rest) = some (.number literal, rest) :=
  scalar_of_numberText (numberText_append hliteral h)

/-- The text of a string is read as what `clean` makes of it. -/
def QuotesAs (quote clean : Bytes → Bytes) (text : Bytes) : Prop :=
  ∀ fuel rest, (quote text).length < fuel →
    stringBody fuel (quote text ++ 0x22 :: rest) = some (clean text, rest)

/-- The text of a string is read back. -/
def Quotes (quote : Bytes → Bytes) (text : Bytes) : Prop :=
  ∀ fuel rest, (quote text).length < fuel →
    stringBody fuel (quote text ++ 0x22 :: rest) = some (text, rest)

section MapStrings

variable (f : Bytes → Bytes)

mutual

/-- A value with other strings. -/
def Value.mapStrings : Value → Value
  | .string text => .string (f text)
  | .array items => .array (mapItems items)
  | .object members => .object (mapMembers members)
  | v => v

/-- The elements with other strings. -/
def mapItems : List Value → List Value
  | [] => []
  | item :: items => item.mapStrings :: mapItems items

/-- The members with other strings. -/
def mapMembers : List (Bytes × Value) → List (Bytes × Value)
  | [] => []
  | (name, item) :: members => (f name, item.mapStrings) :: mapMembers members

end

end MapStrings

section Printable

variable (P : Bytes → Prop)

mutual

/-- The strings of a value have a property, and its numbers are literals. -/
def Value.Printable : Value → Prop
  | .number literal => IsNumber literal
  | .string text => P text
  | .array items => ItemsPrintable items
  | .object members => MembersPrintable members
  | _ => True

/-- All elements can be written. -/
def ItemsPrintable : List Value → Prop
  | [] => True
  | item :: items => item.Printable ∧ ItemsPrintable items

/-- All members can be written. -/
def MembersPrintable : List (Bytes × Value) → Prop
  | [] => True
  | (name, item) :: members => P name ∧ item.Printable ∧ MembersPrintable members

end

end Printable

mutual

/-- How deep arrays and objects nest. -/
def Value.depth : Value → ℕ
  | .array items => itemsDepth items + 1
  | .object members => membersDepth members + 1
  | _ => 0

/-- How deep the elements nest. -/
def itemsDepth : List Value → ℕ
  | [] => 0
  | item :: items => max item.depth (itemsDepth items)

/-- How deep the members nest. -/
def membersDepth : List (Bytes × Value) → ℕ
  | [] => 0
  | (_, item) :: members => max item.depth (membersDepth members)

end

section Reading

variable {quote clean : Bytes → Bytes} {layout : Layout}

theorem quoted_printString_as {text : Bytes} (h : QuotesAs quote clean text) (rest : Bytes) :
    quoted (printString quote text ++ rest) = some (clean text, rest) := by
  have htext : printString quote text ++ rest = 0x22 :: (quote text ++ 0x22 :: rest) := by
    simp [printString]
  rw [htext, quoted]
  apply h
  simp only [length_append, length_cons]
  omega

theorem quoted_printString {text : Bytes} (h : Quotes quote text) (rest : Bytes) :
    quoted (printString quote text ++ rest) = some (text, rest) :=
  @quoted_printString_as quote id text h rest

theorem skipBlank_printString (text rest : Bytes) :
    skipBlank (printString quote text ++ rest) = printString quote text ++ rest :=
  skipBlank_cons (by decide) _

variable (layout) in
/-- What is printed begins with a byte that is neither blank nor closes anything. -/
theorem print_head {P : Bytes → Prop} {v : Value} (hv : v.Printable P) (d : ℕ) :
    ∃ byte text, print quote layout d v = byte :: text ∧ isBlank byte = false ∧ byte ≠ 0x5d ∧
      byte ≠ 0x7d ∧ byte ≠ 0x5c := by
  cases v with
  | null => exact ⟨_, _, by rw [print, ascii_words.1], by decide, by decide, by decide, by decide⟩
  | bool b =>
    cases b with
    | true => exact ⟨_, _, by rw [print, ascii_words.2.1],
      by decide, by decide, by decide, by decide⟩
    | false => exact ⟨_, _, by rw [print, ascii_words.2.2],
      by decide, by decide, by decide, by decide⟩
  | number literal =>
    obtain ⟨byte, text, rfl, hbyte⟩ := IsNumber.head hv
    have hne : ∀ other : UInt8, isNumeric other = false → byte ≠ other := fun other hother =>
      ne_of_isNumeric hbyte hother
    refine ⟨byte, text, by rw [print], ?_, hne _ (by decide), hne _ (by decide),
      hne _ (by decide)⟩
    simp only [isBlank, decide_eq_false_iff_not, not_or]
    exact ⟨hne _ (by decide), hne _ (by decide), hne _ (by decide), hne _ (by decide)⟩
  | string text =>
    exact ⟨_, _, by rw [print, printString, cons_append],
      by decide, by decide, by decide, by decide⟩
  | array items | object members =>
    rw [print]
    split_ifs
    all_goals exact ⟨_, _, rfl, by decide, by decide, by decide, by decide⟩

variable (quote clean layout) in
/-- A value is read from its text as what `clean` makes of it, with blanks before it and any text
behind it. -/
def Reads (v : Value) : Prop :=
  v.Printable (QuotesAs quote clean) → ∀ d fuel depth, 2 * (print quote layout d v).length ≤ fuel →
    v.depth ≤ depth → ∀ blank rest, blank.all isBlank = true → Stops rest →
      value fuel depth (blank ++ (print quote layout d v ++ rest)) =
        some (v.mapStrings clean, rest)

theorem reads_scalar {v : Value}
    (hscalar : ∀ d rest, v.Printable (QuotesAs quote clean) → Stops rest →
      scalar (print quote layout d v ++ rest) = some (v.mapStrings clean, rest))
    (hhead : ∀ d byte text, v.Printable (QuotesAs quote clean) →
      print quote layout d v = byte :: text →
      byte ≠ 0x22 ∧ byte ≠ 0x5b ∧ byte ≠ 0x7b) : Reads quote clean layout v := by
  intro hv d fuel depth hfuel _ blank rest hblank hrest
  obtain ⟨byte, text, hprint, hbyte, -, -⟩ := print_head layout hv d
  obtain ⟨hstring, harray, hobject⟩ := hhead d byte text hv hprint
  have hscalar := hscalar d rest hv hrest
  rw [hprint] at hfuel hscalar ⊢
  rw [length_cons] at hfuel
  obtain _ | fuel := fuel
  · omega
  rw [cons_append] at hscalar ⊢
  rw [value, skipBlank_append hblank, skipBlank_cons hbyte]
  split
  · rename_i heq
    exact absurd (List.cons.inj heq).1 hstring
  · rename_i heq
    exact absurd (List.cons.inj heq).1 harray
  · rename_i heq
    exact absurd (List.cons.inj heq).1 hobject
  · exact hscalar

theorem stops_comma (rest : Bytes) : Stops (0x2c :: rest) := stops_cons (by decide)

theorem elements_print {item items} (hreads : ∀ v ∈ item :: items, Reads quote clean layout v)
    (hitems : ItemsPrintable (QuotesAs quote clean) (item :: items)) {d fuel depth : ℕ}
    (hfuel : 2 * (print quote layout d item ++ printItems quote layout d items).length < fuel)
    (hdepth : itemsDepth (item :: items) ≤ depth) {blank line : Bytes}
    (hblank : blank.all isBlank = true) (hline : line.all isBlank = true) (rest : Bytes) :
    elements fuel depth (blank ++ (print quote layout d item ++
        (printItems quote layout d items ++ (line ++ 0x5d :: rest)))) =
      some (mapItems clean (item :: items), rest) := by
  induction items generalizing item fuel blank with
  | nil =>
    obtain _ | fuel := fuel
    · omega
    have hstops : Stops (line ++ 0x5d :: rest) := stops_blank hline (stops_cons (by decide))
    have hvalue := hreads item mem_cons_self hitems.1 d fuel depth
      (by simp [printItems] at hfuel; omega) (le_trans (le_max_left _ _) hdepth) blank _ hblank
      hstops
    rw [elements]
    simp only [printItems, nil_append, hvalue, Option.bind_eq_bind, Option.bind_some,
      skipBlank_append hline, skipBlank_cons (show isBlank 0x5d = false by decide)]
    rfl
  | cons next items ih =>
    obtain _ | fuel := fuel
    · omega
    simp only [printItems, length_append, length_cons] at hfuel
    have hvalue := hreads item mem_cons_self hitems.1 d fuel depth (by omega)
      (le_trans (le_max_left _ _) hdepth) blank
      (0x2c :: (layout.line d ++ (print quote layout d next ++
        (printItems quote layout d items ++ (line ++ 0x5d :: rest))))) hblank (stops_comma _)
    have hless :
        2 * (print quote layout d next ++ printItems quote layout d items).length < fuel := by
      rw [length_append]
      omega
    have hrest := ih (fun v hv => hreads v (mem_cons_of_mem _ hv)) hitems.2 hless
      (le_trans (le_max_right _ _) hdepth) (layout.line_blank d)
    rw [elements]
    simp only [printItems, cons_append, append_assoc, hvalue, Option.bind_eq_bind,
      Option.bind_some, skipBlank_cons (show isBlank 0x2c = false by decide), hrest]
    rfl

theorem pairs_print {name : Bytes} {item members}
    (hreads : ∀ member ∈ (name, item) :: members, Reads quote clean layout member.2)
    (hmembers : MembersPrintable (QuotesAs quote clean) ((name, item) :: members))
    {d fuel depth : ℕ} (hfuel : 2 * (printString quote name ++ print quote layout d item ++
      printMembers quote layout d members).length < fuel)
    (hdepth : membersDepth ((name, item) :: members) ≤ depth) {blank line : Bytes}
    (hblank : blank.all isBlank = true) (hline : line.all isBlank = true) (rest : Bytes) :
    pairs fuel depth (blank ++ (printString quote name ++ 0x3a :: (layout.colon ++
        (print quote layout d item ++
          (printMembers quote layout d members ++ (line ++ 0x7d :: rest)))))) =
      some (mapMembers clean ((name, item) :: members), rest) := by
  have hcolon : isBlank 0x3a = false := by decide
  induction members generalizing name item fuel blank with
  | nil =>
    obtain _ | fuel := fuel
    · omega
    simp only [printMembers, append_nil, length_append] at hfuel
    have hstops : Stops (line ++ 0x7d :: rest) := stops_blank hline (stops_cons (by decide))
    have hitem : Reads quote clean layout item := hreads (name, item) mem_cons_self
    have hvalue := hitem hmembers.2.1 d fuel depth (by omega)
      (le_trans (le_max_left _ _) hdepth) layout.colon _ layout.colon_blank hstops
    rw [pairs, skipBlank_append hblank, skipBlank_printString, quoted_printString_as hmembers.1]
    simp only [printMembers, nil_append, Option.bind_eq_bind, Option.bind_some,
      skipBlank_cons hcolon, hvalue, skipBlank_append hline,
      skipBlank_cons (show isBlank 0x7d = false by decide)]
    rfl
  | cons next members ih =>
    obtain ⟨nextName, next⟩ := next
    obtain _ | fuel := fuel
    · omega
    simp only [printMembers, length_append, length_cons] at hfuel
    have hitem : Reads quote clean layout item := hreads (name, item) mem_cons_self
    have hvalue := hitem hmembers.2.1 d fuel depth (by omega)
      (le_trans (le_max_left _ _) hdepth) layout.colon
      (0x2c :: (layout.line d ++ (printString quote nextName ++ 0x3a :: (layout.colon ++
        (print quote layout d next ++
          (printMembers quote layout d members ++ (line ++ 0x7d :: rest))))))) layout.colon_blank
      (stops_comma _)
    have hless : 2 * (printString quote nextName ++ print quote layout d next ++
        printMembers quote layout d members).length < fuel := by
      simp only [length_append]
      omega
    have hrest := ih (fun member hmember => hreads member (mem_cons_of_mem _ hmember))
      hmembers.2.2 hless (le_trans (le_max_right _ _) hdepth) (layout.line_blank d)
    rw [pairs, skipBlank_append hblank, skipBlank_printString, quoted_printString_as hmembers.1]
    simp only [printMembers, cons_append, append_assoc, Option.bind_eq_bind,
      Option.bind_some, skipBlank_cons hcolon, hvalue,
      skipBlank_cons (show isBlank 0x2c = false by decide), hrest]
    rfl

theorem reads_array {items} (h : ∀ v ∈ items, Reads quote clean layout v) :
    Reads quote clean layout (.array items) := by
  have hopen : isBlank 0x5b = false := by decide
  have hclose : isBlank 0x5d = false := by decide
  intro hv d fuel depth hfuel hdepth blank rest hblank hrest
  obtain ⟨depth, rfl⟩ := Nat.exists_eq_add_one_of_ne_zero (Nat.ne_zero_of_lt hdepth)
  rcases items with _ | ⟨item, items⟩
  · simp only [print, isEmpty_nil, if_true, length_cons] at hfuel ⊢
    obtain _ | fuel := fuel
    · omega
    rw [cons_append, cons_append, value, skipBlank_append hblank, skipBlank_cons hopen]
    simp only [nil_append, skipBlank_cons hclose]
    rfl
  have htext : print quote layout d (.array (item :: items)) ++ rest =
      0x5b :: (layout.line (d + 1) ++ (print quote layout (d + 1) item ++
        (printItems quote layout (d + 1) items ++ (layout.line d ++ 0x5d :: rest)))) := by
    simp [print, printItems]
  have hlength : (print quote layout d (.array (item :: items))).length =
      (layout.line (d + 1)).length + (print quote layout (d + 1) item ++
        printItems quote layout (d + 1) items).length + (layout.line d).length + 2 := by
    simp [print, printItems]
    omega
  rw [hlength] at hfuel
  obtain _ | fuel := fuel
  · omega
  have hless : 2 * (print quote layout (d + 1) item ++
      printItems quote layout (d + 1) items).length < fuel := by omega
  have helements := elements_print h hv hless (Nat.le_of_add_le_add_right hdepth)
    (show ([] : Bytes).all isBlank = true from rfl) (layout.line_blank d) rest
  obtain ⟨byte, text, hprint, hbyte, hne, -⟩ := print_head layout hv.1 (d + 1)
  rw [htext, value, skipBlank_append hblank, skipBlank_cons hopen]
  simp only
  rw [skipBlank_append (layout.line_blank (d + 1))]
  rw [nil_append, hprint, cons_append] at helements
  rw [hprint, cons_append, skipBlank_cons hbyte]
  split
  · rename_i heq
    exact absurd (List.cons.inj heq).1 hne
  · rw [helements]
    rfl

theorem print_object_cons (d : ℕ) (name : Bytes) (item members) (rest : Bytes) :
    print quote layout d (.object ((name, item) :: members)) ++ rest =
      0x7b :: (layout.line (d + 1) ++ (printString quote name ++ 0x3a :: (layout.colon ++
        (print quote layout (d + 1) item ++ (printMembers quote layout (d + 1) members ++
          (layout.line d ++ 0x7d :: rest)))))) := by
  simp [print, printMembers]

theorem reads_object {members} (h : ∀ member ∈ members, Reads quote clean layout member.2) :
    Reads quote clean layout (.object members) := by
  have hopen : isBlank 0x7b = false := by decide
  have hclose : isBlank 0x7d = false := by decide
  intro hv d fuel depth hfuel hdepth blank rest hblank hrest
  obtain ⟨depth, rfl⟩ := Nat.exists_eq_add_one_of_ne_zero (Nat.ne_zero_of_lt hdepth)
  rcases members with _ | ⟨member, members⟩
  · simp only [print, isEmpty_nil, if_true, length_cons] at hfuel ⊢
    obtain _ | fuel := fuel
    · omega
    rw [cons_append, cons_append, value, skipBlank_append hblank, skipBlank_cons hopen]
    simp only [nil_append, skipBlank_cons hclose]
    rfl
  obtain ⟨name, item⟩ := member
  have hlength : (print quote layout d (.object ((name, item) :: members))).length =
      (layout.line (d + 1)).length + layout.colon.length + (printString quote name ++
        print quote layout (d + 1) item ++ printMembers quote layout (d + 1) members).length +
          (layout.line d).length + 3 := by
    simp [print, printMembers]
    omega
  rw [hlength] at hfuel
  obtain _ | fuel := fuel
  · omega
  have hless : 2 * (printString quote name ++ print quote layout (d + 1) item ++
      printMembers quote layout (d + 1) members).length < fuel := by omega
  have hpairs := pairs_print h hv hless (Nat.le_of_add_le_add_right hdepth)
    (show ([] : Bytes).all isBlank = true from rfl) (layout.line_blank d) rest
  rw [print_object_cons, value, skipBlank_append hblank, skipBlank_cons hopen]
  simp only
  rw [skipBlank_append (layout.line_blank (d + 1)), skipBlank_printString]
  rw [nil_append] at hpairs
  split
  · rename_i heq
    rw [printString, cons_append] at heq
    exact absurd (List.cons.inj heq).1 (by decide)
  · rw [hpairs]
    rfl

theorem reads_string (text : Bytes) : Reads quote clean layout (.string text) := by
  intro hv d fuel depth hfuel _ blank rest hblank _
  have htext : printString quote text ++ rest = 0x22 :: (quote text ++ 0x22 :: rest) := by
    simp [printString]
  have hquoted := quoted_printString_as hv rest
  rw [print] at hfuel ⊢
  simp only [printString, cons_append, length_cons] at hfuel
  obtain _ | fuel := fuel
  · omega
  rw [value, skipBlank_append hblank, skipBlank_printString, htext]
  simp only
  rw [← htext, hquoted]
  rfl

theorem reads_number (literal : Bytes) : Reads quote clean layout (.number literal) := by
  apply reads_scalar
  · intro d rest hliteral hrest
    rw [print]
    exact scalar_number hliteral hrest
  · intro d byte text hliteral hprint
    rw [print] at hprint
    obtain ⟨first, behind, rfl, hfirst⟩ := IsNumber.head hliteral
    cases hprint
    exact ⟨ne_of_isNumeric hfirst (by decide), ne_of_isNumeric hfirst (by decide),
      ne_of_isNumeric hfirst (by decide)⟩

theorem reads_null : Reads quote clean layout .null := by
  apply reads_scalar
  · exact fun d rest _ _ => (scalar_words rest).1
  · intro d byte text _ hprint
    rw [print, ascii_words.1] at hprint
    cases hprint
    decide

theorem reads_bool (b : Bool) : Reads quote clean layout (.bool b) := by
  apply reads_scalar
  · intro d rest _ _
    cases b with
    | true => exact (scalar_words rest).2.1
    | false => exact (scalar_words rest).2.2
  · intro d byte text _ hprint
    cases b with
    | true =>
      rw [print, ascii_words.2.1] at hprint
      cases hprint
      decide
    | false =>
      rw [print, ascii_words.2.2] at hprint
      cases hprint
      decide

/-- **Every value is read from its text.** -/
theorem reads (v : Value) : Reads quote clean layout v := by
  refine Value.depth.induct (Reads quote clean layout)
    (fun members => ∀ member ∈ members, Reads quote clean layout member.2)
    (fun items => ∀ v ∈ items, Reads quote clean layout v) ?_ ?_ ?_ ?_ ?_ ?_ ?_ v
  · exact fun items => reads_array
  · exact fun members => reads_object
  · intro v harray hobject
    cases v with
    | null => exact reads_null
    | bool b => exact reads_bool b
    | number literal => exact reads_number literal
    | string text => exact reads_string text
    | array items => exact absurd rfl (harray items)
    | object members => exact absurd rfl (hobject members)
  · simp
  · exact fun item items hitem hitems => forall_mem_cons.mpr ⟨hitem, hitems⟩
  · simp
  · exact fun name item members hitem hmembers => forall_mem_cons.mpr ⟨hitem, hmembers⟩

/-- **A text is read**, whatever stands behind it. -/
theorem first_print_as {v : Value} (hv : v.Printable (QuotesAs quote clean))
    (hdepth : v.depth ≤ maxNestingDepth) {d : ℕ} {rest : Bytes} (hrest : Stops rest) :
    first (print quote layout d v ++ rest) = some (v.mapStrings clean, rest) := by
  have hlength : 2 * (print quote layout d v).length ≤
      2 * (print quote layout d v ++ rest).length := by
    rw [length_append]
    omega
  exact reads v hv d _ _ hlength hdepth [] rest rfl hrest

theorem mapStrings_id (v : Value) : v.mapStrings id = v := by
  refine Value.depth.induct (fun v => v.mapStrings id = v)
    (fun members => mapMembers id members = members) (fun items => mapItems id items = items)
    ?_ ?_ ?_ ?_ ?_ ?_ ?_ v
  · intro items ih
    rw [Value.mapStrings, ih]
  · intro members ih
    rw [Value.mapStrings, ih]
  · intro v harray hobject
    cases v with
    | array items => exact absurd rfl (harray items)
    | object members => exact absurd rfl (hobject members)
    | _ => rfl
  · rfl
  · intro item items hitem hitems
    rw [mapItems, hitem, hitems]
  · rfl
  · intro name item members hitem hmembers
    rw [mapMembers, hitem, hmembers, id]

theorem reads_back {v : Value} (hv : v.Printable (Quotes quote)) (d : ℕ) {fuel depth : ℕ}
    (hfuel : 2 * (print quote layout d v).length ≤ fuel) (hdepth : v.depth ≤ depth)
    {blank rest : Bytes} (hblank : blank.all isBlank = true) (hrest : Stops rest) :
    value fuel depth (blank ++ (print quote layout d v ++ rest)) = some (v, rest) := by
  have hreads := @reads quote id layout v hv d fuel depth hfuel hdepth blank rest hblank hrest
  rwa [mapStrings_id] at hreads

/-- **A text is read back**, whatever stands behind it. -/
theorem first_print {v : Value} (hv : v.Printable (Quotes quote))
    (hdepth : v.depth ≤ maxNestingDepth) {d : ℕ} {rest : Bytes} (hrest : Stops rest) :
    first (print quote layout d v ++ rest) = some (v, rest) := by
  have hfirst := @first_print_as quote id layout v hv hdepth d rest hrest
  rwa [mapStrings_id] at hfirst

theorem parse_print {v : Value} (hv : v.Printable (Quotes quote))
    (hdepth : v.depth ≤ maxNestingDepth) (d : ℕ) : parse (print quote layout d v) = some v := by
  have hfirst : first (print quote layout d v) = some (v, []) := by
    have hfirst := @first_print quote layout v hv hdepth d [] stops_nil
    rwa [append_nil] at hfirst
  rw [parse, hfirst]
  rfl

end Reading

theorem quotes_escape (html : Bool) {text : Bytes} (h : utf8Valid text = true) :
    Quotes (escape html) text := fun _ rest hfuel =>
  stringBody_written (unread_escapeSequence html) h hfuel rest

theorem quotes_escapeKept {text : Bytes} (h : utf8Valid text = true) : Quotes escapeKept text :=
  fun _ rest hfuel => stringBody_written unread_keepSequence h hfuel rest

theorem Value.Printable.mono {P Q : Bytes → Prop} (h : ∀ text, P text → Q text) (v : Value) :
    v.Printable P → v.Printable Q := by
  refine Value.depth.induct (fun v => v.Printable P → v.Printable Q)
    (fun members => MembersPrintable P members → MembersPrintable Q members)
    (fun items => ItemsPrintable P items → ItemsPrintable Q items) ?_ ?_ ?_ ?_ ?_ ?_ ?_ v
  · exact fun items ih => ih
  · exact fun members ih => ih
  · intro v harray hobject hv
    cases v with
    | string text => exact h text hv
    | array items => exact absurd rfl (harray items)
    | object members => exact absurd rfl (hobject members)
    | _ => exact hv
  · exact fun hv => hv
  · exact fun item items hitem hitems hv => ⟨hitem hv.1, hitems hv.2⟩
  · exact fun hv => hv
  · exact fun name item members hitem hmembers hv => ⟨h name hv.1, hitem hv.2.1, hmembers hv.2.2⟩

/-! ### Two ways to print a value

A relation that holds between what two writers make of the same string holds between what they make
of a value, when it holds of the bytes that both write around strings and carries over to what is
written one after the other. A property of what one writer prints is the case of a relation that
only looks at one side. -/

section Relation

variable {quote quote' : Bytes → Bytes} {layout : Layout} {R : Bytes → Bytes → Prop}

/-- What a relation between printed texts has to do with the bytes around strings. -/
structure Structural (layout : Layout) (R : Bytes → Bytes → Prop) : Prop where
  nil : R [] []
  append : ∀ {a a' b b'}, R a a' → R b b' → R (a ++ b) (a' ++ b')
  byte : ∀ byte : UInt8, 0x20 < byte → byte < 0x80 → byte ≠ 0x5c → R [byte] [byte]
  line : ∀ depth, R (layout.line depth) (layout.line depth)
  colon : R layout.colon layout.colon

section

variable (h : Structural layout R)
include h

theorem Structural.cons {byte : UInt8} {a a' : Bytes}
    (hbyte : 0x20 < byte ∧ byte < 0x80 ∧ byte ≠ 0x5c) (ha : R a a') : R (byte :: a) (byte :: a') :=
  h.append (h.byte byte hbyte.1 hbyte.2.1 hbyte.2.2) ha

theorem Structural.bytes {text : Bytes}
    (htext : ∀ byte ∈ text, 0x20 < byte ∧ byte < 0x80 ∧ byte ≠ 0x5c) : R text text := by
  induction text with
  | nil => exact h.nil
  | cons byte text ih =>
    obtain ⟨hbyte, hrest⟩ := forall_mem_cons.mp htext
    exact h.cons hbyte (ih hrest)

theorem Structural.number {literal : Bytes} (hliteral : IsNumber literal) : R literal literal := by
  refine h.bytes fun byte hbyte => ?_
  have hnumeric := hliteral.numeric byte hbyte
  simp only [isNumeric, isDigit, decide_eq_true_eq] at hnumeric
  rcases hnumeric with ⟨hlow, hhigh⟩ | rfl | rfl | rfl | rfl | rfl
  · refine ⟨UInt8.lt_of_lt_of_le (by decide) hlow, UInt8.lt_of_le_of_lt hhigh (by decide), ?_⟩
    rintro rfl
    exact absurd hhigh (by decide)
  all_goals decide

theorem Structural.string {text : Bytes}
    (htext : R (quote text) (quote' text)) : R (printString quote text) (printString quote' text) :=
  h.cons (by decide) (h.append htext (h.byte 0x22 (by decide) (by decide) (by decide)))

/-- **Two ways to print a value are related as the two ways to write its strings.** -/
theorem print_related (v : Value)
    (hv : v.Printable fun text => R (quote text) (quote' text)) (d : ℕ) :
    R (print quote layout d v) (print quote' layout d v) := by
  let Related : Bytes → Prop := fun text => R (quote text) (quote' text)
  refine Value.depth.induct
    (fun v => v.Printable Related → ∀ d, R (print quote layout d v) (print quote' layout d v))
    (fun members => MembersPrintable Related members →
      ∀ d, R (printMembers quote layout d members).tail
        (printMembers quote' layout d members).tail ∧
        R (printMembers quote layout d members) (printMembers quote' layout d members))
    (fun items => ItemsPrintable Related items →
      ∀ d, R (printItems quote layout d items).tail (printItems quote' layout d items).tail ∧
        R (printItems quote layout d items) (printItems quote' layout d items))
    ?_ ?_ ?_ ?_ ?_ ?_ ?_ v hv d
  · intro items ih hv d
    rw [print, print]
    split_ifs
    · exact h.bytes (by decide +kernel)
    · exact h.cons (by decide) (h.append (ih hv _).1
        (h.append (h.line d) (h.byte 0x5d (by decide) (by decide) (by decide))))
  · intro members ih hv d
    rw [print, print]
    split_ifs
    · exact h.bytes (by decide +kernel)
    · exact h.cons (by decide) (h.append (ih hv _).1
        (h.append (h.line d) (h.byte 0x7d (by decide) (by decide) (by decide))))
  · intro v harray hobject hv d
    cases v with
    | null =>
      rw [print, print, ascii_words.1]
      exact h.bytes (by decide +kernel)
    | bool b =>
      cases b with
      | true =>
        rw [print, print, ascii_words.2.1]
        exact h.bytes (by decide +kernel)
      | false =>
        rw [print, print, ascii_words.2.2]
        exact h.bytes (by decide +kernel)
    | number literal =>
      rw [print, print]
      exact h.number hv
    | string text =>
      rw [print, print]
      exact h.string hv
    | array items => exact absurd rfl (harray items)
    | object members => exact absurd rfl (hobject members)
  · exact fun _ d => ⟨h.nil, h.nil⟩
  · intro item items hitem hitems hv d
    have htail := h.append (h.append (h.line d) (hitem hv.1 d)) (hitems hv.2 d).2
    rw [printItems, printItems]
    exact ⟨htail, h.cons (by decide) htail⟩
  · exact fun _ d => ⟨h.nil, h.nil⟩
  · intro name item members hitem hmembers hv d
    have hname : R (printString quote name) (printString quote' name) := h.string hv.1
    have hcolon : R (0x3a :: layout.colon) (0x3a :: layout.colon) := h.cons (by decide) h.colon
    have htail := h.append (h.append (h.append (h.append (h.line d) hname) hcolon)
      (hitem hv.2.1 d)) (hmembers hv.2.2 d).2
    rw [printMembers, printMembers]
    exact ⟨htail, h.cons (by decide) htail⟩

end

end Relation

/-! ### What is printed is UTF-8 -/

theorem isBlank_lt {byte : UInt8} (h : isBlank byte = true) : byte < 0x80 := by
  have hblank : byte = 0x20 ∨ byte = 0x09 ∨ byte = 0x0a ∨ byte = 0x0d := by
    simpa [isBlank] using h
  rcases hblank with rfl | rfl | rfl | rfl <;> decide

theorem structural_utf8Valid (layout : Layout) :
    Structural layout fun a _ => utf8Valid a = true where
  nil := rfl
  append ha hb := by rw [utf8Valid_append ha, hb]
  byte byte _ hascii _ := by
    rw [utf8Valid_cons hascii]
    rfl
  line depth := utf8Valid_of_ascii fun byte hbyte =>
    isBlank_lt (all_eq_true.mp (layout.line_blank depth) byte hbyte)
  colon := utf8Valid_of_ascii fun byte hbyte =>
    isBlank_lt (all_eq_true.mp layout.colon_blank byte hbyte)

/-- **What is printed is UTF-8.** -/
theorem utf8Valid_print {quote : Bytes → Bytes} {layout : Layout} (v : Value)
    (hv : v.Printable fun text => utf8Valid (quote text) = true) (d : ℕ) :
    utf8Valid (print quote layout d v) = true :=
  @print_related quote quote layout _ (structural_utf8Valid layout) v hv d

end Carcer.Json
