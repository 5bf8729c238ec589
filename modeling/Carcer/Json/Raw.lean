import Carcer.Json.Decode

/-!
# Members as they were written

`encoding/json` stores the value of a member in a `json.RawMessage` as the text it was written as,
without the white space around it.

## Main definitions

* `rawObject`, `rawMap`: the members of an object, each with its text

## Main results

* `rawObject_print`, `rawMap_print`: the members of a printed object are the texts that its values
  print as
-/

namespace Carcer.Json

open Carcer.Wire List

/-- The members of an object up to its end, each with the text of its value. -/
def rawPairs : ℕ → ℕ → Bytes → Option (List (Bytes × Bytes) × Bytes)
  | 0, _, _ => none
  | fuel + 1, depth, text => do
    let (name, rest) ← quoted (skipBlank text)
    match skipBlank rest with
    | 0x3a :: rest =>
      let start := skipBlank rest
      let (_, rest) ← value fuel depth start
      let raw := start.take (start.length - rest.length)
      match skipBlank rest with
      | 0x2c :: rest =>
        let (members, rest) ← rawPairs fuel depth rest
        return ((name, raw) :: members, rest)
      | 0x7d :: rest => return ([(name, raw)], rest)
      | _ => none
    | _ => none

/-- The first value of a text is stored in a map from names to texts; `null` stores nothing. -/
def rawObject (text : Bytes) : Option (List (Bytes × Bytes) × Bytes) :=
  match skipBlank text with
  | 0x7b :: rest =>
    match skipBlank rest with
    | 0x7d :: rest => some ([], rest)
    | rest => rawPairs (2 * text.length) (maxNestingDepth - 1) rest
  | _ =>
    match first text with
    | some (.null, rest) => some ([], rest)
    | _ => none

/-- `json.Unmarshal` of a whole text into such a map. -/
def rawMap (text : Bytes) : Option (List (Bytes × Bytes)) := do
  let (members, rest) ← rawObject text
  if skipBlank rest = [] then some members else none

section Print

variable {quote : Bytes → Bytes} {layout : Layout} {v : Value} {members : List (Bytes × Value)}
  {name : Bytes}

variable (layout) in
/-- A value is read back, and what is left shows where it ended. -/
theorem value_raw {v : Value} (hv : v.Printable (Quotes quote)) (d : ℕ) {fuel depth : ℕ}
    (hfuel : 2 * (print quote layout d v).length ≤ fuel) (hdepth : v.depth ≤ depth)
    {blank rest : Bytes} (hblank : blank.all isBlank = true) (hrest : Stops rest) :
    skipBlank (blank ++ (print quote layout d v ++ rest)) = print quote layout d v ++ rest ∧
      value fuel depth (print quote layout d v ++ rest) = some (v, rest) := by
  constructor
  · obtain ⟨byte, text, hprint, hbyte, -⟩ := print_head layout hv d
    rw [skipBlank_append hblank, hprint, cons_append, skipBlank_cons hbyte]
  · exact @reads_back quote layout v hv d fuel depth hfuel hdepth [] rest rfl hrest

theorem take_behind (text rest : Bytes) :
    (text ++ rest).take ((text ++ rest).length - rest.length) = text := by
  rw [length_append, Nat.add_sub_cancel]
  exact List.take_left' rfl

theorem rawPairs_print {item} (hmembers : MembersPrintable (Quotes quote) ((name, item) :: members))
    {d fuel depth : ℕ} (hfuel : 2 * (printString quote name ++ print quote layout d item ++
      printMembers quote layout d members).length < fuel)
    (hdepth : membersDepth ((name, item) :: members) ≤ depth) {blank line : Bytes}
    (hblank : blank.all isBlank = true) (hline : line.all isBlank = true) (rest : Bytes) :
    rawPairs fuel depth (blank ++ (printString quote name ++ 0x3a :: (layout.colon ++
        (print quote layout d item ++
          (printMembers quote layout d members ++ (line ++ 0x7d :: rest)))))) =
      some (((name, item) :: members).map fun member =>
        (member.1, print quote layout d member.2), rest) := by
  have hcolon : isBlank 0x3a = false := by decide
  induction members generalizing name item fuel blank with
  | nil =>
    obtain _ | fuel := fuel
    · omega
    simp only [printMembers, append_nil, length_append] at hfuel
    have hstops : Stops (line ++ 0x7d :: rest) := stops_blank hline (stops_cons (by decide))
    obtain ⟨hstart, hvalue⟩ := @value_raw quote layout item hmembers.2.1 d fuel depth (by omega)
      (le_trans (le_max_left _ _) hdepth) _ _ layout.colon_blank hstops
    rw [rawPairs, skipBlank_append hblank, skipBlank_printString, quoted_printString hmembers.1]
    simp only [printMembers, nil_append, Option.bind_eq_bind, Option.bind_some,
      skipBlank_cons hcolon, hstart, hvalue, skipBlank_append hline, take_behind,
      skipBlank_cons (show isBlank 0x7d = false by decide)]
    rfl
  | cons next members ih =>
    obtain ⟨nextName, next⟩ := next
    obtain _ | fuel := fuel
    · omega
    simp only [printMembers, length_append, length_cons] at hfuel
    have hless : 2 * (printString quote nextName ++ print quote layout d next ++
        printMembers quote layout d members).length < fuel := by
      simp only [length_append]
      omega
    have hrest := ih hmembers.2.2 hless (le_trans (le_max_right _ _) hdepth) (layout.line_blank d)
    have hcomma := stops_comma (layout.line d ++ (printString quote nextName ++ 0x3a ::
      (layout.colon ++ (print quote layout d next ++
        (printMembers quote layout d members ++ (line ++ 0x7d :: rest))))))
    obtain ⟨hstart, hvalue⟩ := @value_raw quote layout item hmembers.2.1 d fuel depth (by omega)
      (le_trans (le_max_left _ _) hdepth) _ _ layout.colon_blank hcomma
    rw [rawPairs, skipBlank_append hblank, skipBlank_printString, quoted_printString hmembers.1]
    simp only [printMembers, cons_append, append_assoc, Option.bind_eq_bind,
      Option.bind_some, skipBlank_cons hcolon, hstart, hvalue, take_behind,
      skipBlank_cons (show isBlank 0x2c = false by decide), hrest]
    rfl

/-- **The members of a printed object are the texts that its values print as.** -/
theorem rawObject_print {members} (hv : (Value.object members).Printable (Quotes quote))
    (hdepth : (Value.object members).depth ≤ maxNestingDepth) (d : ℕ) (rest : Bytes) :
    rawObject (print quote layout d (.object members) ++ rest) =
      some (members.map fun member => (member.1, print quote layout (d + 1) member.2), rest) := by
  have hopen : isBlank 0x7b = false := by decide
  have hclose : isBlank 0x7d = false := by decide
  rcases members with _ | ⟨member, members⟩
  · simp only [print, isEmpty_nil, if_true, cons_append, nil_append]
    rw [rawObject, skipBlank_cons hopen]
    simp only [skipBlank_cons hclose, map_nil]
  obtain ⟨name, item⟩ := member
  have hless : 2 * (printString quote name ++ print quote layout (d + 1) item ++
      printMembers quote layout (d + 1) members).length <
        2 * (print quote layout d (.object ((name, item) :: members)) ++ rest).length := by
    rw [print_object_cons]
    simp only [length_append, length_cons]
    omega
  have hpairs := rawPairs_print hv hless
    (Nat.le_of_add_le_add_right hdepth) (show ([] : Bytes).all isBlank = true from rfl)
    (layout.line_blank d) rest
  rw [print_object_cons] at hpairs ⊢
  rw [rawObject, skipBlank_cons hopen]
  simp only
  rw [skipBlank_append (layout.line_blank (d + 1)), skipBlank_printString]
  rw [nil_append] at hpairs
  split
  · rename_i heq
    rw [printString, cons_append] at heq
    exact absurd (List.cons.inj heq).1 (by decide)
  · exact hpairs

theorem rawMap_print (hv : (Value.object members).Printable (Quotes quote))
    (hdepth : (Value.object members).depth ≤ maxNestingDepth) (d : ℕ) {blank : Bytes}
    (hblank : blank.all isBlank = true) :
    rawMap (print quote layout d (.object members) ++ blank) =
      some (members.map fun member => (member.1, print quote layout (d + 1) member.2)) := by
  have hskip : skipBlank blank = [] := by
    simpa [skipBlank] using skipBlank_append hblank []
  rw [rawMap, rawObject_print hv hdepth]
  simp [hskip]

theorem length_printMembers_of_mem (quote : Bytes → Bytes) (layout : Layout)
    (h : (name, v) ∈ members) (d : ℕ) :
    (print quote layout d v).length ≤ (printMembers quote layout d members).length := by
  induction members with
  | nil => cases h
  | cons head members ih =>
    rcases mem_cons.mp h with rfl | h
    · simp only [printMembers, length_append, length_cons]
      omega
    have hrest := ih h
    simp only [printMembers, length_append, length_cons]
    omega

/-- The text of a member is no longer than that of the object. -/
theorem length_print_of_mem (quote : Bytes → Bytes) (layout : Layout) (h : (name, v) ∈ members)
    (d : ℕ) :
    (print quote layout (d + 1) v).length ≤
      (print quote layout d (.object members)).length := by
  cases members with
  | nil => cases h
  | cons head members =>
    have hmembers := length_printMembers_of_mem quote layout h (d + 1)
    rw [print, if_neg (by simp)]
    simp only [length_append, length_cons, length_tail]
    omega

end Print

/-! ### The depth of a text -/

section Depth

variable (quote : Bytes → Bytes) {layout : Layout}
  (h : ∀ d, (layout.line d).length ≤ (layout.line (d + 1)).length)
include h

mutual

/-- A value that stands deeper is no shorter, when the lines there begin no earlier. -/
theorem length_print_succ (d : ℕ) : ∀ v : Value,
    (print quote layout d v).length ≤ (print quote layout (d + 1) v).length
  | .null => le_rfl
  | .bool true => le_rfl
  | .bool false => le_rfl
  | .number _ => le_rfl
  | .string _ => le_rfl
  | .array items => by
    have hitems := length_printItems_succ (d + 1) items
    have hline := h d
    rw [print, print]
    split
    · exact le_rfl
    · simp only [length_append, length_cons, length_tail]
      omega
  | .object members => by
    have hmembers := length_printMembers_succ (d + 1) members
    have hline := h d
    rw [print, print]
    split
    · exact le_rfl
    · simp only [length_append, length_cons, length_tail]
      omega

theorem length_printItems_succ (d : ℕ) : ∀ items : List Value,
    (printItems quote layout d items).length ≤ (printItems quote layout (d + 1) items).length
  | [] => le_rfl
  | item :: items => by
    have hitem := length_print_succ d item
    have hitems := length_printItems_succ d items
    have hline := h d
    simp only [printItems, length_append, length_cons]
    omega

theorem length_printMembers_succ (d : ℕ) : ∀ members : List (Bytes × Value),
    (printMembers quote layout d members).length ≤
      (printMembers quote layout (d + 1) members).length
  | [] => le_rfl
  | (_, item) :: members => by
    have hitem := length_print_succ d item
    have hmembers := length_printMembers_succ d members
    have hline := h d
    simp only [printMembers, length_append, length_cons]
    omega

end

end Depth

end Carcer.Json
