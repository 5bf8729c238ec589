import Carcer.Json.Text

/-!
# JSON texts of the store

The two functions by which `internal/store` treats the text of JSON: `validJSONStringSurrogates`
refuses escapes of lone surrogates, which the decoder would replace, and
`unescapeJSONLineSeparators` undoes the escapes of U+2028 and U+2029 that the encoder always writes.
Both run over the text and have to know whether a backslash begins an escape.

## Main definitions

* `validJSONStringSurrogates`, `unescapeJSONLineSeparators`

## Main results

* `validJSONStringSurrogates_print`: what is printed has no lone surrogates
* `unescapeJSONLineSeparators_print`: what the encoder prints becomes what is printed with the line
  separators kept
-/

namespace Carcer.Store

open Carcer.Wire Carcer.Json List

/-! ### The functions -/

/-- The loop of `validJSONStringSurrogates`, on the text from its index on. -/
def surrogatesFrom : ℕ → Bytes → Bool
  | fuel + 1, byte :: next :: rest =>
    if byte ≠ 0x5c then surrogatesFrom fuel (next :: rest)
    -- the byte behind a backslash is passed over, unless it may begin an escape of six bytes
    else if rest = [] ∨ next ≠ 0x75 then surrogatesFrom fuel rest
    else
      match hex4 rest with
      | none => false
      | some (first, rest) =>
        if 0xd800 ≤ first ∧ first ≤ 0xdbff then
          match rest with
          | 0x5c :: 0x75 :: rest =>
            match hex4 rest with
            | none => false
            | some (second, rest) =>
              if second < 0xdc00 ∨ second > 0xdfff then false else surrogatesFrom fuel rest
          | _ => false
        else if 0xdc00 ≤ first ∧ first ≤ 0xdfff then false
        else surrogatesFrom fuel rest
  -- fewer than two bytes are left
  | _, _ => true

/-- `validJSONStringSurrogates`: the loop begins behind the first byte. -/
def validJSONStringSurrogates (raw : Bytes) : Bool := surrogatesFrom raw.tail.length raw.tail

/-- The escape of a line separator at the beginning of a text, as the character it stands for. -/
def lineSeparator (text : Bytes) : Option Bytes :=
  if [0x5c, 0x75, 0x32, 0x30, 0x32, 0x38] <+: text then some [0xe2, 0x80, 0xa8]
  else if [0x5c, 0x75, 0x32, 0x30, 0x32, 0x39] <+: text then some [0xe2, 0x80, 0xa9]
  else none

/-- The number of backslashes directly before an index; the bytes before it have the last one
first. -/
def backslashes (before : Bytes) : ℕ := (before.takeWhile (· = 0x5c)).length

/-- The loop of `unescapeJSONLineSeparators` at an index: `before` are the bytes before it, the
last one first, and `skip` are the bytes of an escape that are still to be passed over. -/
def unescapeFrom (before : Bytes) (skip : ℕ) : Bytes → Bytes
  | [] => []
  | byte :: rest =>
    match skip with
    | skip + 1 => unescapeFrom (byte :: before) skip rest
    | 0 =>
      match lineSeparator (byte :: rest) with
      | some character =>
        -- the backslash is one of an odd number in a row
        if (backslashes before + 1) % 2 = 1 then
          character ++ unescapeFrom (byte :: before) 5 rest
        else byte :: unescapeFrom (byte :: before) 0 rest
      | none => byte :: unescapeFrom (byte :: before) 0 rest

def unescapeJSONLineSeparators (encoded : Bytes) : Bytes := unescapeFrom [] 0 encoded

/-! ### Escapes of surrogates -/

/-- The loop passes over a text. -/
def Passes (text : Bytes) : Prop :=
  ∀ rest, (∀ fuel, rest.length ≤ fuel → surrogatesFrom fuel rest = true) →
    ∀ fuel, (text ++ rest).length ≤ fuel → surrogatesFrom fuel (text ++ rest) = true

variable {text : Bytes} {byte : UInt8} {kind : UInt8} {unit : ℕ} {rest : Bytes}

theorem surrogatesFrom_short (h : text.length ≤ 1) (fuel : ℕ) :
    surrogatesFrom fuel text = true := by
  unfold surrogatesFrom
  split
  · simp at h
  · rfl

theorem passes_nil : Passes [] := fun _ h => h

theorem Passes.append {a b : Bytes} (ha : Passes a) (hb : Passes b) : Passes (a ++ b) := by
  intro rest hrest fuel hfuel
  rw [append_assoc] at hfuel ⊢
  exact ha (b ++ rest) (fun fuel' hfuel' => hb rest hrest fuel' hfuel') fuel hfuel

theorem passes_byte (h : byte ≠ 0x5c) : Passes [byte] := by
  intro rest hrest fuel hfuel
  cases rest with
  | nil => exact surrogatesFrom_short (by simp) fuel
  | cons next rest =>
    simp only [singleton_append, length_cons] at hfuel
    obtain _ | fuel := fuel
    · omega
    rw [singleton_append, surrogatesFrom, if_pos h]
    exact hrest fuel (by simpa using hfuel)

theorem passes_bytes (h : ∀ byte ∈ text, byte ≠ 0x5c) : Passes text := by
  induction text with
  | nil => exact passes_nil
  | cons byte text ih =>
    obtain ⟨hbyte, htext⟩ := forall_mem_cons.mp h
    exact (passes_byte hbyte).append (ih htext)

theorem passes_short (h : kind ≠ 0x75) : Passes [0x5c, kind] := by
  intro rest hrest fuel hfuel
  simp only [cons_append, nil_append, length_cons] at hfuel ⊢
  obtain _ | fuel := fuel
  · omega
  rw [surrogatesFrom, if_neg (by decide), if_pos (.inr h)]
  exact hrest fuel (by omega)

theorem passes_unicode (hlt : unit < 0x10000) (h : isSurrogate unit = false) :
    Passes (unicodeText unit) := by
  intro rest hrest fuel hfuel
  have hhex := hex4_unicodeText hlt rest
  have hrange := isSurrogate_eq_false.mp h
  simp only [unicodeText, cons_append, nil_append, length_cons] at hfuel ⊢
  obtain _ | fuel := fuel
  · omega
  rw [surrogatesFrom, if_neg (by decide), if_neg (by simp)]
  rw [hhex]
  simp only
  rw [if_neg (by omega), if_neg (by omega)]
  exact hrest fuel (by omega)

theorem Shape.passes {bytes written : Bytes} (h : Shape bytes written) : Passes written := by
  cases h with
  | plain h => exact passes_bytes fun byte hbyte => (h byte hbyte).2.2
  | short kind h => exact passes_short h.1
  | unicode unit h => exact passes_unicode h.1 h.2

theorem passes_flatMap {write : Bytes → Bytes} {parts : List Bytes}
    (h : ∀ part ∈ parts, Shape part (write part)) : Passes (parts.flatMap write) := by
  induction parts with
  | nil => exact passes_nil
  | cons part parts ih =>
    obtain ⟨hpart, hparts⟩ := forall_mem_cons.mp h
    rw [flatMap_cons]
    exact (Shape.passes hpart).append (ih hparts)

theorem isBlank_ne (h : isBlank byte = true) : byte ≠ 0x5c := by
  rintro rfl
  revert h
  decide

theorem structural_passes (layout : Layout) : Structural layout fun a _ => Passes a where
  nil := passes_nil
  append := Passes.append
  byte _ _ _ h := passes_byte h
  line depth := passes_bytes fun byte hbyte =>
    isBlank_ne (all_eq_true.mp (layout.line_blank depth) byte hbyte)
  colon := passes_bytes fun byte hbyte =>
    isBlank_ne (all_eq_true.mp layout.colon_blank byte hbyte)

/-- **What is printed has no lone surrogates.** -/
theorem validJSONStringSurrogates_print {quote : Bytes → Bytes} {layout : Layout} {v : Value}
    (hv : v.Printable fun text => Passes (quote text)) (hread : v.Printable (Quotes quote))
    (d : ℕ) {rest : Bytes} (hrest : Passes rest) :
    validJSONStringSurrogates (print quote layout d v ++ rest) = true := by
  have hpasses : Passes (print quote layout d v ++ rest) :=
    (@print_related quote quote layout _ (structural_passes layout) v hv d).append hrest
  have hall := hpasses [] (fun fuel _ => surrogatesFrom_short (by simp) fuel) _ le_rfl
  rw [append_nil] at hall
  obtain ⟨byte, text, hprint, -, -, -, hbyte⟩ := print_head layout hread d
  rw [validJSONStringSurrogates]
  rw [hprint, cons_append] at hall ⊢
  cases htext : text ++ rest with
  | nil => exact surrogatesFrom_short (by simp) _
  | cons next behind =>
    rw [htext, length_cons, surrogatesFrom, if_pos hbyte] at hall
    exact hall

theorem passes_escape (html : Bool) (h : utf8Valid text = true) :
    Passes (escape html text) :=
  passes_flatMap fun part hpart => shape_escapeSequence html (isSequence_of_mem h part hpart)

theorem passes_escapeKept (h : utf8Valid text = true) : Passes (escapeKept text) :=
  passes_flatMap fun part hpart => shape_keepSequence (isSequence_of_mem h part hpart)

/-! ### Escapes of line separators -/

/-- From between two characters, the loop makes one text of another and ends between two
characters. -/
def Unescapes (written kept : Bytes) : Prop :=
  ∀ before rest, backslashes before % 2 = 0 →
    unescapeFrom before 0 (written ++ rest) =
      kept ++ unescapeFrom (written.reverse ++ before) 0 rest ∧
    backslashes (written.reverse ++ before) % 2 = 0

theorem backslashes_cons (h : byte ≠ 0x5c) (before : Bytes) : backslashes (byte :: before) = 0 := by
  simp [backslashes, h]

theorem backslashes_backslash (before : Bytes) :
    backslashes (0x5c :: before) = backslashes before + 1 := by
  simp [backslashes]

theorem lineSeparator_of_ne (h : byte ≠ 0x5c) (rest : Bytes) :
    lineSeparator (byte :: rest) = none := by
  simp [lineSeparator, h.symm]

theorem lineSeparator_short (h : kind ≠ 0x75) (rest : Bytes) :
    lineSeparator (0x5c :: kind :: rest) = none := by
  simp [lineSeparator, h.symm]

theorem unescapeFrom_byte (before rest : Bytes) (h : lineSeparator (byte :: rest) = none) :
    unescapeFrom before 0 (byte :: rest) = byte :: unescapeFrom (byte :: before) 0 rest := by
  rw [unescapeFrom, h]

theorem unescapes_nil : Unescapes [] [] := fun _ _ h => ⟨rfl, h⟩

theorem Unescapes.append {a a' b b' : Bytes} (ha : Unescapes a a') (hb : Unescapes b b') :
    Unescapes (a ++ b) (a' ++ b') := by
  intro before rest hbefore
  obtain ⟨hfirst, heven⟩ := ha before (b ++ rest) hbefore
  obtain ⟨hsecond, heven'⟩ := hb (a.reverse ++ before) rest heven
  rw [append_assoc, hfirst, hsecond, reverse_append, append_assoc, append_assoc]
  rw [← append_assoc] at heven'
  exact ⟨rfl, by simpa using heven'⟩

/-- Where there are no backslashes, the loop copies. -/
theorem unescapeFrom_bytes (h : ∀ byte ∈ text, byte ≠ 0x5c) (before rest : Bytes) :
    unescapeFrom before 0 (text ++ rest) =
      text ++ unescapeFrom (text.reverse ++ before) 0 rest := by
  induction text generalizing before with
  | nil => rfl
  | cons byte text ih =>
    obtain ⟨hbyte, htext⟩ := forall_mem_cons.mp h
    rw [cons_append, unescapeFrom_byte before _ (lineSeparator_of_ne hbyte _), ih htext,
      reverse_cons, append_assoc]
    rfl

theorem backslashes_reverse (h : ∀ byte ∈ text, byte ≠ 0x5c) (hne : text ≠ [])
    (before : Bytes) : backslashes (text.reverse ++ before) = 0 := by
  obtain ⟨front, last, rfl⟩ := (List.eq_nil_or_concat' text).resolve_left hne
  rw [reverse_concat, cons_append, backslashes_cons (h last (by simp))]

theorem unescapes_bytes (h : ∀ byte ∈ text, byte ≠ 0x5c) : Unescapes text text := by
  intro before rest hbefore
  refine ⟨unescapeFrom_bytes h before rest, ?_⟩
  by_cases hne : text = []
  · subst hne
    exact hbefore
  · rw [backslashes_reverse h hne]

/-- The second byte of an escape is preceded by an odd number of backslashes. -/
theorem unescapes_short (h : kind ≠ 0x75) : Unescapes [0x5c, kind] [0x5c, kind] := by
  intro before rest hbefore
  have hodd : ¬(backslashes (0x5c :: before) + 1) % 2 = 1 := by
    rw [backslashes_backslash]
    omega
  have hsecond : unescapeFrom (0x5c :: before) 0 (kind :: rest) =
      kind :: unescapeFrom (kind :: 0x5c :: before) 0 rest := by
    rw [unescapeFrom]
    split
    · exact if_neg hodd
    · rfl
  constructor
  · rw [cons_append, singleton_append,
      unescapeFrom_byte before _ (lineSeparator_short h rest), hsecond]
    rfl
  · by_cases hkind : kind = 0x5c
    · subst hkind
      show backslashes (0x5c :: 0x5c :: before) % 2 = 0
      rw [backslashes_backslash, backslashes_backslash]
      omega
    · show backslashes (kind :: 0x5c :: before) % 2 = 0
      rw [backslashes_cons hkind]

/-- An escape that begins with the digits of a number is the escape of that number. -/
theorem unit_of_leading {unit n : ℕ} (hlt : unit < 0x10000) {a b c d : UInt8}
    (hn : hex4 (a :: b :: c :: d :: rest) = some (n, rest))
    (h : [0x5c, 0x75, a, b, c, d] <+: unicodeText unit ++ rest) : unit = n := by
  have hhex := hex4_unicodeText hlt rest
  obtain ⟨behind, heq⟩ := h
  simp only [unicodeText, cons_append, nil_append, List.cons.injEq, true_and] at heq
  obtain ⟨rfl, rfl, rfl, rfl, -⟩ := heq
  rw [hhex] at hn
  exact (Prod.mk.inj (Option.some.inj hn)).1

theorem lineSeparator_unicodeText (hlt : unit < 0x10000) (h : unit ≠ 0x2028)
    (h' : unit ≠ 0x2029) (rest : Bytes) : lineSeparator (unicodeText unit ++ rest) = none := by
  rw [lineSeparator, if_neg fun heq => h (unit_of_leading hlt rfl heq),
    if_neg fun heq => h' (unit_of_leading hlt rfl heq)]

theorem hexDigit_ne {n : ℕ} (h : n < 16) : hexDigit n ≠ 0x5c := by
  revert n
  decide

theorem unicodeText_tail_ne (unit : ℕ) : ∀ byte ∈ (unicodeText unit).tail, byte ≠ 0x5c := by
  have hdigit : ∀ n, hexDigit (n % 16) ≠ 0x5c := fun n => hexDigit_ne (Nat.mod_lt n (by decide))
  simp only [unicodeText, tail_cons, forall_mem_cons, not_mem_nil, false_implies,
    implies_true, and_true]
  exact ⟨by decide, hdigit _, hdigit _, hdigit _, hdigit _⟩

theorem unicodeText_eq (unit : ℕ) : unicodeText unit = 0x5c :: (unicodeText unit).tail := rfl

theorem backslashes_unicodeText (unit : ℕ) (before : Bytes) :
    backslashes ((unicodeText unit).reverse ++ before) = 0 := by
  rw [unicodeText_eq, reverse_cons, append_assoc]
  exact backslashes_reverse (unicodeText_tail_ne unit) (by simp [unicodeText]) _

theorem unescapes_unicode (hlt : unit < 0x10000) (h : unit ≠ 0x2028)
    (h' : unit ≠ 0x2029) : Unescapes (unicodeText unit) (unicodeText unit) := by
  intro before rest _
  refine ⟨?_, by rw [backslashes_unicodeText]⟩
  have hnone := lineSeparator_unicodeText hlt h h' rest
  rw [unicodeText_eq, cons_append] at hnone ⊢
  rw [unescapeFrom_byte before _ hnone, unescapeFrom_bytes (unicodeText_tail_ne unit),
    reverse_cons, append_assoc]
  rfl

theorem unescapes_separator (h : unit = 0x2028 ∨ unit = 0x2029) :
    Unescapes (unicodeText unit) (encodeRune unit) := by
  intro before rest hbefore
  refine ⟨?_, by rw [backslashes_unicodeText]⟩
  have hodd : (backslashes before + 1) % 2 = 1 := by omega
  have hseparator : lineSeparator (unicodeText unit ++ rest) = some (encodeRune unit) := by
    rcases h with rfl | rfl <;> rfl
  rw [unicodeText_eq, cons_append] at hseparator ⊢
  rw [unescapeFrom, hseparator]
  simp only
  rw [if_pos hodd]
  rfl

/-- **What the encoder writes for a character becomes what is written with the line separators
kept.** -/
theorem unescapes_sequence {bytes : Bytes} (h : IsSequence bytes) :
    Unescapes (escapeSequence false bytes) (keepSequence bytes) := by
  unfold escapeSequence keepSequence
  split
  · rename_i byte
    have hascii := h.lt_of_singleton
    rw [if_pos hascii]
    have hshape := shape_escapeByte false hascii
    generalize escapeByte false byte = written at hshape ⊢
    cases hshape with
    | plain hplain => exact unescapes_bytes fun b hb => (hplain b hb).2.2
    | short kind hkind => exact unescapes_short hkind.1
    | unicode unit hunit hbytes =>
      refine unescapes_unicode hunit.1 ?_ ?_
      iterate 2
        rintro rfl
        cases hbytes
  · rename_i hlong
    split_ifs with hseparator
    · have hrune := encodeRune_rune h
      nth_rewrite 2 [← hrune]
      exact unescapes_separator hseparator
    refine unescapes_bytes fun byte hbyte => ?_
    have hhigh := h.high_of_long (fun b hb => hlong b hb) byte hbyte
    rintro rfl
    exact absurd hhigh (by decide)

theorem unescapes_escape (h : utf8Valid text = true) :
    Unescapes (escape false text) (escapeKept text) := by
  have hparts := isSequence_of_mem h
  rw [escape, escapeKept]
  generalize sequences text = parts at hparts
  induction parts with
  | nil => exact unescapes_nil
  | cons part parts ih =>
    obtain ⟨hpart, hrest⟩ := forall_mem_cons.mp hparts
    rw [flatMap_cons, flatMap_cons]
    exact (unescapes_sequence hpart).append (ih hrest)

theorem structural_unescapes (layout : Layout) : Structural layout Unescapes where
  nil := unescapes_nil
  append := Unescapes.append
  byte _ _ _ h := unescapes_bytes (forall_mem_singleton.mpr h)
  line depth := unescapes_bytes fun byte hbyte =>
    isBlank_ne (all_eq_true.mp (layout.line_blank depth) byte hbyte)
  colon := unescapes_bytes fun byte hbyte =>
    isBlank_ne (all_eq_true.mp layout.colon_blank byte hbyte)

/-- **What the encoder prints becomes what is printed with the line separators kept.** -/
theorem unescapeJSONLineSeparators_print {layout : Layout} {v : Value}
    (hv : v.Printable fun text => utf8Valid text = true) (d : ℕ)
    (hrest : ∀ byte ∈ rest, byte ≠ 0x5c) :
    unescapeJSONLineSeparators (print (escape false) layout d v ++ rest) =
      print escapeKept layout d v ++ rest := by
  have hrelated := print_related (structural_unescapes layout) v
    (hv.mono fun text htext => unescapes_escape htext) d
  have hall := (hrelated.append (unescapes_bytes hrest)) [] [] rfl
  rw [append_nil] at hall
  rw [unescapeJSONLineSeparators, hall.1]
  exact append_nil _

end Carcer.Store
