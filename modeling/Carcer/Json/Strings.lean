import Carcer.Wire.Runes

/-!
# JSON strings

The strings of RFC 8259 as `encoding/json` reads and writes them. They are byte strings: a reader
replaces what is no UTF-8, and a lone surrogate, by U+FFFD; a writer escapes the quote, the
backslash, the control characters and the line separators.

## Main definitions

* `stringBody`: a string is read
* `escape`, `escapeKept`: what a string is written as

## Main results

* `stringBody_written`: a string is read back from what it is written as
* `shape_escapeSequence`, `shape_keepSequence`: what can stand in a written string
-/

namespace Carcer.Json

open Carcer.Wire List

/-! ### Reading -/

/-- The byte that a two-byte escape stands for. -/
def unescape : UInt8 → Option UInt8
  | 0x22 => some 0x22
  | 0x5c => some 0x5c
  | 0x2f => some 0x2f
  | 0x62 => some 0x08
  | 0x66 => some 0x0c
  | 0x6e => some 0x0a
  | 0x72 => some 0x0d
  | 0x74 => some 0x09
  | _ => none

/-- The value of a hexadecimal digit. -/
def hexValue (byte : UInt8) : Option ℕ :=
  if 0x30 ≤ byte ∧ byte ≤ 0x39 then some (byte.toNat - 0x30)
  else if 0x61 ≤ byte ∧ byte ≤ 0x66 then some (byte.toNat - 0x61 + 10)
  else if 0x41 ≤ byte ∧ byte ≤ 0x46 then some (byte.toNat - 0x41 + 10)
  else none

/-- Four hexadecimal digits, and what stands behind them. -/
def hex4 : Bytes → Option (ℕ × Bytes)
  | a :: b :: c :: d :: rest => do
    let a ← hexValue a
    let b ← hexValue b
    let c ← hexValue c
    let d ← hexValue d
    return (((a * 16 + b) * 16 + c) * 16 + d, rest)
  | _ => none

/-- The code point of a `\u` escape, which takes a second one to complete a surrogate pair. -/
def unicodeEscape (unit : ℕ) (rest : Bytes) : ℕ × Bytes :=
  if isSurrogate unit then
    match rest with
    | 0x5c :: 0x75 :: second =>
      match hex4 second with
      | some (low, behind) =>
        if unit < 0xdc00 ∧ 0xdc00 ≤ low ∧ low ≤ 0xdfff then
          (0x10000 + (unit - 0xd800) * 1024 + (low - 0xdc00), behind)
        else (0xfffd, rest)
      | none => (0xfffd, rest)
    | _ => (0xfffd, rest)
  else (unit, rest)

/-- A string behind its opening quote, and what stands behind its closing quote. -/
def stringBody : ℕ → Bytes → Option (Bytes × Bytes)
  | 0, _ => none
  | _ + 1, [] => none
  | fuel + 1, byte :: rest =>
    if byte = 0x22 then some ([], rest)
    else if byte = 0x5c then
      match rest with
      | [] => none
      | kind :: rest =>
        if kind = 0x75 then do
          let (unit, rest) ← hex4 rest
          let (r, rest) := unicodeEscape unit rest
          let (text, rest) ← stringBody fuel rest
          return (encodeRune r ++ text, rest)
        else do
          let unescaped ← unescape kind
          let (text, rest) ← stringBody fuel rest
          return (unescaped :: text, rest)
    else if byte < 0x20 then none
    else
      match utf8Width (byte :: rest) with
      | none => do
        let (text, rest) ← stringBody fuel rest
        return (encodeRune 0xfffd ++ text, rest)
      | some width => do
        let (text, rest') ← stringBody fuel ((byte :: rest).drop width)
        return ((byte :: rest).take width ++ text, rest')

/-! ### Writing -/

/-- A lower-case hexadecimal digit. -/
def hexDigit (n : ℕ) : UInt8 := UInt8.ofNat (if n < 10 then 0x30 + n else 0x57 + n)

/-- A `\u` escape. -/
def unicodeText (unit : ℕ) : Bytes :=
  [0x5c, 0x75, hexDigit (unit / 4096 % 16), hexDigit (unit / 256 % 16), hexDigit (unit / 16 % 16),
    hexDigit (unit % 16)]

/-- What an ASCII character is written as; `html` is the option to escape what HTML reserves. -/
def escapeByte (html : Bool) (byte : UInt8) : Bytes :=
  if byte = 0x22 ∨ byte = 0x5c then [0x5c, byte]
  else if byte = 0x08 then [0x5c, 0x62]
  else if byte = 0x0c then [0x5c, 0x66]
  else if byte = 0x0a then [0x5c, 0x6e]
  else if byte = 0x0d then [0x5c, 0x72]
  else if byte = 0x09 then [0x5c, 0x74]
  else if byte < 0x20 ∨ html ∧ (byte = 0x3c ∨ byte = 0x3e ∨ byte = 0x26) then
    unicodeText byte.toNat
  else [byte]

/-- What a sequence is written as: the line separators are escaped, and so is a byte that starts
no sequence. -/
def escapeSequence (html : Bool) : Bytes → Bytes
  | [byte] => if byte < 0x80 then escapeByte html byte else unicodeText 0xfffd
  | bytes => if rune bytes = 0x2028 ∨ rune bytes = 0x2029 then unicodeText (rune bytes) else bytes

/-- What a string is written as, between the quotes. -/
def escape (html : Bool) (text : Bytes) : Bytes := (sequences text).flatMap (escapeSequence html)

/-- What a sequence is written as where the line separators and what HTML reserves are kept. -/
def keepSequence : Bytes → Bytes
  | [byte] => if byte < 0x80 then escapeByte false byte else unicodeText 0xfffd
  | bytes => bytes

/-- What a string is written as where the line separators and what HTML reserves are kept. -/
def escapeKept (text : Bytes) : Bytes := (sequences text).flatMap keepSequence

/-! ### Reading what was written -/

theorem stringBody_backslash_u (fuel : ℕ) (rest : Bytes) :
    stringBody (fuel + 1) (0x5c :: 0x75 :: rest) = (hex4 rest).bind fun unit =>
      (stringBody fuel (unicodeEscape unit.1 unit.2).2).map fun body =>
        (encodeRune (unicodeEscape unit.1 unit.2).1 ++ body.1, body.2) := by
  have hquote : (0x5c : UInt8) ≠ 0x22 := by decide
  rw [stringBody, if_neg hquote, if_pos rfl]
  simp only [if_true]
  cases hex4 rest with
  | none => rfl
  | some unit => cases hbody : stringBody fuel (unicodeEscape unit.1 unit.2).2 <;> simp [hbody]

theorem stringBody_backslash (fuel : ℕ) {kind byte : UInt8} (hkind : kind ≠ 0x75)
    (hunescape : unescape kind = some byte) (rest : Bytes) :
    stringBody (fuel + 1) (0x5c :: kind :: rest) =
      (stringBody fuel rest).map fun body => (byte :: body.1, body.2) := by
  have hquote : (0x5c : UInt8) ≠ 0x22 := by decide
  rw [stringBody, if_neg hquote, if_pos rfl]
  simp only [if_neg hkind, hunescape]
  cases stringBody fuel rest <;> rfl

variable {bytes : Bytes} {byte : UInt8} {write : Bytes → Bytes} {text : Bytes}

/-- A sequence that neither ends nor escapes is read as it is. -/
theorem stringBody_sequence (fuel : ℕ) (hquote : byte ≠ 0x22) (hbackslash : byte ≠ 0x5c)
    (hcontrol : ¬byte < 0x20) (h : IsSequence (byte :: bytes)) (rest : Bytes) :
    stringBody (fuel + 1) (byte :: bytes ++ rest) =
      (stringBody fuel rest).map fun body => (byte :: bytes ++ body.1, body.2) := by
  have hwidth := h.utf8Width_append rest
  rw [cons_append] at hwidth ⊢
  rw [stringBody.eq_def]
  simp only [if_neg hquote, if_neg hbackslash, if_neg hcontrol, hwidth]
  rw [← cons_append, drop_left, take_left]
  cases stringBody fuel rest <;> rfl

theorem hexValue_hexDigit {n : ℕ} (h : n < 16) : hexValue (hexDigit n) = some n := by
  revert n
  decide

theorem hex4_unicodeText {unit : ℕ} (h : unit < 0x10000) (rest : Bytes) :
    hex4 (hexDigit (unit / 4096 % 16) :: hexDigit (unit / 256 % 16) :: hexDigit (unit / 16 % 16) ::
      hexDigit (unit % 16) :: rest) = some (unit, rest) := by
  have hdigit : ∀ n, hexValue (hexDigit (n % 16)) = some (n % 16) := fun n =>
    hexValue_hexDigit (Nat.mod_lt n (by decide))
  simp only [hex4, hdigit, Option.bind_eq_bind, Option.bind_some, Option.pure_def,
    Option.some.injEq, Prod.mk.injEq, and_true]
  omega

theorem stringBody_unit {unit : ℕ} (h : unit < 0x10000) (fuel : ℕ) (rest : Bytes) :
    stringBody (fuel + 1) (unicodeText unit ++ rest) =
      (stringBody fuel (unicodeEscape unit rest).2).map fun body =>
        (encodeRune (unicodeEscape unit rest).1 ++ body.1, body.2) := by
  simp only [unicodeText, cons_append, nil_append]
  rw [stringBody_backslash_u, hex4_unicodeText h, Option.bind_some]

/-- A `\u` escape of a code point below the surrogate pairs is read as the code point. -/
theorem stringBody_unicodeText {unit : ℕ} (h : unit < 0x10000) (hunit : isSurrogate unit = false)
    (fuel : ℕ) (rest : Bytes) :
    stringBody (fuel + 1) (unicodeText unit ++ rest) =
      (stringBody fuel rest).map fun body => (encodeRune unit ++ body.1, body.2) := by
  have hescape : unicodeEscape unit rest = (unit, rest) := by simp [unicodeEscape, hunit]
  rw [stringBody_unit h, hescape]

/-- An escape of an ASCII character is read as the character. -/
theorem stringBody_escapeByte (html : Bool) (h : byte < 0x80) (fuel : ℕ) (rest : Bytes) :
    stringBody (fuel + 1) (escapeByte html byte ++ rest) =
      (stringBody fuel rest).map fun body => (byte :: body.1, body.2) := by
  have hlt : byte.toNat < 0x80 := by simpa [UInt8.lt_iff_toNat_lt] using h
  have hrune : encodeRune byte.toNat = [byte] := by simp [encodeRune, hlt]
  unfold escapeByte
  split_ifs with hquote hb hf hn hr ht hunicode
  · rcases hquote with rfl | rfl
    all_goals exact stringBody_backslash fuel (by decide) rfl rest
  · exact stringBody_backslash fuel (by decide) (by rw [hb]; rfl) rest
  · exact stringBody_backslash fuel (by decide) (by rw [hf]; rfl) rest
  · exact stringBody_backslash fuel (by decide) (by rw [hn]; rfl) rest
  · exact stringBody_backslash fuel (by decide) (by rw [hr]; rfl) rest
  · exact stringBody_backslash fuel (by decide) (by rw [ht]; rfl) rest
  · rw [stringBody_unicodeText (by omega) (isSurrogate_eq_false.mpr (by omega)), hrune]
    rfl
  -- a plain character is a sequence of one byte
  exact stringBody_sequence fuel (not_or.mp hquote).1 (not_or.mp hquote).2
    (not_or.mp hunicode).1 (isSequence_singleton h) rest

/-- The first byte of a sequence of several bytes is none of the bytes that end or escape. -/
theorem stringBody_long (h : IsSequence bytes) (hlong : ∀ byte, bytes ≠ [byte])
    (fuel : ℕ) (rest : Bytes) :
    stringBody (fuel + 1) (bytes ++ rest) =
      (stringBody fuel rest).map fun body => (bytes ++ body.1, body.2) := by
  obtain ⟨b, tail, rfl, hb⟩ : ∃ b tail, bytes = b :: tail ∧ 128 ≤ b.toNat := by
    rcases h.cases with ⟨b, rfl, -⟩ | ⟨b, _, rfl, hb, -⟩ | ⟨b, _, _, rfl, hb, -⟩ |
      ⟨b, _, _, _, rfl, hb, -⟩
    · exact absurd rfl (hlong b)
    all_goals exact ⟨b, _, rfl, by omega⟩
  have hquote : b ≠ 0x22 := by rintro rfl; simp at hb
  have hbackslash : b ≠ 0x5c := by rintro rfl; simp at hb
  have hcontrol : ¬b < 0x20 := by
    rw [UInt8.lt_iff_toNat_lt]
    simp only [UInt8.reduceToNat]
    omega
  exact stringBody_sequence fuel hquote hbackslash hcontrol h rest

/-- A way to write sequences that the reader undoes. -/
def Unread (write : Bytes → Bytes) : Prop :=
  ∀ bytes, IsSequence bytes → write bytes ≠ [] ∧ ∀ fuel rest,
    stringBody (fuel + 1) (write bytes ++ rest) =
      (stringBody fuel rest).map fun body => (bytes ++ body.1, body.2)

theorem escapeByte_ne_nil (html : Bool) (byte : UInt8) : escapeByte html byte ≠ [] := by
  unfold escapeByte unicodeText
  split_ifs <;> simp

theorem unread_escapeSequence (html : Bool) : Unread (escapeSequence html) := by
  intro bytes h
  unfold escapeSequence
  split
  · rename_i byte
    rw [if_pos h.lt_of_singleton]
    exact ⟨escapeByte_ne_nil html byte, stringBody_escapeByte html h.lt_of_singleton⟩
  rename_i hlong
  split_ifs with hseparator
  · have hlt : rune bytes < 0x10000 := by omega
    refine ⟨by simp [unicodeText], fun fuel rest => ?_⟩
    rw [stringBody_unicodeText hlt (rune_valid h).2, encodeRune_rune h]
  · exact ⟨h.ne_nil, stringBody_long h fun byte hbyte => hlong byte hbyte⟩

theorem unread_keepSequence : Unread keepSequence := by
  intro bytes h
  unfold keepSequence
  split
  · rename_i byte
    rw [if_pos h.lt_of_singleton]
    exact ⟨escapeByte_ne_nil false byte, stringBody_escapeByte false h.lt_of_singleton⟩
  · rename_i hlong
    exact ⟨h.ne_nil, stringBody_long h fun byte hbyte => hlong byte hbyte⟩

theorem stringBody_flatMap (hwrite : Unread write) {parts : List Bytes}
    (h : ∀ part ∈ parts, IsSequence part) {fuel : ℕ} (hfuel : parts.length < fuel)
    (rest : Bytes) :
    stringBody fuel (parts.flatMap write ++ 0x22 :: rest) = some (parts.flatten, rest) := by
  induction parts generalizing fuel with
  | nil =>
    obtain ⟨fuel, rfl⟩ := Nat.exists_eq_add_one_of_ne_zero (Nat.ne_of_gt hfuel)
    simp [stringBody]
  | cons part parts ih =>
    obtain ⟨fuel, rfl⟩ := Nat.exists_eq_add_one_of_ne_zero (Nat.ne_zero_of_lt hfuel)
    obtain ⟨hpart, hparts⟩ := forall_mem_cons.mp h
    rw [flatMap_cons, append_assoc, (hwrite part hpart).2,
      ih hparts (by simpa using hfuel)]
    rfl

theorem length_le_flatMap (hwrite : Unread write) {parts : List Bytes}
    (h : ∀ part ∈ parts, IsSequence part) : parts.length ≤ (parts.flatMap write).length := by
  induction parts with
  | nil => simp
  | cons part parts ih =>
    obtain ⟨hpart, hparts⟩ := forall_mem_cons.mp h
    have hpos := length_pos_iff.mpr (hwrite part hpart).1
    have hrest := ih hparts
    rw [flatMap_cons, length_append, length_cons]
    omega

/-- **A string is read back from what it is written as.** -/
theorem stringBody_written (hwrite : Unread write)
    (h : utf8Valid text = true) {fuel : ℕ}
    (hfuel : ((sequences text).flatMap write).length < fuel) (rest : Bytes) :
    stringBody fuel ((sequences text).flatMap write ++ 0x22 :: rest) = some (text, rest) := by
  have hparts := isSequence_of_mem h
  have hlength := length_le_flatMap hwrite hparts
  rw [stringBody_flatMap hwrite hparts (hlength.trans_lt hfuel), flatten_sequences]

/-! ### The shape of what is written -/

/-- A plain character, an escape of two bytes or one of six. -/
inductive Shape (bytes : Bytes) : Bytes → Prop
  | plain (h : ∀ byte ∈ bytes, 0x20 ≤ byte ∧ byte ≠ 0x22 ∧ byte ≠ 0x5c) : Shape bytes bytes
  | short (kind : UInt8) (h : kind ≠ 0x75 ∧ 0x20 < kind ∧ kind < 0x80) : Shape bytes [0x5c, kind]
  | unicode (unit : ℕ) (h : unit < 0x10000 ∧ isSurrogate unit = false)
    (hbytes : encodeRune unit = bytes) : Shape bytes (unicodeText unit)

theorem shape_escapeByte (html : Bool) (h : byte < 0x80) : Shape [byte] (escapeByte html byte) := by
  unfold escapeByte
  split_ifs with hself hb hf hn hr ht hcontrol
  · rcases hself with rfl | rfl
    all_goals exact .short _ (by decide)
  iterate 5 exact .short _ (by decide)
  · have hlt : byte.toNat < 128 := by simpa [UInt8.lt_iff_toNat_lt] using h
    refine .unicode _ ⟨by omega, isSurrogate_eq_false.mpr (by omega)⟩ ?_
    have hsequence := isSequence_singleton h
    have hrune : rune [byte] = byte.toNat := if_pos h
    rw [← hrune, encodeRune_rune hsequence]
  refine .plain (forall_mem_singleton.mpr ?_)
  have hlow : ¬byte < 0x20 := (not_or.mp hcontrol).1
  exact ⟨UInt8.not_lt.mp hlow, (not_or.mp hself).1, (not_or.mp hself).2⟩

theorem shape_long (h : IsSequence bytes) (hlong : ∀ byte, bytes ≠ [byte]) : Shape bytes bytes := by
  refine .plain fun byte hbyte => ?_
  have hhigh := h.high_of_long hlong byte hbyte
  refine ⟨UInt8.le_trans (by decide) hhigh, ?_, ?_⟩
  iterate 2
    rintro rfl
    exact absurd hhigh (by decide)

theorem shape_escapeSequence (html : Bool) (h : IsSequence bytes) :
    Shape bytes (escapeSequence html bytes) := by
  unfold escapeSequence
  split
  · rename_i byte
    rw [if_pos h.lt_of_singleton]
    exact shape_escapeByte html h.lt_of_singleton
  rename_i hlong
  split_ifs with hseparator
  · exact .unicode _ ⟨by omega, (rune_valid h).2⟩ (encodeRune_rune h)
  · exact shape_long h fun byte hbyte => hlong byte hbyte

theorem shape_keepSequence (h : IsSequence bytes) : Shape bytes (keepSequence bytes) := by
  unfold keepSequence
  split
  · rename_i byte
    rw [if_pos h.lt_of_singleton]
    exact shape_escapeByte false h.lt_of_singleton
  · rename_i hlong
    exact shape_long h fun byte hbyte => hlong byte hbyte

/-! ### What is written is UTF-8 -/

theorem hexDigit_lt {n : ℕ} (h : n < 16) : hexDigit n < 0x80 := by
  revert n
  decide

theorem unicodeText_ascii (unit : ℕ) : ∀ byte ∈ unicodeText unit, byte < 0x80 := by
  have hdigit : ∀ n, hexDigit (n % 16) < 0x80 := fun n => hexDigit_lt (Nat.mod_lt n (by decide))
  simp only [unicodeText, forall_mem_cons, not_mem_nil, false_implies, implies_true,
    and_true]
  exact ⟨by decide, by decide, hdigit _, hdigit _, hdigit _, hdigit _⟩

theorem Shape.utf8Valid {bytes written : Bytes} (h : Shape bytes written)
    (hbytes : IsSequence bytes) : utf8Valid written = true := by
  cases h with
  | plain h => exact hbytes.utf8Valid
  | short kind h =>
    refine utf8Valid_of_ascii fun b hb => ?_
    rcases mem_pair.mp hb with rfl | rfl
    · decide
    · exact h.2.2
  | unicode unit h => exact utf8Valid_of_ascii (unicodeText_ascii unit)

theorem utf8Valid_escape (html : Bool) (h : utf8Valid text = true) :
    utf8Valid (escape html text) = true :=
  utf8Valid_flatMap fun part hpart =>
    (shape_escapeSequence html (isSequence_of_mem h part hpart)).utf8Valid
      (isSequence_of_mem h part hpart)

theorem utf8Valid_escapeKept (h : utf8Valid text = true) : utf8Valid (escapeKept text) = true :=
  utf8Valid_flatMap fun part hpart =>
    (shape_keepSequence (isSequence_of_mem h part hpart)).utf8Valid
      (isSequence_of_mem h part hpart)

end Carcer.Json
