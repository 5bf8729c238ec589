import Carcer.Wire.Runes

/-!
# JSON numbers

The literals of numbers as RFC 8259 has them. They are kept as they are written: what type of
number a literal is stored in is for the reader to say.

## Main definitions

* `numberText`: a literal is read off a text
* `IsNumber`: a text that is one literal

## Main results

* `numberText_reads`: a literal is read off whatever text stands behind it
* `isNumber_decimal`: the decimals are literals
-/

namespace Carcer.Json

open Carcer.Wire List Option

/-! ### The scanner -/

def isDigit (byte : UInt8) : Bool := 0x30 ≤ byte ∧ byte ≤ 0x39

/-- The digits of a number before the point. -/
def integerText : Bytes → Option (Bytes × Bytes)
  | 0x30 :: rest => some ([0x30], rest)
  | text => if (text.takeWhile isDigit) = [] then none
    else some (text.takeWhile isDigit, text.dropWhile isDigit)

def digitsText (text : Bytes) : Option (Bytes × Bytes) :=
  if (text.takeWhile isDigit) = [] then none
  else some (text.takeWhile isDigit, text.dropWhile isDigit)

/-- The fraction of a number, when there is one. -/
def fractionText : Bytes → Option (Bytes × Bytes)
  | 0x2e :: rest => do
    let (digits, rest) ← digitsText rest
    return (0x2e :: digits, rest)
  | text => some ([], text)

/-- The sign of an exponent, when there is one. -/
def signText : Bytes → Bytes × Bytes
  | 0x2b :: rest => ([0x2b], rest)
  | 0x2d :: rest => ([0x2d], rest)
  | text => ([], text)

/-- The exponent of a number, when there is one. -/
def exponentText : Bytes → Option (Bytes × Bytes)
  | [] => some ([], [])
  | byte :: rest =>
    if byte = 0x65 ∨ byte = 0x45 then do
      let (sign, rest) := signText rest
      let (digits, rest) ← digitsText rest
      return (byte :: sign ++ digits, rest)
    else some ([], byte :: rest)

/-- The literal of a number without its sign. -/
def unsignedText (text : Bytes) : Option (Bytes × Bytes) := do
  let (integer, rest) ← integerText text
  let (fraction, rest) ← fractionText rest
  let (exponent, rest) ← exponentText rest
  return (integer ++ fraction ++ exponent, rest)

/-- The literal of a number. -/
def numberText : Bytes → Option (Bytes × Bytes)
  | 0x2d :: rest => do
    let (literal, rest) ← unsignedText rest
    return (0x2d :: literal, rest)
  | text => unsignedText text

/-- A text that is the literal of a number. -/
def IsNumber (literal : Bytes) : Prop := numberText literal = some (literal, [])

/-! ### What stands behind a number -/

/-- A number ends before this text. -/
def Stops (rest : Bytes) : Prop :=
  ∀ byte ∈ rest.head?, isDigit byte = false ∧ byte ≠ 0x2e ∧ byte ≠ 0x65 ∧ byte ≠ 0x45

theorem stops_nil : Stops [] := by simp [Stops]

variable {rest : Bytes}

theorem fractionText_of_head (h : ∀ byte ∈ rest.head?, byte ≠ 0x2e) :
    fractionText rest = some ([], rest) := by
  unfold fractionText
  split
  · exact absurd rfl (h _ rfl)
  · rfl

theorem exponentText_of_head (h : ∀ byte ∈ rest.head?, byte ≠ 0x65 ∧ byte ≠ 0x45) :
    exponentText rest = some ([], rest) := by
  cases rest with
  | nil => rfl
  | cons byte rest => exact if_neg (not_or.mpr (h byte rfl))

theorem stops_cons {byte : UInt8}
    (h : isDigit byte = false ∧ byte ≠ 0x2e ∧ byte ≠ 0x65 ∧ byte ≠ 0x45) :
    Stops (byte :: rest) := by
  simpa [Stops] using h

theorem Stops.fractionText (h : Stops rest) : fractionText rest = some ([], rest) :=
  fractionText_of_head fun byte hbyte => (h byte hbyte).2.1

theorem Stops.exponentText (h : Stops rest) : exponentText rest = some ([], rest) :=
  exponentText_of_head fun byte hbyte => (h byte hbyte).2.2

theorem takeWhile_digits {digits : Bytes} (hdigits : ∀ digit ∈ digits, isDigit digit = true)
    (hrest : ∀ byte ∈ rest.head?, isDigit byte = false) :
    (digits ++ rest).takeWhile isDigit = digits ∧ (digits ++ rest).dropWhile isDigit = rest := by
  have hnone : rest.takeWhile isDigit = [] ∧ rest.dropWhile isDigit = rest := by
    cases rest with
    | nil => exact ⟨rfl, rfl⟩
    | cons byte rest => simp [hrest byte rfl]
  rw [takeWhile_append_of_pos hdigits, dropWhile_append_of_pos hdigits, hnone.1, hnone.2,
    append_nil]
  exact ⟨rfl, rfl⟩

theorem integerText_decimal (n : ℕ) (h : Stops rest) :
    integerText (decimal n ++ rest) = some (decimal n, rest) := by
  have hdigits : ∀ digit ∈ decimal n, isDigit digit = true := fun digit hdigit => by
    simpa [isDigit] using digit_of_mem_decimal hdigit
  obtain ⟨htake, hdrop⟩ := takeWhile_digits hdigits fun byte hbyte => (h byte hbyte).1
  unfold integerText
  split
  · -- only the number zero begins with a zero
    rename_i rest' heq
    have hzero : n = 0 := by
      by_contra hn
      obtain ⟨digit, digits, hdecimal⟩ := exists_cons_of_ne_nil (decimal_ne_nil n)
      rw [hdecimal, cons_append] at heq
      injection heq with hdigit
      exact decimal_ne_zero_cons hn digits (by rw [hdecimal, hdigit])
    subst hzero
    cases heq
    rfl
  · rw [htake, hdrop, if_neg (decimal_ne_nil n)]

theorem unsignedText_decimal (n : ℕ) (h : Stops rest) :
    unsignedText (decimal n ++ rest) = some (decimal n, rest) := by
  simp [unsignedText, integerText_decimal n h, h.fractionText, h.exponentText]

theorem isNumber_decimal (n : ℕ) : IsNumber (decimal n) := by
  have hunsigned := unsignedText_decimal n stops_nil
  rw [append_nil] at hunsigned
  unfold IsNumber numberText
  split
  · rename_i rest heq
    have hminus := digit_of_mem_decimal (heq ▸ mem_cons_self : (0x2d : UInt8) ∈ decimal n)
    exact absurd hminus (by decide)
  · exact hunsigned

/-! ### Every literal

What a part of the scanner reads off a text it reads again whatever stands behind it, if a number
stops there or it begins with the byte that stood there before. -/

/-- A byte that stands in literals. -/
def isNumeric (byte : UInt8) : Bool :=
  isDigit byte ∨ byte = 0x2b ∨ byte = 0x2d ∨ byte = 0x2e ∨ byte = 0x45 ∨ byte = 0x65

/-- The scanner reads `part` off the text. -/
structure TakesPart (scan : Bytes → Option (Bytes × Bytes)) (text part left : Bytes) : Prop where
  text_eq : text = part ++ left
  numeric : ∀ byte ∈ part, isNumeric byte
  again : ∀ left', Stops left' ∨ left'.head? = left.head? →
    scan (part ++ left') = some (part, left')

section Parts

variable {text part left left' : Bytes}

theorem digitsText_reads (h : digitsText text = some (part, left)) :
    part ≠ [] ∧ (∀ byte ∈ part, isDigit byte) ∧ TakesPart digitsText text part left := by
  unfold digitsText at h
  split_ifs at h with hne
  cases h
  have hdigits : ∀ byte ∈ text.takeWhile isDigit, isDigit byte := fun _ => mem_takeWhile_imp
  refine ⟨hne, hdigits, List.takeWhile_append_dropWhile.symm,
    fun byte hbyte => by simp [isNumeric, hdigits byte hbyte], fun left' hleft => ?_⟩
  have hstop : ∀ byte ∈ left'.head?, isDigit byte = false := by
    intro byte hbyte
    rcases hleft with hstops | hsame
    · exact (hstops byte hbyte).1
    · have hnot := List.head?_dropWhile_not isDigit text
      rw [← hsame, hbyte] at hnot
      exact hnot
  obtain ⟨htake, hdrop⟩ := takeWhile_digits hdigits hstop
  rw [digitsText, htake, hdrop, if_neg hne]

theorem integerText_cons {byte : UInt8} (h : byte ≠ 0x30) (text : Bytes) :
    integerText (byte :: text) = digitsText (byte :: text) := by
  unfold integerText
  split
  · rename_i heq
    exact absurd (List.cons.inj heq).1 h
  · rfl

theorem integerText_reads (h : integerText text = some (part, left)) :
    part ≠ [] ∧ TakesPart integerText text part left := by
  rcases text with _ | ⟨byte, text⟩
  · simp [integerText] at h
  by_cases hzero : byte = 0x30
  · subst hzero
    cases h
    exact ⟨cons_ne_nil _ _, rfl, forall_mem_singleton.mpr (by decide), fun _ _ => rfl⟩
  rw [integerText_cons hzero] at h
  obtain ⟨hne, -, hreads⟩ := digitsText_reads h
  obtain ⟨digit, digits, rfl⟩ := exists_cons_of_ne_nil hne
  obtain rfl : byte = digit := (List.cons.inj hreads.text_eq).1
  refine ⟨hne, hreads.text_eq, hreads.numeric, fun left' hleft => ?_⟩
  rw [cons_append, integerText_cons hzero]
  exact hreads.again left' hleft

theorem fractionText_reads (h : fractionText text = some (part, left)) :
    TakesPart fractionText text part left := by
  by_cases hhead : ∀ byte ∈ text.head?, byte ≠ 0x2e
  · rw [fractionText_of_head hhead] at h
    cases h
    refine ⟨rfl, by simp, fun left' hleft => ?_⟩
    rcases hleft with hstops | hsame
    · exact hstops.fractionText
    · exact fractionText_of_head (hsame ▸ hhead)
  · obtain ⟨text, rfl⟩ : ∃ behind, text = 0x2e :: behind := by
      simpa [head?_eq_some_iff] using hhead
    obtain ⟨⟨digits, behind⟩, hdigits, h⟩ := bind_eq_some_iff.mp h
    cases h
    obtain ⟨-, -, hreads⟩ := digitsText_reads hdigits
    refine ⟨congrArg _ hreads.text_eq, forall_mem_cons.mpr ⟨by decide, hreads.numeric⟩,
      fun left' hleft => ?_⟩
    simp [fractionText, hreads.again left' hleft]

theorem signText_reads (h : digitsText (signText text).2 = some (part, left)) :
    text = (signText text).1 ++ (part ++ left) ∧ (∀ byte ∈ (signText text).1, isNumeric byte) ∧
      ∀ left', signText ((signText text).1 ++ (part ++ left')) =
        ((signText text).1, part ++ left') := by
  obtain ⟨hne, hdigits, hreads⟩ := digitsText_reads h
  rw [← hreads.text_eq]
  unfold signText
  split
  iterate 2 exact ⟨rfl, forall_mem_singleton.mpr (by decide), fun _ => rfl⟩
  refine ⟨rfl, by simp, fun left' => ?_⟩
  -- the digits do not begin with a sign
  obtain ⟨digit, digits, rfl⟩ := exists_cons_of_ne_nil hne
  have hdigit := hdigits digit mem_cons_self
  split
  iterate 2
    rename_i heq
    rw [(List.cons.inj heq).1] at hdigit
    cases hdigit
  · rfl

theorem exponentText_reads (h : exponentText text = some (part, left)) :
    TakesPart exponentText text part left := by
  by_cases hhead : ∀ byte ∈ text.head?, byte ≠ 0x65 ∧ byte ≠ 0x45
  · rw [exponentText_of_head hhead] at h
    cases h
    refine ⟨rfl, by simp, fun left' hleft => ?_⟩
    rcases hleft with hstops | hsame
    · exact hstops.exponentText
    · exact exponentText_of_head (hsame ▸ hhead)
  rcases text with _ | ⟨byte, text⟩
  · simp at hhead
  have hbyte : byte = 0x65 ∨ byte = 0x45 := by
    simpa [or_iff_not_imp_left] using hhead
  rw [exponentText, if_pos hbyte] at h
  obtain ⟨⟨digits, behind⟩, hdigits, h⟩ := bind_eq_some_iff.mp h
  obtain ⟨hpart, rfl⟩ := Prod.mk.inj (Option.some.inj h)
  have hpart : byte :: ((signText text).1 ++ digits) = part := hpart
  subst hpart
  obtain ⟨htext, hsign, hagain⟩ := signText_reads hdigits
  obtain ⟨-, -, hreads⟩ := digitsText_reads hdigits
  have hnumeric : isNumeric byte = true := by
    rcases hbyte with rfl | rfl <;> decide
  refine ⟨?_, ?_, fun left' hleft => ?_⟩
  · rw [cons_append, append_assoc, ← htext]
  · exact forall_mem_cons.mpr
      ⟨hnumeric, forall_mem_append.mpr ⟨hsign, hreads.numeric⟩⟩
  · rw [cons_append, append_assoc, exponentText, if_pos hbyte, hagain]
    simp only [hreads.again left' hleft, bind_eq_bind, bind_some]
    rfl

theorem stops_or_head_append (part : Bytes) (h : Stops left' ∨ left'.head? = left.head?) :
    Stops (part ++ left') ∨ (part ++ left').head? = (part ++ left).head? := by
  cases part with
  | nil => exact h
  | cons => exact .inr rfl

theorem unsignedText_reads (h : unsignedText text = some (part, left)) :
    part ≠ [] ∧ TakesPart unsignedText text part left := by
  obtain ⟨⟨integer, behind₁⟩, hinteger, h⟩ := bind_eq_some_iff.mp h
  obtain ⟨⟨fraction, behind₂⟩, hfraction, h⟩ := bind_eq_some_iff.mp h
  obtain ⟨⟨exponent, behind₃⟩, hexponent, h⟩ := bind_eq_some_iff.mp h
  cases h
  obtain ⟨hne, hinteger⟩ := integerText_reads hinteger
  have hfraction := fractionText_reads hfraction
  have hexponent := exponentText_reads hexponent
  obtain rfl := hexponent.text_eq
  obtain rfl := hfraction.text_eq
  refine ⟨by simp [hne], by rw [hinteger.text_eq]; simp, ?_, fun left' hleft => ?_⟩
  · exact forall_mem_append.mpr ⟨forall_mem_append.mpr
      ⟨hinteger.numeric, hfraction.numeric⟩, hexponent.numeric⟩
  · have hleft₂ := stops_or_head_append exponent hleft
    have hleft₁ := stops_or_head_append fraction hleft₂
    simp [unsignedText, hinteger.again _ hleft₁, hfraction.again _ hleft₂,
      hexponent.again _ hleft]

theorem numberText_cons {byte : UInt8} (h : byte ≠ 0x2d) (text : Bytes) :
    numberText (byte :: text) = unsignedText (byte :: text) := by
  unfold numberText
  split
  · rename_i heq
    exact absurd (List.cons.inj heq).1 h
  · rfl

/-- **A literal is read off whatever text stands behind it.** -/
theorem numberText_reads (h : numberText text = some (part, left)) :
    part ≠ [] ∧ TakesPart numberText text part left := by
  rcases text with _ | ⟨byte, text⟩
  · simp [numberText, unsignedText, integerText] at h
  by_cases hminus : byte = 0x2d
  · subst hminus
    obtain ⟨⟨unsigned, behind⟩, hunsigned, h⟩ := bind_eq_some_iff.mp h
    cases h
    obtain ⟨-, hreads⟩ := unsignedText_reads hunsigned
    refine ⟨cons_ne_nil _ _, congrArg _ hreads.text_eq,
      forall_mem_cons.mpr ⟨by decide, hreads.numeric⟩, fun left' hleft => ?_⟩
    simp [numberText, hreads.again left' hleft]
  rw [numberText_cons hminus] at h
  obtain ⟨hne, hreads⟩ := unsignedText_reads h
  obtain ⟨first, part, rfl⟩ := exists_cons_of_ne_nil hne
  obtain rfl : byte = first := (List.cons.inj hreads.text_eq).1
  refine ⟨hne, hreads.text_eq, hreads.numeric, fun left' hleft => ?_⟩
  rw [cons_append, numberText_cons hminus]
  exact hreads.again left' hleft

theorem numberText_append {literal : Bytes} (h : IsNumber literal) (hrest : Stops rest) :
    numberText (literal ++ rest) = some (literal, rest) :=
  (numberText_reads h).2.again rest (.inl hrest)

theorem IsNumber.numeric {literal : Bytes} (h : IsNumber literal) :
    ∀ byte ∈ literal, isNumeric byte :=
  (numberText_reads h).2.numeric

end Parts

end Carcer.Json
