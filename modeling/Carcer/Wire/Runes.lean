import Carcer.Wire.Utf8

/-!
# Strings as sequences of runes

A string splits into UTF-8 sequences, a byte that starts none being a sequence of its own. A valid
sequence stands for a code point, and the code point for the sequence.

## Main definitions

* `sequences`: the sequences of a string
* `IsSequence`: the bytes of one code point
* `rune`, `encodeRune`: the code point of a sequence, and the sequence of a code point

## Main results

* `flatten_sequences`: the sequences make up the string
* `sequences_append`: the sequences of a valid string, and of what stands behind it
* `encodeRune_rune`: a sequence is the one of its code point
* `utf8Valid_iff_runes`: a string is valid when it consists of the bytes of code points
-/

namespace Carcer.Wire

open List

/-! ### Sequences -/

/-- The sequences of a string of at most `fuel` bytes. -/
def sequencesFrom : ℕ → Bytes → List Bytes
  | 0, _ => []
  | _ + 1, [] => []
  | fuel + 1, byte :: bytes =>
    match utf8Width (byte :: bytes) with
    | none => [byte] :: sequencesFrom fuel bytes
    | some width =>
      (byte :: bytes).take width :: sequencesFrom fuel ((byte :: bytes).drop width)

/-- The sequences of a string; a byte that starts no valid one stands alone. -/
def sequences (text : Bytes) : List Bytes := sequencesFrom text.length text

/-- The bytes of one code point. -/
def IsSequence (bytes : Bytes) : Prop := utf8Width bytes = some bytes.length

instance (bytes : Bytes) : Decidable (IsSequence bytes) := inferInstanceAs (Decidable (_ = _))

variable {bytes : Bytes} {width : ℕ} {text : Bytes} {byte : UInt8} {parts : List Bytes}

theorem utf8Width_le (h : utf8Width bytes = some width) : width ≤ bytes.length := by
  cases bytes with
  | nil => cases h
  | cons byte bytes =>
    simp only [utf8Width] at h
    split_ifs at h
    · cases h
      simp
    split at h
    · cases h
    split_ifs at h with hcount
    cases h
    simpa using hcount.1

theorem IsSequence.ne_nil (h : IsSequence bytes) : bytes ≠ [] := by
  rintro rfl
  cases h

/-- The first sequence of a string does not depend on what stands behind it. -/
theorem utf8Width_take (h : utf8Width bytes = some width) : IsSequence (bytes.take width) := by
  have hle := utf8Width_le h
  rcases bytes with _ | ⟨byte, bytes⟩
  · cases h
  unfold IsSequence
  rw [length_take_of_le hle]
  simp only [utf8Width] at h
  split_ifs at h with hascii
  · cases h
    simp [utf8Width, hascii]
  split at h
  · cases h
  rename_i count lo hi hfirst
  split_ifs at h with hcount
  cases h
  simp [utf8Width, hascii, hfirst, hcount, take_take]

theorem IsSequence.utf8Width_append (h : IsSequence bytes) (rest : Bytes) :
    utf8Width (bytes ++ rest) = some bytes.length := by
  rcases bytes with _ | ⟨byte, bytes⟩
  · cases h
  simp only [IsSequence, utf8Width] at h
  simp only [cons_append, utf8Width]
  split_ifs at h with hascii
  · rw [if_pos hascii, h]
  rw [if_neg hascii]
  split at h
  · cases h
  rename_i count lo hi hfirst
  split_ifs at h with hcount
  obtain rfl : count = bytes.length := by simpa using h
  simpa [hfirst] using hcount.2

theorem sequencesFrom_of_le {fuel fuel' : ℕ} (h : text.length ≤ fuel)
    (h' : text.length ≤ fuel') : sequencesFrom fuel text = sequencesFrom fuel' text := by
  induction fuel generalizing fuel' text with
  | zero =>
    obtain rfl := length_eq_zero_iff.mp (Nat.le_zero.mp h)
    cases fuel' <;> rfl
  | succ fuel ih =>
    rcases text with _ | ⟨byte, bytes⟩
    · cases fuel' <;> rfl
    rcases fuel' with _ | fuel'
    · simp at h'
    simp only [length_cons, Nat.add_le_add_iff_right] at h h'
    simp only [sequencesFrom]
    cases hwidth : utf8Width (byte :: bytes) with
    | none => simp only [ih h h']
    | some width =>
      have hpos := utf8Width_pos hwidth
      have hlength : ((byte :: bytes).drop width).length ≤ bytes.length := by
        simp only [length_drop, length_cons]
        omega
      simp only [ih (hlength.trans h) (hlength.trans h')]

@[simp] theorem sequences_nil : sequences [] = [] := rfl

theorem sequences_eq (h : utf8Width text = some width) :
    sequences text = text.take width :: sequences (text.drop width) := by
  cases text with
  | nil => cases h
  | cons byte bytes =>
    have hpos := utf8Width_pos h
    rw [sequences, length_cons, sequencesFrom]
    simp only [h]
    congr 1
    apply sequencesFrom_of_le
    · simp only [length_drop, length_cons]
      omega
    · exact le_rfl

theorem sequences_eq_of_none (h : utf8Width (byte :: bytes) = none) :
    sequences (byte :: bytes) = [byte] :: sequences bytes := by
  rw [sequences, length_cons, sequencesFrom]
  simp only [h]
  rfl

theorem sequences_cons (h : IsSequence bytes) (rest : Bytes) :
    sequences (bytes ++ rest) = bytes :: sequences rest := by
  rw [sequences_eq (h.utf8Width_append rest), take_left, drop_left]

theorem sequences_flatten_append (h : ∀ part ∈ parts, IsSequence part)
    (rest : Bytes) : sequences (parts.flatten ++ rest) = parts ++ sequences rest := by
  induction parts with
  | nil => rfl
  | cons part parts ih =>
    obtain ⟨hpart, hparts⟩ := forall_mem_cons.mp h
    rw [flatten_cons, append_assoc, sequences_cons hpart, ih hparts, cons_append]

theorem flatten_sequences (text : Bytes) : (sequences text).flatten = text := by
  -- a strong induction on the length: what stands behind the first sequence is shorter
  induction hlength : text.length using Nat.strong_induction_on generalizing text with
  | _ length ih =>
    rcases text with _ | ⟨byte, bytes⟩
    · rfl
    cases hwidth : utf8Width (byte :: bytes) with
    | none =>
      rw [sequences_eq_of_none hwidth, flatten_cons, ih bytes.length (by simp [← hlength])
        bytes rfl]
      rfl
    | some width =>
      have hpos := utf8Width_pos hwidth
      rw [sequences_eq hwidth, flatten_cons, ih _ _ _ rfl, take_append_drop]
      rw [← hlength, length_drop, length_cons]
      omega

theorem isSequence_of_mem (h : utf8Valid text = true) :
    ∀ part ∈ sequences text, IsSequence part := by
  induction hlength : text.length using Nat.strong_induction_on generalizing text with
  | _ length ih =>
    cases text with
    | nil => simp
    | cons byte bytes =>
      rw [utf8Valid_eq (cons_ne_nil _ _), Option.any_eq_true] at h
      obtain ⟨width, hwidth, hrest⟩ := h
      have hpos := utf8Width_pos hwidth
      rw [sequences_eq hwidth]
      refine forall_mem_cons.mpr ⟨utf8Width_take hwidth, ih _ ?_ hrest rfl⟩
      rw [← hlength, length_drop, length_cons]
      omega

theorem utf8Valid_flatten (h : ∀ part ∈ parts, IsSequence part)
    (rest : Bytes) : utf8Valid (parts.flatten ++ rest) = utf8Valid rest := by
  induction parts with
  | nil => rfl
  | cons part parts ih =>
    obtain ⟨hpart, hparts⟩ := forall_mem_cons.mp h
    have hne : part ++ (parts.flatten ++ rest) ≠ [] :=
      append_ne_nil_of_left_ne_nil hpart.ne_nil _
    rw [flatten_cons, append_assoc, utf8Valid_eq hne, hpart.utf8Width_append]
    simp [ih hparts]

theorem sequences_append (h : utf8Valid text = true) (rest : Bytes) :
    sequences (text ++ rest) = sequences text ++ sequences rest := by
  conv_lhs => rw [← flatten_sequences text]
  exact sequences_flatten_append (isSequence_of_mem h) rest

theorem utf8Valid_append (h : utf8Valid text = true) (rest : Bytes) :
    utf8Valid (text ++ rest) = utf8Valid rest := by
  conv_lhs => rw [← flatten_sequences text]
  exact utf8Valid_flatten (isSequence_of_mem h) rest

theorem IsSequence.utf8Valid (h : IsSequence bytes) : utf8Valid bytes = true := by
  have hparts : ∀ part ∈ [bytes], IsSequence part := by simpa using h
  have hvalid := utf8Valid_flatten hparts []
  rw [flatten_singleton, append_nil] at hvalid
  exact hvalid.trans rfl

theorem isSequence_singleton (h : byte < 0x80) : IsSequence [byte] := by
  simp [IsSequence, utf8Width, h]

theorem utf8Valid_cons (h : byte < 0x80) (rest : Bytes) :
    utf8Valid (byte :: rest) = utf8Valid rest :=
  utf8Valid_append (isSequence_singleton h).utf8Valid rest

theorem utf8Valid_of_ascii (h : ∀ byte ∈ text, byte < 0x80) : utf8Valid text = true := by
  induction text with
  | nil => rfl
  | cons byte text ih =>
    obtain ⟨hbyte, htext⟩ := forall_mem_cons.mp h
    rw [utf8Valid_cons hbyte, ih htext]

theorem utf8Valid_flatMap {f : Bytes → Bytes}
    (h : ∀ part ∈ parts, utf8Valid (f part) = true) : utf8Valid (parts.flatMap f) = true := by
  induction parts with
  | nil => rfl
  | cons part parts ih =>
    obtain ⟨hpart, hparts⟩ := forall_mem_cons.mp h
    rw [flatMap_cons, utf8Valid_append hpart, ih hparts]

theorem sequences_of_ascii (h : ∀ byte ∈ text, byte < 0x80) :
    sequences text = text.map fun byte => [byte] := by
  have hparts : ∀ part ∈ text.map fun byte => [byte], IsSequence part := by
    intro part hpart
    obtain ⟨byte, hbyte, rfl⟩ := mem_map.mp hpart
    exact isSequence_singleton (h byte hbyte)
  have hflatten : (text.map fun byte => [byte]).flatten = text := by
    rw [← flatMap_def, List.flatMap_singleton']
  have happend := sequences_flatten_append hparts []
  rw [hflatten, append_nil] at happend
  exact happend.trans (append_nil _)

/-! ### Code points -/

/-- The code point of a sequence, and the replacement character for a byte that starts none. -/
def rune : Bytes → ℕ
  | [b₀] => if b₀ < 0x80 then b₀.toNat else 0xfffd
  | [b₀, b₁] => b₀.toNat % 32 * 64 + b₁.toNat % 64
  | [b₀, b₁, b₂] => b₀.toNat % 16 * 4096 + b₁.toNat % 64 * 64 + b₂.toNat % 64
  | [b₀, b₁, b₂, b₃] =>
    b₀.toNat % 8 * 262144 + b₁.toNat % 64 * 4096 + b₂.toNat % 64 * 64 + b₃.toNat % 64
  | _ => 0xfffd

/-- A code unit of a surrogate pair. -/
def isSurrogate (r : ℕ) : Bool := 0xd800 ≤ r ∧ r ≤ 0xdfff

/-- The bytes of a code point; a number that is none gets those of the replacement character. -/
def encodeRune (r : ℕ) : Bytes :=
  if r < 0x80 then [UInt8.ofNat r]
  else if r < 0x800 then [UInt8.ofNat (0xc0 + r / 64), UInt8.ofNat (0x80 + r % 64)]
  else if isSurrogate r ∨ 0x10ffff < r then [0xef, 0xbf, 0xbd]
  else if r < 0x10000 then
    [UInt8.ofNat (0xe0 + r / 4096), UInt8.ofNat (0x80 + r / 64 % 64), UInt8.ofNat (0x80 + r % 64)]
  else
    [UInt8.ofNat (0xf0 + r / 262144), UInt8.ofNat (0x80 + r / 4096 % 64),
      UInt8.ofNat (0x80 + r / 64 % 64), UInt8.ofNat (0x80 + r % 64)]

theorem utf8Continues_eq (byte : UInt8) :
    utf8Continues byte = true ↔ 128 ≤ byte.toNat ∧ byte.toNat ≤ 191 := by
  simp [utf8Continues, UInt8.le_iff_toNat_le]

theorem IsSequence.cases (h : IsSequence bytes) :
    (∃ b₀, bytes = [b₀] ∧ b₀.toNat < 128) ∨
    (∃ b₀ b₁, bytes = [b₀, b₁] ∧ 194 ≤ b₀.toNat ∧ b₀.toNat ≤ 223 ∧
      128 ≤ b₁.toNat ∧ b₁.toNat ≤ 191) ∨
    (∃ b₀ b₁ b₂, bytes = [b₀, b₁, b₂] ∧ 224 ≤ b₀.toNat ∧ b₀.toNat ≤ 239 ∧
      128 ≤ b₁.toNat ∧ b₁.toNat ≤ 191 ∧ 128 ≤ b₂.toNat ∧ b₂.toNat ≤ 191 ∧
      (b₀.toNat = 224 → 160 ≤ b₁.toNat) ∧ (b₀.toNat = 237 → b₁.toNat ≤ 159)) ∨
    (∃ b₀ b₁ b₂ b₃, bytes = [b₀, b₁, b₂, b₃] ∧ 240 ≤ b₀.toNat ∧ b₀.toNat ≤ 244 ∧
      128 ≤ b₁.toNat ∧ b₁.toNat ≤ 191 ∧ 128 ≤ b₂.toNat ∧ b₂.toNat ≤ 191 ∧
      128 ≤ b₃.toNat ∧ b₃.toNat ≤ 191 ∧
      (b₀.toNat = 240 → 144 ≤ b₁.toNat) ∧ (b₀.toNat = 244 → b₁.toNat ≤ 143)) := by
  rcases bytes with _ | ⟨b₀, rest⟩
  · cases h
  simp only [IsSequence, utf8Width] at h
  split_ifs at h with hascii
  · left
    obtain rfl : rest = [] := by simpa using h
    exact ⟨b₀, rfl, by simpa [UInt8.lt_iff_toNat_lt] using hascii⟩
  right
  split at h
  · cases h
  rename_i count lo hi hfirst
  split_ifs at h with hcount
  obtain rfl : count = rest.length := by simpa using h
  have hfollow := hcount.2
  rw [take_length] at hfollow
  -- the rows of the table with as many bytes as there are
  have hrows := utf8First_rows hfirst
  simp only [← UInt8.toNat_inj, UInt8.reduceToNat] at hrows
  rcases rest with _ | ⟨b₁, _ | ⟨b₂, _ | ⟨b₃, _ | ⟨b₄, rest⟩⟩⟩⟩ <;>
    simp only [length_cons, length_nil, utf8Follow, all_cons, all_nil,
      Bool.and_true, Bool.and_eq_true, decide_eq_true_eq, UInt8.le_iff_toNat_le,
      utf8Continues_eq] at hrows hfollow
  · omega
  · exact .inl ⟨b₀, b₁, rfl, by omega⟩
  · exact .inr (.inl ⟨b₀, b₁, b₂, rfl, by omega⟩)
  · exact .inr (.inr ⟨b₀, b₁, b₂, b₃, rfl, by omega⟩)
  · omega

theorem IsSequence.lt_of_singleton (h : IsSequence [byte]) : byte < 0x80 := by
  rcases h.cases with ⟨b₀, heq, hlt⟩ | ⟨_, _, heq, _⟩ | ⟨_, _, _, heq, _⟩ | ⟨_, _, _, _, heq, _⟩
  · obtain rfl := singleton_inj.mp heq
    exact UInt8.lt_iff_toNat_lt.mpr hlt
  all_goals simp at heq

theorem IsSequence.high_of_long (h : IsSequence bytes)
    (hlong : ∀ byte, bytes ≠ [byte]) : ∀ byte ∈ bytes, 0x80 ≤ byte := by
  intro byte hbyte
  have hgoal : ∀ b : UInt8, 128 ≤ b.toNat → 0x80 ≤ b := fun b hb => UInt8.le_iff_toNat_le.mpr hb
  rcases h.cases with ⟨b, rfl, -⟩ | ⟨b, c, rfl, hb⟩ | ⟨b, c, d, rfl, hb⟩ | ⟨b, c, d, e, rfl, hb⟩
  · exact absurd rfl (hlong b)
  all_goals
    simp only [mem_cons, not_mem_nil, or_false] at hbyte
    rcases hbyte with rfl | rfl | rfl | rfl <;> exact hgoal _ (by omega)

theorem ofNat_eq (byte : UInt8) {n : ℕ} (h : n = byte.toNat) : UInt8.ofNat n = byte := by
  rw [h, UInt8.ofNat_toNat]

theorem isSurrogate_eq_false {r : ℕ} : isSurrogate r = false ↔ r < 0xd800 ∨ 0xdfff < r := by
  simp [isSurrogate, imp_iff_not_or]

/-- The code point of a sequence is one: below the greatest, and no surrogate. -/
theorem rune_valid (h : IsSequence bytes) :
    rune bytes ≤ 0x10ffff ∧ isSurrogate (rune bytes) = false := by
  rw [isSurrogate_eq_false]
  rcases h.cases with ⟨b₀, rfl, h₀⟩ | ⟨b₀, b₁, rfl, h⟩ | ⟨b₀, b₁, b₂, rfl, h⟩ |
    ⟨b₀, b₁, b₂, b₃, rfl, h⟩
  · have hascii : b₀ < 0x80 := by simpa [UInt8.lt_iff_toNat_lt] using h₀
    simp only [rune, hascii, if_true]
    omega
  all_goals
    simp only [rune]
    omega

/-- **A sequence is the one of its code point.** -/
theorem encodeRune_rune (h : IsSequence bytes) : encodeRune (rune bytes) = bytes := by
  have hvalid : ¬(isSurrogate (rune bytes) = true ∨ 0x10ffff < rune bytes) := by
    have := rune_valid h
    simp only [this.2, Bool.false_eq_true, false_or]
    omega
  rcases h.cases with ⟨b₀, rfl, h₀⟩ | ⟨b₀, b₁, rfl, h⟩ | ⟨b₀, b₁, b₂, rfl, h⟩ |
    ⟨b₀, b₁, b₂, b₃, rfl, h⟩
  · have hascii : b₀ < 0x80 := by simpa [UInt8.lt_iff_toNat_lt] using h₀
    simp [rune, hascii, encodeRune, h₀]
  · have hrune : rune [b₀, b₁] = b₀.toNat % 32 * 64 + b₁.toNat % 64 := rfl
    generalize rune [b₀, b₁] = r at hrune ⊢
    unfold encodeRune
    rw [if_neg (by omega), if_pos (by omega), ofNat_eq b₀ (by omega), ofNat_eq b₁ (by omega)]
  · have hrune : rune [b₀, b₁, b₂] =
      b₀.toNat % 16 * 4096 + b₁.toNat % 64 * 64 + b₂.toNat % 64 := rfl
    generalize rune [b₀, b₁, b₂] = r at hrune hvalid ⊢
    unfold encodeRune
    rw [if_neg (by omega), if_neg (by omega), if_neg hvalid, if_pos (by omega),
      ofNat_eq b₀ (by omega), ofNat_eq b₁ (by omega), ofNat_eq b₂ (by omega)]
  · have hrune : rune [b₀, b₁, b₂, b₃] =
      b₀.toNat % 8 * 262144 + b₁.toNat % 64 * 4096 + b₂.toNat % 64 * 64 + b₃.toNat % 64 := rfl
    generalize rune [b₀, b₁, b₂, b₃] = r at hrune hvalid ⊢
    unfold encodeRune
    rw [if_neg (by omega), if_neg (by omega), if_neg hvalid, if_neg (by omega),
      ofNat_eq b₀ (by omega), ofNat_eq b₁ (by omega), ofNat_eq b₂ (by omega),
      ofNat_eq b₃ (by omega)]

/-- A first byte and the bytes that its row of the table asks for. -/
theorem isSequence_cons {first : UInt8} {rest : Bytes} {lo hi : UInt8}
    (hfirst : utf8First first = some (rest.length, lo, hi))
    (hfollow : utf8Follow lo hi rest = true) : IsSequence (first :: rest) := by
  have hlead : ¬first < 0x80 := by
    have := utf8First_rows hfirst
    simp only [UInt8.lt_iff_toNat_lt, UInt8.reduceToNat]
    omega
  simp [IsSequence, utf8Width, hlead, hfirst, hfollow]

theorem utf8First_of_three {first : UInt8} (hlow : 224 ≤ first.toNat) (hhigh : first.toNat ≤ 239) :
    utf8First first = some (2, if first.toNat = 224 then 0xa0 else 0x80,
      if first.toNat = 237 then 0x9f else 0xbf) := by
  simp only [utf8First, UInt8.le_iff_toNat_le, ← UInt8.toNat_inj, UInt8.reduceToNat]
  split_ifs <;> first | rfl | omega

theorem utf8First_of_four {first : UInt8} (hlow : 240 ≤ first.toNat) (hhigh : first.toNat ≤ 244) :
    utf8First first = some (3, if first.toNat = 240 then 0x90 else 0x80,
      if first.toNat = 244 then 0x8f else 0xbf) := by
  simp only [utf8First, UInt8.le_iff_toNat_le, ← UInt8.toNat_inj, UInt8.reduceToNat]
  split_ifs <;> first | rfl | omega

/-- **The bytes of a code point are a sequence.** -/
theorem isSequence_encodeRune {r : ℕ} (hle : r ≤ 0x10ffff) (h : isSurrogate r = false) :
    IsSequence (encodeRune r) := by
  rw [isSurrogate_eq_false] at h
  have hlast := UInt8.toNat_ofNat_of_lt' (show 0x80 + r % 64 < 256 by omega)
  have hmiddle := UInt8.toNat_ofNat_of_lt' (show 0x80 + r / 64 % 64 < 256 by omega)
  have hsecond := UInt8.toNat_ofNat_of_lt' (show 0x80 + r / 4096 % 64 < 256 by omega)
  unfold encodeRune
  split_ifs with h₁ h₂ h₃ h₄
  · apply isSequence_singleton
    rw [UInt8.lt_iff_toNat_lt, UInt8.toNat_ofNat_of_lt' (show r < 256 by omega)]
    exact h₁
  · have hfirst := UInt8.toNat_ofNat_of_lt' (show 0xc0 + r / 64 < 256 by omega)
    have hrow : utf8First (UInt8.ofNat (0xc0 + r / 64)) = some (1, 0x80, 0xbf) := by
      simp only [utf8First, UInt8.le_iff_toNat_le, hfirst, UInt8.reduceToNat]
      rw [if_pos (by omega)]
    refine isSequence_cons hrow ?_
    simp [utf8Follow, UInt8.le_iff_toNat_le]
    omega
  · decide
  · have hfirst := UInt8.toNat_ofNat_of_lt' (show 0xe0 + r / 4096 < 256 by omega)
    refine isSequence_cons (utf8First_of_three (by omega) (by omega)) ?_
    simp only [utf8Follow, utf8Continues, all_cons, all_nil, Bool.and_true,
      Bool.and_eq_true, decide_eq_true_eq, UInt8.le_iff_toNat_le, hlast, hmiddle, hfirst]
    split_ifs <;> simp only [UInt8.reduceToNat] <;> omega
  · have hfirst := UInt8.toNat_ofNat_of_lt' (show 0xf0 + r / 262144 < 256 by omega)
    refine isSequence_cons (utf8First_of_four (by omega) (by omega)) ?_
    simp only [utf8Follow, utf8Continues, all_cons, all_nil, Bool.and_true,
      Bool.and_eq_true, decide_eq_true_eq, UInt8.le_iff_toNat_le, hlast, hmiddle, hsecond, hfirst]
    split_ifs <;> simp only [UInt8.reduceToNat] <;> omega

/-- **A string is valid when it consists of the bytes of code points**, none of which is beyond the
greatest or a surrogate. -/
theorem utf8Valid_iff_runes {text : Bytes} :
    utf8Valid text = true ↔ ∃ runes : List ℕ,
      (∀ r ∈ runes, r ≤ 0x10ffff ∧ isSurrogate r = false) ∧ text = runes.flatMap encodeRune := by
  constructor
  · intro h
    have hparts := isSequence_of_mem h
    refine ⟨(sequences text).map rune, ?_, ?_⟩
    · intro r hr
      obtain ⟨part, hpart, rfl⟩ := mem_map.mp hr
      exact rune_valid (hparts part hpart)
    · rw [flatMap_map, flatMap_congr fun part hpart => encodeRune_rune (hparts part hpart),
        flatMap_def, List.map_id', flatten_sequences]
  · rintro ⟨runes, hrunes, rfl⟩
    rw [flatMap_def, ← append_nil (List.flatten _), utf8Valid_flatten]
    · rfl
    · intro part hpart
      obtain ⟨r, hr, rfl⟩ := mem_map.mp hpart
      exact isSequence_encodeRune (hrunes r hr).1 (hrunes r hr).2

/-! ### White space -/

def isSpace (r : ℕ) : Bool :=
  0x09 ≤ r ∧ r ≤ 0x0d ∨ r = 0x20 ∨ r = 0x85 ∨ r = 0xa0 ∨ r = 0x1680 ∨ 0x2000 ≤ r ∧ r ≤ 0x200a ∨
    r = 0x2028 ∨ r = 0x2029 ∨ r = 0x202f ∨ r = 0x205f ∨ r = 0x3000

/-- `strings.TrimFunc` with `unicode.IsSpace`, on UTF-8. -/
def trimSpace (text : Bytes) : Bytes :=
  let isBlank (part : Bytes) : Bool := isSpace (rune part)
  ((((sequences text).dropWhile isBlank).reverse.dropWhile isBlank).reverse).flatten

end Carcer.Wire
