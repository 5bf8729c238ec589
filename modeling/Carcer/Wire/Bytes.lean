import Mathlib

/-!
# Byte strings on a wire

Little-endian words of any width, a cursor that takes a number of bytes off a string or fails,
decimal numbers, and the byte strings that are UTF-8.

## Main definitions

* `leBytes width value`, `leValue bytes`: a little-endian word and the number it stands for
* `takeBytes error length rest`, `failIf c error`: the next bytes and what stands behind them,
  and a check
* `decimal n`, `decimalValue digits`: a decimal number and the number it stands for
* `utf8Valid`: every sequence of the string is a shortest UTF-8 sequence of a scalar value

## Main results

* `leValue_leBytes`, `leBytes_leValue`: the two directions of the word codec
* `decimalValue_decimal`: the digits of a number stand for it
* `takeBytes_eq_ok`, `failIf_eq_ok`, `bind_eq_ok`: what a decoder built from these accepts
-/

namespace Carcer.Wire

open List

/-- A byte string. -/
abbrev Bytes : Type := List UInt8

/-- The bytes of a text of ASCII characters. -/
def ascii (text : String) : Bytes := text.toList.map fun c => UInt8.ofNat c.toNat

/-! ### Little-endian words -/

/-- The `width` low bytes of a number, the lowest first. -/
def leBytes : ℕ → ℕ → Bytes
  | 0, _ => []
  | width + 1, value => UInt8.ofNat value :: leBytes width (value / 256)

/-- The number whose bytes are given, the lowest first. -/
def leValue : Bytes → ℕ
  | [] => 0
  | byte :: bytes => byte.toNat + 256 * leValue bytes

@[simp] theorem length_leBytes (width value : ℕ) : (leBytes width value).length = width := by
  induction width generalizing value with
  | zero => rfl
  | succ width ih => simp [leBytes, ih]

theorem leValue_leBytes {width value : ℕ} (h : value < 256 ^ width) :
    leValue (leBytes width value) = value := by
  induction width generalizing value with
  | zero =>
    rw [pow_zero, Nat.lt_one_iff] at h
    simp [leBytes, leValue, h]
  | succ width ih =>
    rw [pow_succ] at h
    have hlow : (UInt8.ofNat value).toNat = value % 256 := by simp
    rw [leBytes, leValue, ih (by omega), hlow]
    omega

theorem leBytes_leValue (bytes : Bytes) : leBytes bytes.length (leValue bytes) = bytes := by
  induction bytes with
  | nil => rfl
  | cons byte bytes ih =>
    have hbyte := byte.toNat_lt
    have hhigh : (byte.toNat + 256 * leValue bytes) / 256 = leValue bytes := by omega
    have hlow : UInt8.ofNat (byte.toNat + 256 * leValue bytes) = byte :=
      UInt8.toNat_inj.mp (by simp)
    rw [length_cons, leBytes, leValue, hhigh, ih, hlow]

theorem leValue_lt (bytes : Bytes) : leValue bytes < 256 ^ bytes.length := by
  induction bytes with
  | nil => simp [leValue]
  | cons byte bytes ih =>
    have hbyte := byte.toNat_lt
    rw [length_cons, leValue, pow_succ]
    omega

theorem eq_leBytes {bytes : Bytes} {width : ℕ} (h : bytes.length = width) :
    bytes = leBytes width (leValue bytes) := by
  rw [← h, leBytes_leValue]

/-! ### Taking bytes off a string -/

section Take

variable {ε α β : Type} {f : α → Except ε β} {as : List α} {bs : List β}

theorem bind_eq_ok {x : Except ε α} {b : β} : x >>= f = .ok b ↔ ∃ a, x = .ok a ∧ f a = .ok b := by
  cases x with
  | error e =>
    constructor
    · intro h
      cases h
    · rintro ⟨a, h, -⟩
      cases h
  | ok a =>
    constructor
    · exact fun h => ⟨a, rfl, h⟩
    · rintro ⟨a', h, hf⟩
      cases h
      exact hf

theorem mapError_eq_ok {ε' : Type} {x : Except ε α} {f : ε → ε'} {a : α} :
    x.mapError f = .ok a ↔ x = .ok a := by
  cases x <;> simp [Except.mapError]

theorem mapM_eq_ok : as.mapM f = .ok bs ↔ List.Forall₂ (fun a b => f a = .ok b) as bs := by
  induction as generalizing bs with
  | nil =>
    rw [mapM_nil, List.forall₂_nil_left_iff]
    exact ⟨fun h => (Except.ok.inj h).symm, fun h => h ▸ rfl⟩
  | cons a as ih =>
    rw [mapM_cons, bind_eq_ok, List.forall₂_cons_left_iff]
    simp only [bind_eq_ok, ih]
    constructor
    · rintro ⟨b, hb, rest, hrest, h⟩
      exact ⟨b, rest, hb, hrest, (Except.ok.inj h).symm⟩
    · rintro ⟨b, rest, hb, hrest, rfl⟩
      exact ⟨b, hb, rest, hrest, rfl⟩

theorem mem_of_mapM (h : as.mapM f = .ok bs) {b : β} : b ∈ bs ↔ ∃ a ∈ as, f a = .ok b := by
  rw [mapM_eq_ok] at h
  induction h with
  | nil => simp
  | cons hab _ ih =>
    simp only [mem_cons, ih, or_and_right, exists_or, exists_eq_left, hab, Except.ok.injEq]
    rw [eq_comm]

theorem exists_mapM (h : ∀ a ∈ as, ∃ b, f a = .ok b) : ∃ bs, as.mapM f = .ok bs := by
  induction as with
  | nil => exact ⟨[], rfl⟩
  | cons a as ih =>
    obtain ⟨⟨b, hb⟩, has⟩ := forall_mem_cons.mp h
    obtain ⟨bs, hbs⟩ := ih has
    exact ⟨b :: bs, mapM_eq_ok.mpr (.cons hb (mapM_eq_ok.mp hbs))⟩

theorem exists_of_mapM (h : as.mapM f = .ok bs) {a : α} (ha : a ∈ as) : ∃ b, f a = .ok b := by
  rw [mapM_eq_ok] at h
  induction h with
  | nil => cases ha
  | cons hab _ ih =>
    rcases mem_cons.mp ha with rfl | ha
    · exact ⟨_, hab⟩
    · exact ih ha

theorem forM_eq_ok {f : α → Except ε Unit} : as.forM f = .ok () ↔ ∀ a ∈ as, f a = .ok () := by
  induction as with
  | nil => exact ⟨fun _ a ha => absurd ha not_mem_nil, fun _ => rfl⟩
  | cons a as ih =>
    rw [List.forM, bind_eq_ok, forall_mem_cons, ← ih]
    exact ⟨fun ⟨⟨⟩, ha, has⟩ => ⟨ha, has⟩, fun ⟨ha, has⟩ => ⟨(), ha, has⟩⟩

/-- A check of a decoder: `error` when the condition holds. -/
def failIf (c : Prop) [Decidable c] (error : ε) : Except ε Unit :=
  if c then .error error else .ok ()

@[simp] theorem failIf_eq_ok {c : Prop} [Decidable c] {error : ε} {u : Unit} :
    failIf c error = .ok u ↔ ¬c := by
  unfold failIf
  split_ifs with h
  · simp [h]
  · simp [h]

/-- The first `length` bytes and what stands behind them, or `error` when there are fewer. -/
def takeBytes (error : ε) (length : ℕ) (rest : Bytes) : Except ε (Bytes × Bytes) :=
  if length > rest.length then .error error else .ok (rest.take length, rest.drop length)

theorem takeBytes_eq_ok {error : ε} {length : ℕ} {rest bytes rest' : Bytes} :
    takeBytes error length rest = .ok (bytes, rest') ↔
      bytes.length = length ∧ rest = bytes ++ rest' := by
  unfold takeBytes
  split_ifs with h
  · constructor
    · intro h'
      cases h'
    · rintro ⟨rfl, rfl⟩
      simp at h
  rw [Except.ok.injEq, Prod.mk.injEq]
  constructor
  · rintro ⟨rfl, rfl⟩
    exact ⟨by simp; omega, (take_append_drop _ _).symm⟩
  · rintro ⟨rfl, rfl⟩
    simp

end Take

/-! ### Decimal numbers -/

/-- The number that a string of decimal digits stands for. -/
def decimalValue (digits : Bytes) : ℕ :=
  digits.foldl (fun value digit => value * 10 + (digit.toNat - 0x30)) 0

/-- The decimal digits of a number, the highest first. -/
def decimal (n : ℕ) : Bytes :=
  if n = 0 then [0x30] else ((Nat.digits 10 n).map fun d => UInt8.ofNat (0x30 + d)).reverse

theorem decimalValue_append (digits : Bytes) (digit : UInt8) :
    decimalValue (digits ++ [digit]) = decimalValue digits * 10 + (digit.toNat - 0x30) := by
  simp [decimalValue]

theorem decimalValue_take_le (digits : Bytes) (i : ℕ) :
    decimalValue (digits.take i) ≤ decimalValue digits := by
  induction digits using List.reverseRecOn with
  | nil => simp
  | append_singleton digits digit ih =>
    rcases Nat.lt_or_ge digits.length i with hi | hi
    · rw [take_of_length_le (by simp; omega)]
    · rw [take_append_of_le_length hi, decimalValue_append]
      omega

theorem decimal_ne_nil (n : ℕ) : decimal n ≠ [] := by
  unfold decimal
  split_ifs with h
  · simp
  · simpa [Nat.digits_eq_nil_iff_eq_zero] using h

theorem toNat_digit {d : ℕ} (h : d < 10) : (UInt8.ofNat (0x30 + d)).toNat = 0x30 + d :=
  UInt8.toNat_ofNat_of_lt' (by rw [UInt8.size]; omega)

theorem digit_of_mem_decimal {n : ℕ} {digit : UInt8} (h : digit ∈ decimal n) :
    0x30 ≤ digit ∧ digit ≤ 0x39 := by
  unfold decimal at h
  split_ifs at h with hn
  · obtain rfl := mem_singleton.mp h
    decide
  obtain ⟨d, hd, rfl⟩ := mem_map.mp (mem_reverse.mp h)
  have hlt := Nat.digits_lt_base (by decide) hd
  rw [UInt8.le_iff_toNat_le, UInt8.le_iff_toNat_le, toNat_digit hlt]
  exact ⟨Nat.le_add_right _ _, Nat.add_le_add_left (Nat.le_of_lt_succ hlt) _⟩

theorem decimal_ne_zero_cons {n : ℕ} (hn : n ≠ 0) (rest : Bytes) : decimal n ≠ 0x30 :: rest := by
  intro h
  have hne : Nat.digits 10 n ≠ [] := Nat.digits_ne_nil_iff_ne_zero.mpr hn
  have hlast := Nat.getLast_digit_ne_zero 10 hn
  have hlt := Nat.digits_lt_base (by decide : 1 < 10) (getLast_mem hne)
  rw [decimal, if_neg hn] at h
  have hhead := congrArg List.head? h
  rw [head?_reverse, getLast?_map, getLast?_eq_some_getLast hne] at hhead
  have hdigit := congrArg UInt8.toNat (Option.some.inj hhead)
  rw [toNat_digit hlt] at hdigit
  exact hlast (by simpa using hdigit)

theorem decimalValue_decimal (n : ℕ) : decimalValue (decimal n) = n := by
  unfold decimal
  split_ifs with hn
  · rw [hn]
    rfl
  have hvalue : ∀ ds : List ℕ, (∀ d ∈ ds, d < 10) →
      decimalValue (ds.map fun d => UInt8.ofNat (0x30 + d)).reverse = Nat.ofDigits 10 ds := by
    intro ds hds
    induction ds with
    | nil => rfl
    | cons d ds ih =>
      obtain ⟨hd, hds⟩ := forall_mem_cons.mp hds
      rw [map_cons, reverse_cons, decimalValue_append, ih hds, toNat_digit hd,
        Nat.ofDigits_cons]
      omega
  rw [hvalue _ fun d hd => Nat.digits_lt_base (by decide) hd, Nat.ofDigits_digits]

/-- The digits of a number with zeros before them, up to a width. -/
def padded (width n : ℕ) : Bytes := List.replicate (width - (decimal n).length) 0x30 ++ decimal n

theorem digit_of_mem_padded {width n : ℕ} {digit : UInt8} (h : digit ∈ padded width n) :
    0x30 ≤ digit ∧ digit ≤ 0x39 := by
  rcases mem_append.mp h with hzero | hdigit
  · obtain rfl := (mem_replicate.mp hzero).2
    decide
  · exact digit_of_mem_decimal hdigit

theorem padded_ne_nil (width n : ℕ) : padded width n ≠ [] := by
  simp [padded, decimal_ne_nil]

theorem decimalValue_padded (width n : ℕ) : decimalValue (padded width n) = n := by
  have hzeros : ∀ count, decimalValue (List.replicate count 0x30 ++ decimal n) =
      decimalValue (decimal n) := by
    intro count
    induction count with
    | zero => rfl
    | succ count ih => simpa [replicate_succ, decimalValue] using ih
  rw [padded, hzeros, decimalValue_decimal]

theorem padded_injective (width : ℕ) : Function.Injective (padded width) := fun a b h => by
  rw [← decimalValue_padded width a, h, decimalValue_padded]

theorem le_length_padded (width n : ℕ) : width ≤ (padded width n).length := by
  rw [padded, length_append, length_replicate]
  omega

theorem padded_ne_zero_cons {width n : ℕ} (h : width < (padded width n).length) (rest : Bytes)
    (hwidth : 0 < width) : padded width n ≠ 0x30 :: rest := by
  rw [padded, length_append, length_replicate] at h
  have hzeros : width - (decimal n).length = 0 := by omega
  have hn : n ≠ 0 := by
    rintro rfl
    have hone : (decimal 0).length = 1 := rfl
    omega
  rw [padded, hzeros, replicate_zero, nil_append]
  exact decimal_ne_zero_cons hn rest

/-! ### Parts of names -/

/-- What stands between a beginning and an end. -/
def between (front back name : Bytes) : Option Bytes :=
  if front <+: name ∧ back <:+ name then
    some ((name.drop front.length).take (name.length - front.length - back.length))
  else none

theorem between_append (front middle back : Bytes) :
    between front back (front ++ middle ++ back) = some middle := by
  have hfront : front <+: front ++ middle ++ back := ⟨middle ++ back, by simp⟩
  have hback : back <:+ front ++ middle ++ back := ⟨front ++ middle, rfl⟩
  rw [between, if_pos ⟨hfront, hback⟩]
  simp [append_assoc]

/-! ### UTF-8 -/

/-- How many bytes follow a first byte from `0x80` on, and the range of the next one; `none` for
a byte that starts no sequence. -/
def utf8First (byte : UInt8) : Option (ℕ × UInt8 × UInt8) :=
  if 0xc2 ≤ byte ∧ byte ≤ 0xdf then some (1, 0x80, 0xbf)
  else if byte = 0xe0 then some (2, 0xa0, 0xbf)
  else if byte = 0xed then some (2, 0x80, 0x9f)
  else if 0xe1 ≤ byte ∧ byte ≤ 0xef then some (2, 0x80, 0xbf)
  else if byte = 0xf0 then some (3, 0x90, 0xbf)
  else if byte = 0xf4 then some (3, 0x80, 0x8f)
  else if 0xf1 ≤ byte ∧ byte ≤ 0xf3 then some (3, 0x80, 0xbf)
  else none

/-- A byte that follows the second byte of a sequence. -/
def utf8Continues (byte : UInt8) : Bool := 0x80 ≤ byte ∧ byte ≤ 0xbf

/-- The string is valid UTF-8. -/
def utf8Valid : Bytes → Bool
  | [] => true
  | byte :: bytes =>
    if byte < 0x80 then utf8Valid bytes
    else
      match utf8First byte, bytes with
      | some (1, lo, hi), b₁ :: rest => (lo ≤ b₁ ∧ b₁ ≤ hi) && utf8Valid rest
      | some (2, lo, hi), b₁ :: b₂ :: rest =>
        (lo ≤ b₁ ∧ b₁ ≤ hi) && utf8Continues b₂ && utf8Valid rest
      | some (3, lo, hi), b₁ :: b₂ :: b₃ :: rest =>
        (lo ≤ b₁ ∧ b₁ ≤ hi) && utf8Continues b₂ && utf8Continues b₃ && utf8Valid rest
      | _, _ => false

example : utf8Valid [0x73, 0xc3, 0xa9, 0xe2, 0x82, 0xac] = true := by decide

end Carcer.Wire
