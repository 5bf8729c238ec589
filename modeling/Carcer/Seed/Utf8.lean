import Carcer.Machine.Checked
import Carcer.Wire.Runes

/-!
# The UTF-8 check of the seed

`valid_utf8` of `seed/tools.c` computes the code point of every sequence and compares it with the
least one of its length, with the greatest one and with the surrogates. The ranges of the second
byte say the same.

## Main definitions

* `validUtf8`: the function of the source
* `codepoint`: what the inner loop of `valid_utf8` computes from the bytes that follow

## Main results

* `validUtf8_eq`: `valid_utf8` accepts exactly the valid strings
* `validUtf8_accepts_iff`: it accepts the strings of the bytes of code points
-/

namespace Carcer.Seed

open Carcer.Machine Carcer.Wire List

/-! ### The function -/

/-- What `valid_utf8` reads off the first byte of a sequence: the bits of the code point, the least
code point of the length, and the number of bytes that follow. -/
def utf8Lead (first : UInt8) : Option (ℕ × ℕ × ℕ) :=
  if first ≥ 0xc2 ∧ first ≤ 0xdf then some ((first &&& 0x1f).toNat, 0x80, 1)
  else if first ≥ 0xe0 ∧ first ≤ 0xef then some ((first &&& 0x0f).toNat, 0x800, 2)
  else if first ≥ 0xf0 ∧ first ≤ 0xf4 then some ((first &&& 0x07).toNat, 0x10000, 3)
  else none

/-- One round of the loop of `valid_utf8`: the index behind the sequence, or `none` when it is not
valid. -/
def utf8Sequence (data : ByteSource) (length index : ℕ) : Checked (Option ℕ) := do
  let first ← data index
  let index ← addU32 index 1
  if first ≤ 0x7f then return some index
  match utf8Lead first with
  | none => return none
  | some (codepoint, minimum, remaining) =>
    if remaining > (← subU32 length index) then return none
    let round ← scanRange 0 remaining (fun count codepoint => do
      let next ← data (index + count)
      if next &&& 0xc0 ≠ 0x80 then return .stop ()
      return .next ((codepoint <<< 6) ||| (next &&& 0x3f).toNat)) codepoint
    match round with
    | .stop () => return none
    | .next codepoint =>
      if codepoint < minimum ∨ codepoint > 0x10ffff ∨ (codepoint ≥ 0xd800 ∧ codepoint ≤ 0xdfff) then
        return none
      return some (index + remaining)

/-- `valid_utf8`. The loop ends when the index reaches the length; a round moves the index, so
there are at most `length` of them. -/
def validUtf8 (data : ByteSource) (length : ℕ) : Checked Bool := do
  let round ← scanRange 0 length (fun _ index => do
    if index ≥ length then return .next index
    match ← utf8Sequence data length index with
    | none => return .stop false
    | some index => return .next index) 0
  match round with
  | .stop result => return result
  | .next _ => return true

/-! ### Bytes and bits -/

theorem continues_iff (byte : UInt8) :
    byte &&& 0xc0 = 0x80 ↔ 128 ≤ byte.toNat ∧ byte.toNat ≤ 191 := by
  obtain ⟨⟨n⟩⟩ := byte
  revert n
  decide +kernel

theorem toNat_and_low (byte : UInt8) (k : ℕ) {mask : UInt8} (hmask : mask.toNat = 2 ^ k - 1) :
    (byte &&& mask).toNat = byte.toNat % 2 ^ k := by
  rw [UInt8.toNat_and, hmask, Nat.and_two_pow_sub_one_eq_mod]

theorem shiftLeft_or_low (a : ℕ) (byte : UInt8) :
    (a <<< 6) ||| (byte &&& 0x3f).toNat = a * 64 + byte.toNat % 64 := by
  rw [toNat_and_low byte 6 rfl]
  have hlt : byte.toNat % 2 ^ 6 < 2 ^ 6 := Nat.mod_lt _ (Nat.two_pow_pos 6)
  rw [← Nat.shiftLeft_add_eq_or_of_lt hlt, Nat.shiftLeft_eq]
  rfl

/-! ### One sequence -/

/-- What the inner loop of `valid_utf8` makes of the bytes that follow: the bits of the code point,
and `none` when one of the bytes does not continue a sequence. -/
def codepoint : ℕ → Bytes → Option ℕ
  | bits, [] => some bits
  | bits, next :: rest =>
    if next &&& 0xc0 ≠ 0x80 then none
    else codepoint ((bits <<< 6) ||| (next &&& 0x3f).toNat) rest

/-- The comparisons behind the inner loop. -/
def codepointValid (minimum codepoint : ℕ) : Bool :=
  ¬(codepoint < minimum ∨ codepoint > 0x10ffff ∨ (codepoint ≥ 0xd800 ∧ codepoint ≤ 0xdfff))

theorem utf8Lead_none_iff {first : UInt8} (hfirst : ¬first ≤ 0x7f) :
    utf8Lead first = none ↔ utf8First first = none := by
  obtain ⟨⟨n⟩⟩ := first
  revert n
  decide +kernel

theorem codepoint_nil (bits : ℕ) : codepoint bits [] = some bits := rfl

theorem codepoint_cons (bits : ℕ) (next : UInt8) (rest : Bytes) :
    codepoint bits (next :: rest) =
      if 128 ≤ next.toNat ∧ next.toNat ≤ 191 then codepoint (bits * 64 + next.toNat % 64) rest
      else none := by
  simp only [codepoint, shiftLeft_or_low, ← continues_iff, ite_not]

theorem utf8Lead_eq_some {first : UInt8} {bits minimum remaining : ℕ}
    (h : utf8Lead first = some (bits, minimum, remaining)) :
    194 ≤ first.toNat ∧ first.toNat ≤ 223 ∧ bits = first.toNat % 32 ∧ minimum = 0x80 ∧
        remaining = 1 ∨
      224 ≤ first.toNat ∧ first.toNat ≤ 239 ∧ bits = first.toNat % 16 ∧ minimum = 0x800 ∧
        remaining = 2 ∨
      240 ≤ first.toNat ∧ first.toNat ≤ 244 ∧ bits = first.toNat % 8 ∧ minimum = 0x10000 ∧
        remaining = 3 := by
  have hbits₅ : (first &&& 0x1f).toNat = first.toNat % 32 := toNat_and_low first 5 rfl
  have hbits₄ : (first &&& 0x0f).toNat = first.toNat % 16 := toNat_and_low first 4 rfl
  have hbits₃ : (first &&& 0x07).toNat = first.toNat % 8 := toNat_and_low first 3 rfl
  unfold utf8Lead at h
  simp only [ge_iff_le, UInt8.le_iff_toNat_le, UInt8.reduceToNat] at h
  split_ifs at h <;> simp only [Option.some.injEq, Prod.mk.injEq] at h <;> omega

theorem utf8Follow_cons_iff {lo hi second : UInt8} {rest : Bytes} :
    utf8Follow lo hi (second :: rest) = true ↔
      (lo.toNat ≤ second.toNat ∧ second.toNat ≤ hi.toNat) ∧
        ∀ byte ∈ rest, 128 ≤ byte.toNat ∧ byte.toNat ≤ 191 := by
  simp [utf8Follow, UInt8.le_iff_toNat_le, utf8Continues_eq]

theorem codepointValid_iff {minimum codepoint : ℕ} :
    codepointValid minimum codepoint = true ↔
      minimum ≤ codepoint ∧ codepoint ≤ 0x10ffff ∧ (codepoint < 0xd800 ∨ 0xdfff < codepoint) := by
  simp only [codepointValid, decide_eq_true_eq]
  omega

theorem codepoint_any_iff {bits minimum : ℕ} {rest : Bytes} :
    (codepoint bits rest).any (codepointValid minimum) = true ↔
      (∀ byte ∈ rest, 128 ≤ byte.toNat ∧ byte.toNat ≤ 191) ∧
        codepointValid minimum
          (rest.foldl (fun bits byte => bits * 64 + byte.toNat % 64) bits) := by
  induction rest generalizing bits with
  | nil => simp [codepoint_nil]
  | cons byte rest ih =>
    rw [codepoint_cons, forall_mem_cons, foldl_cons, and_assoc, ← ih]
    split_ifs with h <;> simp [h]

/-- Both tables give a first byte the same number of bytes that follow, and the comparisons of the
code point are the range of the second byte. -/
theorem codepoint_any {first : UInt8} {bits minimum remaining count : ℕ} {lo hi : UInt8}
    (hlead : utf8Lead first = some (bits, minimum, remaining))
    (hfirst : utf8First first = some (count, lo, hi)) :
    remaining = count ∧ ∀ rest : Bytes, rest.length = count →
      (codepoint bits rest).any (codepointValid minimum) = utf8Follow lo hi rest := by
  have hsame : remaining = count := by
    rcases utf8Lead_eq_some hlead with h | h | h <;>
      rcases utf8First_rows hfirst with h' | h' | h' | h' | h' | h' | h' <;> omega
  refine ⟨hsame, fun rest hrest => ?_⟩
  rw [Bool.eq_iff_iff, codepoint_any_iff, codepointValid_iff]
  rcases utf8Lead_eq_some hlead with h | h | h
  · obtain ⟨b₁, rfl⟩ := length_eq_one_iff.mp (show rest.length = 1 by omega)
    rcases utf8First_rows hfirst with ⟨-, rfl, rfl, h'⟩ | h' | h' | h' | h' | h' | h' <;>
      first | omega | simp [utf8Follow_cons_iff]
    omega
  · obtain ⟨b₁, b₂, rfl⟩ := length_eq_two.mp (show rest.length = 2 by omega)
    rcases utf8First_rows hfirst with h' | ⟨-, rfl, rfl, h'⟩ | ⟨-, rfl, rfl, h'⟩ |
      ⟨-, rfl, rfl, h'⟩ | h' | h' | h' <;> first | omega | simp [utf8Follow_cons_iff]
    all_goals omega
  obtain ⟨b₁, b₂, b₃, rfl⟩ := length_eq_three.mp (show rest.length = 3 by omega)
  rcases utf8First_rows hfirst with h' | h' | h' | h' | ⟨-, rfl, rfl, h'⟩ | ⟨-, rfl, rfl, h'⟩ |
    ⟨-, rfl, rfl, h'⟩ <;> first | omega | simp [utf8Follow_cons_iff]
  all_goals omega

section Scan

variable {data : ByteSource} {bytes : Bytes}

theorem scan_codepoint (hdata : Points data bytes) {index remaining : ℕ}
    (hfit : index + remaining ≤ bytes.length) (bits : ℕ) :
    scanRange 0 remaining (fun count codepoint => do
      let next ← data (index + count)
      if next &&& 0xc0 ≠ 0x80 then return .stop ()
      return .next ((codepoint <<< 6) ||| (next &&& 0x3f).toNat)) bits =
      .ok (match codepoint bits ((bytes.drop index).take remaining) with
        | none => .stop ()
        | some codepoint => .next codepoint) := by
  -- the rest of the loop, from any of its rounds on
  have hloop : ∀ count i bits, index + i + count ≤ bytes.length →
      loopScan (fun count codepoint => do
        let next ← data (index + count)
        if next &&& 0xc0 ≠ 0x80 then return .stop ()
        return .next ((codepoint <<< 6) ||| (next &&& 0x3f).toNat)) count i bits =
        .ok (match codepoint bits ((bytes.drop (index + i)).take count) with
          | none => .stop ()
          | some codepoint => .next codepoint) := by
    intro count
    induction count with
    | zero => intro i bits _; rfl
    | succ count ih =>
      intro i bits hle
      have hlt : index + i < bytes.length := by omega
      rw [loopScan, hdata _ hlt, ok_bind, drop_eq_getElem_cons hlt, take_succ_cons,
        codepoint]
      by_cases hstop : bytes[index + i] &&& 0xc0 ≠ 0x80
      · rw [if_pos hstop, if_pos hstop]
        rfl
      · rw [if_neg hstop, if_neg hstop]
        exact ih (i + 1) _ (by omega)
  exact hloop remaining 0 bits (by omega)

/-- One round of the outer loop takes the first sequence off what is left. -/
theorem utf8Sequence_eq (hdata : Points data bytes) (hword : bytes.length < 2 ^ 32) {index : ℕ}
    (hindex : index < bytes.length) :
    utf8Sequence data bytes.length index =
      .ok ((utf8Width (bytes.drop index)).map (index + ·)) := by
  have hdrop := drop_eq_getElem_cons hindex
  have hlength : (bytes.drop (index + 1)).length = bytes.length - (index + 1) := length_drop
  unfold utf8Sequence
  rw [hdata index hindex, ok_bind, addU32_eq (by omega), ok_bind, hdrop, utf8Width]
  by_cases hascii : bytes[index] ≤ 0x7f
  · have hascii' : bytes[index] < 0x80 := by
      rw [UInt8.le_iff_toNat_le] at hascii
      rw [UInt8.lt_iff_toNat_lt]
      exact Nat.lt_succ_of_le hascii
    rw [if_pos hascii, if_pos hascii']
    rfl
  have hascii' : ¬bytes[index] < 0x80 := fun h => hascii (by
    rw [UInt8.lt_iff_toNat_lt] at h
    rw [UInt8.le_iff_toNat_le]
    exact Nat.le_of_lt_succ h)
  rw [if_neg hascii, if_neg hascii']
  have hnone := utf8Lead_none_iff hascii
  rcases hlead : utf8Lead bytes[index] with _ | lead
  · rw [hnone.mp hlead]; rfl
  obtain ⟨bits, minimum, remaining⟩ := lead
  obtain ⟨⟨count, lo, hi⟩, hfirst⟩ : ∃ row, utf8First bytes[index] = some row :=
    Option.ne_none_iff_exists'.mp fun h => by rw [hnone.mpr h] at hlead; cases hlead
  obtain ⟨rfl, hrange⟩ := codepoint_any hlead hfirst
  rw [hfirst]
  simp only
  rw [subU32_eq (by omega), ok_bind, hlength]
  by_cases hshort : remaining > bytes.length - (index + 1)
  · rw [if_pos hshort, if_neg (by omega)]
    rfl
  rw [if_neg hshort, scan_codepoint hdata (by omega), ok_bind]
  have hrest := hrange ((bytes.drop (index + 1)).take remaining) (by simp; omega)
  cases hbits : codepoint bits ((bytes.drop (index + 1)).take remaining) with
  | none =>
    rw [hbits, Option.any_none] at hrest
    rw [← hrest, if_neg (by simp)]
    rfl
  | some value =>
    rw [hbits, Option.any_some] at hrest
    simp only
    rw [← hrest]
    by_cases hvalid : codepointValid minimum value = true
    · rw [if_neg (of_decide_eq_true hvalid), if_pos ⟨by omega, hvalid⟩, Option.map_some,
        Nat.add_assoc, Nat.add_comm 1]
      rfl
    · rw [if_pos (not_not.mp fun h => hvalid (decide_eq_true h)), if_neg fun h => hvalid h.2]
      rfl

/-- **`valid_utf8` accepts exactly the valid strings**, and meets no fault. -/
theorem validUtf8_eq (hdata : Points data bytes) (hword : bytes.length < 2 ^ 32) :
    validUtf8 data bytes.length = .ok (utf8Valid bytes) := by
  suffices h : Returns (validUtf8 data bytes.length) fun result => result = utf8Valid bytes by
    obtain ⟨result, hresult, rfl⟩ := h
    exact hresult
  unfold validUtf8
  -- what is left decides the string, and every round takes at least one byte off it
  refine (scanRange_returns (fun i index => utf8Valid bytes = utf8Valid (bytes.drop index) ∧
      (i ≤ index ∨ bytes.length ≤ index))
    (fun result => result = utf8Valid bytes) (Nat.zero_le bytes.length)
    ⟨by rw [drop_zero], .inl le_rfl⟩ fun i index _ hi hleft => ?_).bind
    fun round hends => ?_
  · obtain ⟨hvalid, hmove⟩ := hleft
    by_cases hend : index ≥ bytes.length
    · rw [if_pos hend]
      exact returns_pure.mpr ⟨hvalid, .inr hend⟩
    have hlt : index < bytes.length := by omega
    have hne : bytes.drop index ≠ [] := fun h => by
      rw [drop_eq_nil_iff] at h
      omega
    rw [if_neg hend, utf8Sequence_eq hdata hword hlt, ok_bind]
    rw [utf8Valid_eq hne] at hvalid
    cases hwidth : utf8Width (bytes.drop index) with
    | none =>
      rw [hwidth] at hvalid
      exact returns_pure.mpr hvalid.symm
    | some width =>
      have hpos := utf8Width_pos hwidth
      rw [hwidth, Option.any_some, drop_drop] at hvalid
      exact returns_pure.mpr ⟨hvalid, hmove.imp (fun h => by simp only; omega) fun h => by omega⟩
  · cases round with
    | stop result => exact returns_pure.mpr hends
    | next index =>
      obtain ⟨hvalid, hend⟩ := hends
      rw [drop_of_length_le (by omega)] at hvalid
      exact returns_pure.mpr hvalid.symm

end Scan

/-- **`valid_utf8` accepts the well-formed strings.** Whatever the bytes behind the string are, and
whether they can be read at all, it returns, and it accepts when the string consists of the shortest
forms of code points that are not surrogates. -/
theorem validUtf8_accepts_iff {data : ByteSource} {bytes : Bytes} (hdata : Points data bytes)
    (hword : bytes.length < 2 ^ 32) :
    ∃ accepted, validUtf8 data bytes.length = .ok accepted ∧ accepted = utf8Valid bytes ∧
      (accepted = true ↔ ∃ runes : List ℕ,
        (∀ r ∈ runes, r ≤ 0x10ffff ∧ ¬(0xd800 ≤ r ∧ r ≤ 0xdfff)) ∧
        bytes = runes.flatMap encodeRune) := by
  refine ⟨utf8Valid bytes, validUtf8_eq hdata hword, rfl, ?_⟩
  rw [utf8Valid_iff_runes]
  simp only [isSurrogate, decide_eq_false_iff_not]

/-- Two bytes of one code point, behind which nothing can be read. -/
theorem two_bytes_accepted : readList [0xc3, 0xa9] 2 = .error (.indexOutOfRange 2 2) ∧
    validUtf8 (readList [0xc3, 0xa9]) 2 = .ok true := by
  obtain ⟨accepted, hreturns, rfl, -⟩ :=
    validUtf8_accepts_iff (points_readList [0xc3, 0xa9]) (by decide)
  exact ⟨rfl, hreturns⟩

end Carcer.Seed
