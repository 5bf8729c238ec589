import Carcer.Wire.Bytes

/-!
# UTF-8 one sequence at a time

`utf8Valid` decides a whole string. A scanner takes one sequence after the other off the string and
computes code points; the lemmas here connect the two.

## Main definitions

* `utf8Width`: the number of bytes of the first sequence of a string

## Main results

* `utf8Valid_eq`: a string is valid when its first sequence is and what stands behind it is
-/

namespace Carcer.Wire

/-- The bytes that follow a first byte: the second is in a range, the others are any that continue
a sequence. -/
def utf8Follow (lo hi : UInt8) : Bytes → Bool
  | [] => true
  | second :: rest => (lo ≤ second ∧ second ≤ hi) && rest.all utf8Continues

/-- The number of bytes of the first sequence of a string, and `none` when it is not valid. -/
def utf8Width : Bytes → Option ℕ
  | [] => none
  | byte :: bytes =>
    if byte < 0x80 then some 1
    else
      match utf8First byte with
      | none => none
      | some (count, lo, hi) =>
        if count ≤ bytes.length ∧ utf8Follow lo hi (bytes.take count) then some (count + 1)
        else none

theorem utf8First_rows {first : UInt8} {count : ℕ} {lo hi : UInt8}
    (h : utf8First first = some (count, lo, hi)) :
    count = 1 ∧ lo = 0x80 ∧ hi = 0xbf ∧ 194 ≤ first.toNat ∧ first.toNat ≤ 223 ∨
      count = 2 ∧ lo = 0xa0 ∧ hi = 0xbf ∧ first.toNat = 224 ∨
      count = 2 ∧ lo = 0x80 ∧ hi = 0x9f ∧ first.toNat = 237 ∨
      count = 2 ∧ lo = 0x80 ∧ hi = 0xbf ∧ 225 ≤ first.toNat ∧ first.toNat ≤ 239 ∧
        first.toNat ≠ 237 ∨
      count = 3 ∧ lo = 0x90 ∧ hi = 0xbf ∧ first.toNat = 240 ∨
      count = 3 ∧ lo = 0x80 ∧ hi = 0x8f ∧ first.toNat = 244 ∨
      count = 3 ∧ lo = 0x80 ∧ hi = 0xbf ∧ 241 ≤ first.toNat ∧ first.toNat ≤ 243 := by
  unfold utf8First at h
  simp only [UInt8.le_iff_toNat_le, UInt8.reduceToNat, ← UInt8.toNat_inj] at h
  split_ifs at h <;> simp only [Option.some.injEq, Prod.mk.injEq] at h <;>
    obtain ⟨rfl, rfl, rfl⟩ := h <;> simp <;> omega

theorem utf8Width_pos {bytes : Bytes} {width : ℕ} (h : utf8Width bytes = some width) :
    0 < width := by
  unfold utf8Width at h
  split at h
  · cases h
  split_ifs at h
  · cases h
    exact Nat.one_pos
  split at h
  · cases h
  split_ifs at h
  cases h
  exact Nat.succ_pos _

/-- **A string is valid when its first sequence is valid and what stands behind it is.** -/
theorem utf8Valid_eq {bytes : Bytes} (hne : bytes ≠ []) :
    utf8Valid bytes = (utf8Width bytes).any fun width => utf8Valid (bytes.drop width) := by
  rcases bytes with _ | ⟨byte, bytes⟩
  · exact absurd rfl hne
  rw [utf8Valid.eq_def]
  simp only [utf8Width]
  by_cases hascii : byte < 0x80
  · simp [hascii]
  simp only [hascii, if_false]
  rcases hfirst : utf8First byte with _ | lead
  · simp
  obtain ⟨count, lo, hi⟩ := lead
  -- one case for each length of a sequence, and for each number of bytes that are there
  have hcount : count = 1 ∨ count = 2 ∨ count = 3 := by
    have := utf8First_rows hfirst
    omega
  rcases hcount with rfl | rfl | rfl
  · rcases bytes with _ | ⟨b₁, rest⟩
    · rfl
    · by_cases h : lo ≤ b₁ ∧ b₁ ≤ hi <;> simp [utf8Follow, h]
  · rcases bytes with _ | ⟨b₁, _ | ⟨b₂, rest⟩⟩
    · rfl
    · rfl
    · by_cases h : lo ≤ b₁ ∧ b₁ ≤ hi <;> by_cases h₂ : utf8Continues b₂ = true <;>
        simp [utf8Follow, h, h₂]
  rcases bytes with _ | ⟨b₁, _ | ⟨b₂, _ | ⟨b₃, rest⟩⟩⟩
  · rfl
  · rfl
  · rfl
  · by_cases h : lo ≤ b₁ ∧ b₁ ≤ hi <;> by_cases h₂ : utf8Continues b₂ = true <;>
      by_cases h₃ : utf8Continues b₃ = true <;> simp [utf8Follow, h, h₂, h₃]

end Carcer.Wire
