import Carcer.Wire.Numbered

/-!
# Records of extended headers

`paxRecord` of `internal/store/provided_assets.go`: a record begins with its own length in decimal
digits, which the loop finds by counting the digits until the count does not change the length.

## Main definitions

* `paxRecord`: the record of a key and a value

## Main results

* `paxRecord_length`: the loop ends, and the number in front of a record is its length
-/

namespace Carcer.Store

open Carcer.Wire

/-- The loop of `paxRecord`, which ends when the length does not change; `rounds` bounds it. -/
def paxLength (lengthWithoutDigits : ℕ) : ℕ → ℕ → Option ℕ
  | 0, _ => none
  | rounds + 1, digits =>
    let length := lengthWithoutDigits + digits
    let next := lengthWithoutDigits + (decimal length).length
    if next = length then some length
    else paxLength lengthWithoutDigits rounds (decimal next).length

def paxRecord (rounds : ℕ) (key value : Bytes) : Option Bytes :=
  (paxLength (key.length + value.length + 3) rounds 0).map fun length =>
    decimal length ++ ascii " " ++ key ++ ascii "=" ++ value ++ ascii "\n"

/-- Adding the number of its digits, and one, to a number adds at most one digit. -/
theorem length_decimal_add (n : ℕ) :
    (decimal (n + ((decimal n).length + 1))).length ≤ (decimal n).length + 1 := by
  have hn := (length_decimal_le_iff (length_decimal_pos n)).mp le_rfl
  have hdigits : (decimal n).length < 10 ^ (decimal n).length := Nat.lt_pow_self (by decide)
  rw [length_decimal_le_iff (Nat.succ_pos _), Nat.pow_succ]
  omega

/-- **The loop ends in its second round**, with a length that counts its own digits. -/
theorem paxLength_eq (base : ℕ) : ∃ length,
    (∀ rounds, paxLength base (rounds + 2) 0 = some length) ∧
      length = base + (decimal length).length := by
  obtain ⟨count, hcount⟩ : ∃ count, (decimal base).length = count := ⟨_, rfl⟩
  have hpos := length_decimal_pos base
  have hlast := length_decimal_add base
  rw [hcount] at hpos hlast
  -- the digits that the second round tries, which may be one more than those of `base`
  have hfix : (decimal (base + (decimal (base + count)).length)).length =
      (decimal (base + count)).length := by
    have hfirst := length_decimal_mono (Nat.le_add_right base count)
    have hnext := length_decimal_mono (show base + count ≤ base + (count + 1) by omega)
    rw [hcount] at hfirst
    rcases Nat.eq_or_lt_of_le hfirst with heq | hlt
    · rw [← heq, ← heq]
    · have heq : (decimal (base + count)).length = count + 1 := by omega
      rw [heq] at hnext ⊢
      omega
  refine ⟨base + (decimal (base + count)).length, fun rounds => ?_, by rw [hfix]⟩
  simp only [paxLength, Nat.add_zero, hcount]
  rw [if_neg (by omega), hfix, if_pos rfl]

/-- **A record begins with its length.** The loop ends, whatever the key and the value. -/
theorem paxRecord_length (key value : Bytes) : ∃ record,
    (∀ rounds, paxRecord (rounds + 2) key value = some record) ∧
      record = decimal record.length ++ ascii " " ++ key ++ ascii "=" ++ value ++ ascii "\n" := by
  obtain ⟨length, hloop, hlength⟩ := paxLength_eq (key.length + value.length + 3)
  refine ⟨decimal length ++ ascii " " ++ key ++ ascii "=" ++ value ++ ascii "\n",
    fun rounds => ?_, ?_⟩
  · rw [paxRecord, hloop, Option.map_some]
  · have hcount : (decimal length ++ ascii " " ++ key ++ ascii "=" ++ value ++
        ascii "\n").length = length := by
      simp [ascii]
      omega
    rw [hcount]

end Carcer.Store
