import Carcer.Wire.Bytes

/-!
# Numbered names

Names such as `record-000007.json`: a number, padded to a width, between two fixed parts. As long as
the numbers have no more digits than the width, the names are ordered as the numbers are; behind
that they are not.

## Main definitions

* `numbered`: the name of a number

## Main results

* `numbered_injective`: different numbers have different names
* `numbered_lt`: the names of numbers within the width are ordered as the numbers
-/

namespace Carcer.Wire

open List

/-- The name of a number. -/
def numbered (front back : Bytes) (width n : ℕ) : Bytes := front ++ padded width n ++ back

theorem decimalValue_cons (digit : UInt8) (digits : Bytes) :
    decimalValue (digit :: digits) =
      (digit.toNat - 0x30) * 10 ^ digits.length + decimalValue digits := by
  induction digits using List.reverseRecOn with
  | nil => simp [decimalValue]
  | append_singleton digits last ih =>
    rw [← cons_append, decimalValue_append, ih, decimalValue_append, length_append,
      length_singleton, Nat.pow_succ]
    ring

theorem decimalValue_lt {digits : Bytes} (h : ∀ digit ∈ digits, digit ≤ 0x39) :
    decimalValue digits < 10 ^ digits.length := by
  induction digits with
  | nil => simp [decimalValue]
  | cons digit digits ih =>
    obtain ⟨hdigit, hdigits⟩ := forall_mem_cons.mp h
    have hdigit : digit.toNat ≤ 0x39 := UInt8.le_iff_toNat_le.mp hdigit
    have hrest := ih hdigits
    rw [decimalValue_cons, length_cons, Nat.pow_succ]
    have hfirst : (digit.toNat - 0x30) * 10 ^ digits.length ≤ 9 * 10 ^ digits.length :=
      Nat.mul_le_mul_right _ (by omega)
    omega

/-- Digits of the same number of places are ordered as the numbers they stand for. -/
theorem lt_of_decimalValue_lt {digits others : Bytes} (hlength : digits.length = others.length)
    (hdigits : ∀ digit ∈ digits, 0x30 ≤ digit ∧ digit ≤ 0x39)
    (hothers : ∀ digit ∈ others, 0x30 ≤ digit ∧ digit ≤ 0x39)
    (h : decimalValue digits < decimalValue others) : digits < others := by
  induction digits generalizing others with
  | nil =>
    obtain rfl : others = [] := eq_nil_of_length_eq_zero hlength.symm
    exact absurd h (lt_irrefl _)
  | cons digit digits ih =>
    obtain ⟨other, others, rfl⟩ := exists_cons_of_length_eq_add_one hlength.symm
    obtain ⟨hdigit, hdigits⟩ := forall_mem_cons.mp hdigits
    obtain ⟨hother, hothers⟩ := forall_mem_cons.mp hothers
    rw [length_cons, length_cons, Nat.add_right_cancel_iff] at hlength
    rw [decimalValue_cons, decimalValue_cons, ← hlength] at h
    have hbound := decimalValue_lt fun d hd => (hothers d hd).2
    rw [← hlength] at hbound
    rw [cons_lt_cons_iff]
    rcases lt_trichotomy digit.toNat other.toNat with hlt | heq | hgt
    · exact .inl (UInt8.lt_iff_toNat_lt.mpr hlt)
    · exact .inr ⟨UInt8.toNat_inj.mp heq, ih hlength hdigits hothers (by rw [heq] at h; omega)⟩
    -- a higher digit in front outweighs all that follow
    have hfront : (other.toNat - 0x30 + 1) * 10 ^ digits.length ≤
        (digit.toNat - 0x30) * 10 ^ digits.length := by
      have hother : 0x30 ≤ other.toNat := UInt8.le_iff_toNat_le.mp hother.1
      exact Nat.mul_le_mul_right _ (by omega)
    rw [Nat.add_mul, Nat.one_mul] at hfront
    omega

theorem length_decimal_pos (n : ℕ) : 0 < (decimal n).length :=
  length_pos_of_ne_nil (decimal_ne_nil n)

theorem length_decimal_le_iff {width n : ℕ} (hwidth : 0 < width) :
    (decimal n).length ≤ width ↔ n < 10 ^ width := by
  unfold decimal
  split_ifs with hn
  · simp [hn, Nat.succ_le_iff, hwidth]
  · rw [length_reverse, length_map, Nat.digits_length_le_iff (by decide)]

theorem length_decimal_mono {m n : ℕ} (h : m ≤ n) : (decimal m).length ≤ (decimal n).length := by
  have hn := (length_decimal_le_iff (length_decimal_pos n)).mp le_rfl
  exact (length_decimal_le_iff (length_decimal_pos n)).mpr (h.trans_lt hn)

theorem length_padded {width n : ℕ} (hwidth : 0 < width) (h : n < 10 ^ width) :
    (padded width n).length = width := by
  have hdigits := (length_decimal_le_iff hwidth).mpr h
  rw [padded, length_append, length_replicate]
  omega

/-- Padded numbers are ordered as the numbers, up to the width. -/
theorem padded_lt {width i j : ℕ} (hwidth : 0 < width) (hij : i < j) (hj : j < 10 ^ width) :
    padded width i < padded width j := by
  refine lt_of_decimalValue_lt ?_ (fun _ => digit_of_mem_padded) (fun _ => digit_of_mem_padded) ?_
  · rw [length_padded hwidth (hij.trans hj), length_padded hwidth hj]
  · rwa [decimalValue_padded, decimalValue_padded]

theorem append_lt_append {a b : Bytes} (hlength : a.length = b.length) (h : a < b) (x y : Bytes) :
    a ++ x < b ++ y := by
  induction a generalizing b with
  | nil =>
    obtain rfl : b = [] := eq_nil_of_length_eq_zero hlength.symm
    exact absurd h (List.lt_irrefl _)
  | cons first a ih =>
    obtain ⟨second, b, rfl⟩ := exists_cons_of_length_eq_add_one hlength.symm
    rw [length_cons, length_cons, Nat.add_right_cancel_iff] at hlength
    rw [cons_append, cons_append, cons_lt_cons_iff]
    rcases cons_lt_cons_iff.mp h with hlt | ⟨heq, hlt⟩
    · exact .inl hlt
    · exact .inr ⟨heq, ih hlength hlt⟩

theorem numbered_injective (front back : Bytes) (width : ℕ) :
    Function.Injective (numbered front back width) := by
  intro i j h
  have h : front ++ padded width i ++ back = front ++ padded width j ++ back := h
  rw [append_assoc, append_assoc, append_cancel_left_eq,
    append_cancel_right_eq] at h
  exact padded_injective width h

/-- **Names are ordered as their numbers**, up to the width. -/
theorem numbered_lt (front back : Bytes) {width i j : ℕ} (hwidth : 0 < width) (hij : i < j)
    (hj : j < 10 ^ width) : numbered front back width i < numbered front back width j := by
  have hlength : (padded width i).length = (padded width j).length := by
    rw [length_padded hwidth (hij.trans hj), length_padded hwidth hj]
  rw [numbered, numbered, append_assoc, append_assoc]
  exact append_left_lt (append_lt_append hlength (padded_lt hwidth hij hj) back back)

end Carcer.Wire
