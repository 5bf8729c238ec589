import Mathlib.Data.List.Induction

/-!
# Logs

A log is a list of entries, the oldest first.

## Main definitions

* `latest`: the latest entry of which something holds

## Main results

* `latest_concat_of`, `latest_concat_of_not`: one more entry
* `latest_congr`: what holds of the same entries has the same latest entry
-/

namespace Carcer.Machine

open List

variable {α : Type}

/-! ### The latest entry -/

section Latest

variable {p q : α → Prop} {entries : List α} {entry : α}

/-- **The latest entry of a log of which something holds.** -/
noncomputable def latest (p : α → Prop) (entries : List α) : Option α :=
  entries.reverse.find? fun entry => @decide (p entry) (Classical.propDecidable _)

theorem latest_concat_of (h : p entry) : latest p (entries ++ [entry]) = some entry := by
  simp [latest, h]

theorem latest_concat_of_not (h : ¬p entry) : latest p (entries ++ [entry]) = latest p entries := by
  simp [latest, h]

theorem latest_eq_none (h : ∀ entry ∈ entries, ¬p entry) : latest p entries = none := by
  rw [latest, find?_eq_none]
  intro entry hentry
  simpa using h entry (mem_reverse.mp hentry)

theorem latest_eq_some (h : latest p entries = some entry) : entry ∈ entries ∧ p entry :=
  ⟨mem_reverse.mp (mem_of_find?_eq_some h), by simpa using find?_some h⟩

theorem latest_isSome : (latest p entries).isSome ↔ ∃ entry ∈ entries, p entry := by
  rw [latest, find?_isSome]
  simp

theorem latest_congr (h : ∀ entry ∈ entries, p entry ↔ q entry) :
    latest p entries = latest q entries := by
  induction entries using List.reverseRecOn with
  | nil => rfl
  | append_singleton entries entry ih =>
    have hbefore := ih fun other hother => h other (mem_append_left _ hother)
    have hentry := h entry (mem_append_right _ (mem_singleton_self _))
    by_cases hp : p entry
    · rw [latest_concat_of hp, latest_concat_of (hentry.mp hp)]
    · rw [latest_concat_of_not hp, latest_concat_of_not (hentry.not.mp hp), hbefore]

end Latest

end Carcer.Machine
