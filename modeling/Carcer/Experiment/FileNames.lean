import Carcer.Experiment.Runtime
import Carcer.Store.FeatureFile

/-!
# Names of files

A run keeps its feature requests, its archives and the feedback of operators under names that hold a
number, padded with zeros. Each parser formats the number that it has read and compares the names.

## Main definitions

* `archiveOfName`: what `LoadArchivedGenerations` makes of a name

## Main results

* `fileNames_exact`: the names that are accepted are those that are formatted
-/

namespace Carcer.Experiment

open Carcer.Wire Carcer.Json Carcer.Store.Feature

def parseASCIIUnsigned (value : Bytes) : Option ℕ :=
  if value = [] ∨ value.all isDigit = false then none else parseUint value

/-- What `LoadArchivedGenerations` makes of a name. -/
inductive ArchiveName
  /-- It is skipped. -/
  | other
  /-- "invalid generation archive" -/
  | invalid
  | generation (number : UInt64)

/-- The part of the loop of `LoadArchivedGenerations` that reads a name. -/
def archiveOfName (name : Bytes) : ArchiveName :=
  if ascii "generation-" <+: name then
    match parseASCIIUnsigned (name.drop (ascii "generation-").length) with
    | none => .invalid
    | some value =>
      if name = archiveName (UInt64.ofNat value) then .generation (UInt64.ofNat value) else .invalid
  else .other

/-- `ParseUint` refuses what `parseASCIIUnsigned` has refused before. -/
theorem parseASCIIUnsigned_eq (value : Bytes) : parseASCIIUnsigned value = parseUint value := by
  unfold parseASCIIUnsigned parseUint
  split_ifs <;> grind

theorem archiveOfName_archiveName (number : UInt64) :
    archiveOfName (archiveName number) = .generation number := by
  have hprefix : ascii "generation-" <+: archiveName number := List.prefix_append _ _
  rw [archiveOfName, if_pos hprefix, parseASCIIUnsigned_eq]
  nth_rewrite 1 [archiveName]
  rw [List.drop_left, parseUint_padded]
  simp

theorem eq_archiveName {name : Bytes} {number : UInt64}
    (h : archiveOfName name = .generation number) : name = archiveName number := by
  unfold archiveOfName at h
  split at h
  · split at h
    · cases h
    split at h
    · rename_i hname
      cases h
      exact hname
    · cases h
  · cases h

/-- **The names that are accepted are those that are formatted**, and their numbers are read back;
a name that begins as an archive and is spelled otherwise is refused. -/
theorem fileNames_exact :
    (∀ name id, requestIDFromName name = some id ↔ id ≠ 0 ∧ name = requestName id) ∧
    (∀ name number, parseOperatorFeedbackFilename name = some number ↔
      name = operatorFeedbackFilename number) ∧
    (∀ name number, archiveOfName name = .generation number ↔ name = archiveName number) ∧
    ∀ name, ascii "generation-" <+: name → (∀ number, name ≠ archiveName number) →
      archiveOfName name = .invalid := by
  refine ⟨fun name id => ⟨requestName_of_requestIDFromName, ?_⟩,
    fun name number => ⟨fun h => ?_, ?_⟩, fun name number => ⟨eq_archiveName, ?_⟩,
    fun name hname hother => ?_⟩
  · rintro ⟨hid, rfl⟩
    exact requestIDFromName_name hid
  · obtain ⟨digits, -, h⟩ := Option.bind_eq_some_iff.mp h
    split at h
    · cases h
    obtain ⟨value, -, h⟩ := Option.bind_eq_some_iff.mp h
    split at h
    · rename_i hname
      rw [← hname, Option.some.inj h]
    · cases h
  · rintro rfl
    exact parseOperatorFeedbackFilename_filename number
  · rintro rfl
    exact archiveOfName_archiveName number
  · cases hread : archiveOfName name with
    | invalid => rfl
    | generation number => exact absurd (eq_archiveName hread) (hother number)
    | other =>
      rw [archiveOfName, if_pos hname] at hread
      split at hread
      · cases hread
      · split at hread <;> cases hread

end Carcer.Experiment
