import Carcer.Guest.Snapshot
import Carcer.Seed.SourceSnapshot

/-!
# The two selection rules

The harness validates the paths of a snapshot with `validateBuildPath`; the seed selects the
files of its store with `build_path_valid`. Every path that the harness accepts is one that the
seed selects, and both sides encode a file the same way.

## Main results

* `selectedPath_of_buildPath`: a path that the harness accepts is selected by the seed
* `encodeSnapshotFiles_eq`: the two encodings agree
* `entries_eq_of_perm`: a store that holds some files holds them in the canonical order
-/

namespace Carcer.Build

open Carcer.Wire Carcer.Guest Carcer.Seed List

theorem eq_append_of_splitOn {path first : Bytes} (hdeep : 2 ≤ (path.splitOn 0x2f).length)
    (hfirst : (path.splitOn 0x2f).head? = some first) : ∃ rest, path = first ++ 0x2f :: rest := by
  have hjoin : [0x2f].intercalate (path.splitOn 0x2f) = path := intercalate_splitOn 0x2f
  match hsplit : path.splitOn 0x2f with
  | [] => simp [hsplit] at hdeep
  | [_] => simp [hsplit] at hdeep
  | c :: c' :: components =>
    rw [hsplit] at hjoin hfirst
    obtain rfl : c = first := by simpa using hfirst
    refine ⟨[0x2f].intercalate (c' :: components), ?_⟩
    rw [← hjoin, intercalate_cons_cons]
    simp

/-- **A path that the harness accepts is selected by the seed.** -/
theorem selectedPath_of_buildPath {path : Bytes} (h : BuildPath path) : SelectedPath path := by
  obtain ⟨rest, rfl⟩ := eq_append_of_splitOn h.deep h.seed
  have hslash : (0x2f : UInt8) ∉ ascii "seed" := by decide
  have hsafe := ((safeComponents_append hslash).mp h.safe).2
  have hdirectory : ascii "seed" ++ 0x2f :: rest = sourceDirectory ++ rest := by
    simp [sourceDirectory, ascii]
  have hrest : rest ≠ [] := by
    rintro rfl
    exact (hsafe [] (by simp)).1 rfl
  rw [hdirectory] at h ⊢
  refine ⟨?_, prefix_append _ _, h.no_nul, ?_⟩
  · have := length_pos_iff.mpr hrest
    simp only [length_append]
    omega
  · rwa [drop_left]

/-- A file of a store as a file of a snapshot. -/
def snapshotFile (entry : Bytes × Bytes) : SnapshotFile := ⟨entry.1, entry.2⟩

theorem encodeSnapshotFiles_eq (entries : List (Bytes × Bytes)) :
    encodeSnapshotFiles (entries.map snapshotFile) =
      leBytes 2 entries.length ++ entries.flatMap entryBytes := by
  rw [encodeSnapshotFiles, length_map, flatMap_map]
  rfl

theorem pairwise_fst_entries {s : Store} (hs : s.WellFormed) :
    (s.entries.map Prod.fst).Pairwise (· < ·) := by
  rw [s.map_fst_entries]
  exact hs.sorted

theorem pairwise_entries {s : Store} (hs : s.WellFormed) :
    (s.entries.map snapshotFile).Pairwise fun a b => a.path < b.path :=
  pairwise_map.mpr (pairwise_map.mp (pairwise_fst_entries hs))

/-- A store that holds the files of a snapshot lists them in the canonical order. -/
theorem entries_eq_of_perm {s : Store} (hs : s.WellFormed) {files}
    (h : (s.entries.map snapshotFile).Perm files) :
    s.entries.map snapshotFile = sortByPath files := by
  have hstrict := pairwise_entries hs
  have hsorted : (sortByPath files).Pairwise fun a b => a.path < b.path := by
    have hnodup : (files.map SnapshotFile.path).Nodup := by
      rw [← (h.map _).nodup_iff]
      exact pairwise_map.mpr (hstrict.imp fun hlt => ne_of_path_lt hlt)
    exact pairwise_sortByPath_of_nodup hnodup
  refine (h.trans (perm_sortByPath files).symm).eq_of_pairwise ?_ hstrict hsorted
  intro a b _ _ hab hba
  exact absurd hab (List.lt_asymm hba)

end Carcer.Build
