import Carcer.Wire.Bytes

/-!
# Archived histories

The metadata of the generations of a run, and the check that the runtime makes of them before it
continues: the generations are numbered from zero on, and each follows a completed one.

## Main definitions

* `ArchiveMetadata`: what an archive says about its generation
* `validateArchivedHistory`: the check of the source
* `runArchivedHistory`: the same check as it runs, where a slice may be out of range
* `Extends`, `History`: a history, generation by generation

## Main results

* `validateArchivedHistory_eq_ok`: the check accepts the histories, and nothing else
* `runArchivedHistory_eq_some`, `runArchivedHistory_nil`: the check runs to its end unless there is
  no archive at all
-/

namespace Carcer.Experiment

open Carcer.Wire List

/-- How a generation follows its parent. -/
inductive Transition
  | initial
  | successor
  | rollback
  deriving DecidableEq

inductive Outcome
  | completed
  | aborted
  deriving DecidableEq

/-- What `metadata.json` says. -/
structure ArchiveMetadata where
  generation : UInt64
  parent : Option UInt64
  transition : Transition
  outcome : Outcome
  deriving DecidableEq

/-- What `parseGenerationMetadata` accepts: the first generation has no parent, the others have an
earlier one. -/
def ArchiveMetadata.WellFormed (archive : ArchiveMetadata) : Prop :=
  if archive.generation = 0 then archive.parent = none ∧ archive.transition = .initial
  else (∃ parent, archive.parent = some parent ∧ parent < archive.generation) ∧
    archive.transition ≠ .initial

/-- An earlier parent is looked for in the metadata. -/
instance (archive : ArchiveMetadata) : Decidable archive.WellFormed :=
  have : Decidable (∃ parent, archive.parent = some parent ∧ parent < archive.generation) :=
    decidable_of_iff (archive.parent.any (· < archive.generation) = true) (by
      cases archive.parent <;> simp)
  inferInstanceAs (Decidable (if archive.generation = 0 then
      archive.parent = none ∧ archive.transition = .initial
    else (∃ parent, archive.parent = some parent ∧ parent < archive.generation) ∧
      archive.transition ≠ .initial))

/-- The errors of a history. -/
inductive HistoryError
  /-- "generation archive history is not contiguous" -/
  | notContiguous
  /-- "generation %d has no completed parent" -/
  | noCompletedParent (generation : UInt64)
  /-- "generation %d has invalid successor ancestry" -/
  | successorAncestry (generation : UInt64)
  /-- "generation %d has invalid rollback ancestry" -/
  | rollbackAncestry (generation : UInt64)
  deriving DecidableEq

/-- The checks of one archive that is not the first. -/
def validateAncestry (archives : List ArchiveMetadata) (archive : ArchiveMetadata) :
    Except HistoryError Unit :=
  match archive.parent with
  | none => .error (.noCompletedParent archive.generation)
  | some parent => do
    -- `byGeneration` holds every archive, since no two have one number
    failIf ((archives.find? fun other => other.generation = parent).map ArchiveMetadata.outcome ≠
      some .completed) (.noCompletedParent archive.generation)
    failIf (archive.transition = .successor ∧ parent ≠ archive.generation - 1)
      (.successorAncestry archive.generation)
    failIf (archive.transition = .rollback ∧ parent = archive.generation - 1)
      (.rollbackAncestry archive.generation)

def validateArchivedHistory (archives : List ArchiveMetadata) : Except HistoryError Unit := do
  failIf (¬(archives.map ArchiveMetadata.generation).Nodup) .notContiguous
  failIf (archives.map ArchiveMetadata.generation ≠ (List.range archives.length).map UInt64.ofNat)
    .notContiguous
  archives.tail.forM (validateAncestry archives)

/-- The slice `list[from:]`, or `none` where it is out of range and the program panics. -/
def sliceFrom {α : Type} (start : ℕ) (list : List α) : Option (List α) :=
  if start ≤ list.length then some (list.drop start) else none

/-- `ValidateArchivedHistory` as it runs: `none` is a panic. The first two loops end with their own
error before the slice of the third one is taken. -/
def runArchivedHistory (archives : List ArchiveMetadata) : Option (Except HistoryError Unit) :=
  if ¬(archives.map ArchiveMetadata.generation).Nodup then some (.error .notContiguous)
  else if archives.map ArchiveMetadata.generation ≠
      (List.range archives.length).map UInt64.ofNat then some (.error .notContiguous)
  else (sliceFrom 1 archives).map fun rest => rest.forM (validateAncestry archives)

theorem runArchivedHistory_nil : runArchivedHistory [] = none := by decide

variable {archives : List ArchiveMetadata} {next : ArchiveMetadata} {archive : ArchiveMetadata}
  {i : ℕ}

theorem runArchivedHistory_eq_some (h : archives ≠ []) :
    runArchivedHistory archives = some (validateArchivedHistory archives) := by
  have hlength : 1 ≤ archives.length := length_pos_iff.mpr h
  rw [runArchivedHistory, validateArchivedHistory, sliceFrom, if_pos hlength, Option.map_some,
    drop_one]
  -- either loop stops both at the same error
  by_cases hnodup : (archives.map ArchiveMetadata.generation).Nodup
  · by_cases hcontiguous : archives.map ArchiveMetadata.generation =
        (List.range archives.length).map UInt64.ofNat
    · rw [if_neg (not_not.mpr hnodup), if_neg (not_not.mpr hcontiguous), failIf,
        if_neg (not_not.mpr hnodup), failIf, if_neg (not_not.mpr hcontiguous)]
      rfl
    · rw [if_neg (not_not.mpr hnodup), if_pos hcontiguous, failIf,
        if_neg (not_not.mpr hnodup), failIf, if_pos hcontiguous]
      rfl
  · rw [if_pos hnodup, failIf, if_pos hnodup]
    rfl

/-! ### Histories, generation by generation -/

/-- **One more generation**: it has the next number, and follows an earlier completed one, the last
one as a successor and any other as a rollback. -/
structure Extends (archives : List ArchiveMetadata) (next : ArchiveMetadata) : Prop where
  number : next.generation.toNat = archives.length
  ancestry : archives = [] ∧ next.parent = none ∧ next.transition = .initial ∨
    ∃ i parent, archives[i]? = some parent ∧ next.parent = some parent.generation ∧
      parent.outcome = .completed ∧
      (next.transition = .successor ∧ i + 1 = archives.length ∨
        next.transition = .rollback ∧ i + 1 ≠ archives.length)

/-- A history: every generation extends the ones before it. -/
def History (archives : List ArchiveMetadata) : Prop :=
  ∀ before next after, archives = before ++ next :: after → Extends before next

theorem history_nil : History [] := by
  intro before next after h
  simp at h

theorem History.of_append {archives more} (h : History (archives ++ more)) : History archives := by
  rintro before next after rfl
  exact h before next (after ++ more) (by simp)

/-- What every element meets behind those before it, one more element meets as well. -/
theorem forall_split_concat {α : Type} {P : List α → α → Prop} {l : List α} {last : α}
    (h : ∀ before next after, l = before ++ next :: after → P before next) (hlast : P l last) :
    ∀ before next after, l ++ [last] = before ++ next :: after → P before next := by
  intro before next after heq
  rcases eq_nil_or_concat after with rfl | ⟨after, last', rfl⟩
  · obtain ⟨rfl, hnext⟩ := List.append_inj' heq rfl
    obtain rfl := singleton_inj.mp hnext
    exact hlast
  · rw [concat_eq_append, ← cons_append, ← append_assoc] at heq
    exact h before next after (List.append_inj' heq rfl).1

theorem History.snoc (h : History archives) (hnext : Extends archives next) :
    History (archives ++ [next]) := forall_split_concat h hnext

theorem History.extends_take (h : History archives) (hi : archives[i]? = some archive) :
    Extends (archives.take i) archive ∧ (archives.take i).length = i := by
  obtain ⟨hlt, rfl⟩ := List.getElem?_eq_some_iff.mp hi
  refine ⟨h _ _ (archives.drop (i + 1)) ?_, by rw [length_take, min_eq_left hlt.le]⟩
  rw [← drop_eq_getElem_cons hlt, take_append_drop]

/-- The number of a generation is its place. -/
theorem History.number (h : History archives) (hi : archives[i]? = some archive) :
    archive.generation.toNat = i := by
  obtain ⟨hextends, hlength⟩ := h.extends_take hi
  rw [hextends.number, hlength]

/-- A generation is found by its number. -/
theorem History.find (h : History archives) (hi : archives[i]? = some archive) :
    archives.find? (fun other => other.generation = archive.generation) = some archive := by
  have hsome : (archives.find? fun other => other.generation = archive.generation).isSome := by
    rw [find?_isSome]
    exact ⟨archive, mem_of_getElem? hi, by simp⟩
  obtain ⟨found, hfound⟩ := Option.isSome_iff_exists.mp hsome
  have hgeneration : found.generation = archive.generation := by
    simpa using find?_some hfound
  obtain ⟨j, hj⟩ := mem_iff_getElem?.mp (mem_of_find?_eq_some hfound)
  have hindex : j = i := by rw [← h.number hj, hgeneration, h.number hi]
  rw [hfound, ← hj, hindex, hi]

/-! ### The check accepts the histories -/

section Contiguous

variable {archives : List ArchiveMetadata}

/-- Numbers that differ are not those of a list longer than there are numbers. -/
theorem toNat_ofNat_of_nodup {n : ℕ} (h : ((List.range n).map UInt64.ofNat).Nodup) {i : ℕ}
    (hi : i < n) : (UInt64.ofNat i).toNat = i := by
  by_contra hne
  have hmod : i % 2 ^ 64 ≠ i := by simpa [UInt64.toNat_ofNat] using hne
  have hlt : i % 2 ^ 64 < n := (Nat.mod_le i _).trans_lt hi
  refine hmod (inj_on_of_nodup_map h (mem_range.mpr hlt) (mem_range.mpr hi) ?_)
  exact UInt64.toNat_inj.mp (by simp)

theorem number_of_contiguous (hnodup : (archives.map ArchiveMetadata.generation).Nodup)
    (hcontiguous : archives.map ArchiveMetadata.generation =
      (List.range archives.length).map UInt64.ofNat) {i : ℕ} {archive}
    (hi : archives[i]? = some archive) : archive.generation.toNat = i := by
  obtain ⟨hlt, rfl⟩ := List.getElem?_eq_some_iff.mp hi
  have hgeneration : archives[i].generation = UInt64.ofNat i := by
    have heq := congrArg (·[i]?) hcontiguous
    simpa [hlt] using heq
  rw [hgeneration, toNat_ofNat_of_nodup (hcontiguous ▸ hnodup) hlt]

end Contiguous

theorem validateAncestry_eq_ok :
    validateAncestry archives archive = .ok () ↔ ∃ parent found, archive.parent = some parent ∧
      archives.find? (fun other => other.generation = parent) = some found ∧
      found.outcome = .completed ∧
      (archive.transition = .successor → parent = archive.generation - 1) ∧
      (archive.transition = .rollback → parent ≠ archive.generation - 1) := by
  unfold validateAncestry
  cases archive.parent with
  | none => simp
  | some parent => simp [bind_eq_ok, ← exists_and_right, and_assoc]

/-- What the check has found of one archive says that it extends those before it. -/
theorem extends_of_validateAncestry {archives before after}
    (hsplit : archives = before ++ next :: after)
    (hnumber : ∀ {i : ℕ} {archive}, archives[i]? = some archive → archive.generation.toNat = i)
    (hwell : next.WellFormed) (hancestry : before ≠ [] → validateAncestry archives next = .ok ()) :
    Extends before next := by
  have hnext : next.generation.toNat = before.length := hnumber (by simp [hsplit])
  refine ⟨hnext, ?_⟩
  by_cases hfirst : before = []
  · have hzero : next.generation = 0 := UInt64.toNat_inj.mp (by rw [hnext, hfirst]; rfl)
    rw [ArchiveMetadata.WellFormed, if_pos hzero] at hwell
    exact .inl ⟨hfirst, hwell⟩
  right
  have hpos : 0 < before.length := length_pos_iff.mpr hfirst
  have hnonzero : next.generation ≠ 0 := fun hzero => by
    rw [hzero, UInt64.toNat_zero] at hnext
    omega
  rw [ArchiveMetadata.WellFormed, if_neg hnonzero] at hwell
  obtain ⟨⟨parent, hparent, hlt⟩, htransition⟩ := hwell
  obtain ⟨_, found, hparent', hfind, hcompleted, hsuccessor, hrollback⟩ :=
    validateAncestry_eq_ok.mp (hancestry hfirst)
  obtain rfl := Option.mem_unique hparent hparent'
  have hgeneration : found.generation = parent := by simpa using find?_some hfind
  obtain ⟨i, hi⟩ := mem_iff_getElem?.mp (mem_of_find?_eq_some hfind)
  have hindex := hnumber hi
  rw [UInt64.lt_iff_toNat_lt, ← hgeneration, hindex, hnext] at hlt
  have hbefore : before[i]? = some found := by
    rw [hsplit, getElem?_append_left hlt] at hi
    exact hi
  have hminus : parent = next.generation - 1 ↔ i + 1 = before.length := by
    rw [← UInt64.toNat_inj, ← hgeneration, hindex, UInt64.toNat_sub_of_le _ _ ?_, hnext]
    · simp only [UInt64.toNat_one]
      omega
    · rw [UInt64.le_iff_toNat_le, hnext]
      exact hpos
  refine ⟨i, found, hbefore, by rw [hparent, hgeneration], hcompleted, ?_⟩
  cases htrans : next.transition with
  | initial => exact absurd htrans htransition
  | successor => exact .inl ⟨rfl, hminus.mp (hsuccessor htrans)⟩
  | rollback => exact .inr ⟨rfl, fun hlast => hrollback htrans (hminus.mpr hlast)⟩

/-- An archive that extends those before it passes the checks. -/
theorem validateAncestry_of_extends {archives before after}
    (hsplit : archives = before ++ next :: after) (hhistory : History archives)
    (hfirst : before ≠ []) : validateAncestry archives next = .ok () := by
  obtain ⟨hnumber, ⟨hnil, -⟩ | ⟨i, parent, hi, hparent, hcompleted, htransition⟩⟩ :=
    hhistory before next after hsplit
  · exact absurd hnil hfirst
  have hlt : i < before.length := (List.getElem?_eq_some_iff.mp hi).1
  have hi' : archives[i]? = some parent := by rw [hsplit, getElem?_append_left hlt, hi]
  have hindex := hhistory.number hi'
  have hminus : parent.generation = next.generation - 1 ↔ i + 1 = before.length := by
    rw [← UInt64.toNat_inj, hindex, UInt64.toNat_sub_of_le _ _ ?_, hnumber]
    · simp only [UInt64.toNat_one]
      omega
    · rw [UInt64.le_iff_toNat_le, hnumber]
      exact length_pos_iff.mpr hfirst
  refine validateAncestry_eq_ok.mpr
    ⟨parent.generation, parent, hparent, hhistory.find hi', hcompleted, ?_, ?_⟩
  · intro hsuccessor
    rcases htransition with ⟨-, hlast⟩ | ⟨hrollback, -⟩
    · exact hminus.mpr hlast
    · rw [hsuccessor] at hrollback
      cases hrollback
  · intro hrollback
    rcases htransition with ⟨hsuccessor, -⟩ | ⟨-, hearlier⟩
    · rw [hrollback] at hsuccessor
      cases hsuccessor
    · exact fun heq => hearlier (hminus.mp heq)

theorem Extends.wellFormed {before}
    (h : Extends before next) (hbefore : History before) : next.WellFormed := by
  obtain ⟨hnumber, ⟨rfl, hfirst⟩ | ⟨i, parent, hi, hparent, -, htransition⟩⟩ := h
  · have hzero : next.generation = 0 := UInt64.toNat_inj.mp hnumber
    rw [ArchiveMetadata.WellFormed, if_pos hzero]
    exact hfirst
  have hlt : i < before.length := (List.getElem?_eq_some_iff.mp hi).1
  have hnonzero : next.generation ≠ 0 := fun hzero => by
    rw [hzero, UInt64.toNat_zero] at hnumber
    omega
  rw [ArchiveMetadata.WellFormed, if_neg hnonzero]
  refine ⟨⟨parent.generation, hparent, ?_⟩, ?_⟩
  · rw [UInt64.lt_iff_toNat_lt, hbefore.number hi, hnumber]
    exact hlt
  · rcases htransition with ⟨hsuccessor, -⟩ | ⟨hrollback, -⟩
    · simp [hsuccessor]
    · simp [hrollback]

/-- **The check accepts the histories, and nothing else.** -/
theorem validateArchivedHistory_eq_ok :
    validateArchivedHistory archives = .ok () ∧ (∀ archive ∈ archives, archive.WellFormed) ↔
      History archives := by
  constructor
  · rintro ⟨hvalid, hwell⟩
    simp only [validateArchivedHistory, bind_eq_ok, failIf_eq_ok, not_not, exists_const,
      forM_eq_ok, ne_eq] at hvalid
    obtain ⟨hnodup, hcontiguous, hancestry⟩ := hvalid
    intro before next after hsplit
    refine extends_of_validateAncestry hsplit (number_of_contiguous hnodup hcontiguous)
      (hwell next (by simp [hsplit])) fun hfirst => hancestry next ?_
    obtain ⟨first, before, rfl⟩ := exists_cons_of_ne_nil hfirst
    simp [hsplit]
  · intro hhistory
    have hnumber : ∀ i (hi : i < archives.length), archives[i].generation.toNat = i :=
      fun i hi => hhistory.number (getElem?_eq_getElem hi)
    have hcontiguous : archives.map ArchiveMetadata.generation =
        (List.range archives.length).map UInt64.ofNat := by
      refine ext_getElem (by simp) fun i hi hi' => ?_
      rw [length_map] at hi
      have hgeneration := congrArg UInt64.ofNat (hnumber i hi)
      rw [UInt64.ofNat_toNat] at hgeneration
      simpa using hgeneration
    have hrange : (archives.map ArchiveMetadata.generation).map UInt64.toNat =
        List.range archives.length := by
      refine ext_getElem (by simp) fun i hi hi' => ?_
      rw [length_map, length_map] at hi
      simpa using hnumber i hi
    have hnodup : (archives.map ArchiveMetadata.generation).Nodup :=
      List.Nodup.of_map UInt64.toNat (hrange ▸ nodup_range)
    have hsplit : ∀ archive ∈ archives, ∃ before after, archives = before ++ archive :: after :=
      fun archive harchive => append_of_mem harchive
    refine ⟨?_, fun archive harchive => ?_⟩
    · simp only [validateArchivedHistory, bind_eq_ok, failIf_eq_ok, not_not, exists_const,
        forM_eq_ok, ne_eq]
      refine ⟨hnodup, hcontiguous, fun archive harchive => ?_⟩
      cases harchives : archives with
      | nil => simp [harchives] at harchive
      | cons first rest =>
        rw [harchives, tail_cons] at harchive
        obtain ⟨before, after, hrest⟩ := append_of_mem harchive
        exact validateAncestry_of_extends (by rw [hrest, cons_append]) (harchives ▸ hhistory)
          (cons_ne_nil first before)
    · obtain ⟨before, after, rfl⟩ := hsplit archive harchive
      exact (hhistory before archive after rfl).wellFormed hhistory.of_append

/-- What a history says about one generation: only the first has no parent, and the parent of any
other one is an earlier completed generation, the one before it if and only if it is a successor. -/
theorem History.ancestry (h : History archives) (hi : archives[i]? = some archive) :
    (archive.parent = none ↔ i = 0) ∧ ∀ parent, archive.parent = some parent →
      ∃ j other, archives[j]? = some other ∧ j < i ∧ other.generation = parent ∧
        other.outcome = .completed ∧ (archive.transition = .successor ∧ j + 1 = i ∨
          archive.transition = .rollback ∧ j + 1 ≠ i) := by
  obtain ⟨hextends, hlength⟩ := h.extends_take hi
  obtain ⟨-, ⟨hnil, hnone, -⟩ | ⟨j, parent, hj, hparent, hcompleted, htransition⟩⟩ := hextends
  · have hzero : i = 0 := by rw [← hlength, hnil, length_nil]
    refine ⟨⟨fun _ => hzero, fun _ => hnone⟩, fun parent hsome => ?_⟩
    rw [hnone] at hsome
    cases hsome
  have hjlt : j < i := hlength ▸ (List.getElem?_eq_some_iff.mp hj).1
  refine ⟨⟨fun hnone => ?_, fun hzero => absurd hjlt (by omega)⟩, fun other hother => ?_⟩
  · rw [hparent] at hnone
    cases hnone
  · obtain rfl : parent.generation = other := Option.mem_unique hparent hother
    rw [hlength] at htransition
    rw [getElem?_take_of_lt hjlt] at hj
    exact ⟨j, parent, hj, hjlt, rfl, hcompleted, htransition⟩

end Carcer.Experiment
