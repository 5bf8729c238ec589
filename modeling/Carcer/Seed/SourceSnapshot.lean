import Carcer.Seed.FileInvariant
import Carcer.Seed.Serial

/-!
# The seed's source snapshot

`seed/source_snapshot.c`: the files of the store that a build takes, their count and encoded
length, and the bytes that the seed sends for them.

## Main definitions

* `buildPathValid`, `sourceSnapshotMeasure`, `sourceSnapshotWrite`: the functions of the source
* `SelectedPath`: the paths that a build takes
* `Store.selected`: the files that a build takes, in the order of the table

## Main results

* `buildPathValid_returns`: the loops of the path check decide `SelectedPath`
* `sourceSnapshotMeasure_eq`, `sourceSnapshotWrite_eq`: count, length and bytes of the selected
  files
-/

namespace Carcer.Seed

open Carcer.Machine Carcer.Wire Carcer.Packed List

/-- The string `prefix` of the source. -/
def sourceDirectory : Bytes := ascii "seed/"

/-- The condition under which `build_path_valid` reaches the end of a component. -/
def componentEnds (file : File) (index : ℕ) : Checked Bool := do
  if index = file.pathLength then return true
  return (← file.pathSource index) = 0x2f

/-- The condition under which `build_path_valid` refuses a component. -/
def componentRefused (file : File) (componentStart componentLength : ℕ) : Checked Bool := do
  if componentLength = 0 then return true
  if componentLength = 1 then return (← file.pathSource componentStart) = 0x2e
  if componentLength = 2 then
    if (← file.pathSource componentStart) ≠ 0x2e then return false
    return (← file.pathSource (componentStart + 1)) = 0x2e
  return false

/-- The last loop of `build_path_valid`. -/
def componentsValid (file : File) : Checked Bool := do
  let round ← scanRange sourceDirectory.length (file.pathLength + 1) (fun index componentStart => do
    if !(← componentEnds file index) then return .next componentStart
    let componentLength ← subU32 index componentStart
    if ← componentRefused file componentStart componentLength then return .stop false
    return .next (← addU32 index 1)) sourceDirectory.length
  match round with
  | .stop result => return result
  | .next _ => return true

def buildPathValid (file : File) : Checked Bool := do
  if file.pathLength ≤ sourceDirectory.length then return false
  if !(← allRange 0 sourceDirectory.length fun index => do
      return (← file.pathSource index) = (← readList sourceDirectory index)) then return false
  if !(← allRange 0 file.pathLength fun index => do return (← file.pathSource index) ≠ 0) then
    return false
  componentsValid file

/-- One round of `source_snapshot_measure`, with the count and the length so far. -/
def measureFile (s : Store) (index : ℕ) (measured : ℕ × ℕ) : Checked (Round (ℕ × ℕ) Unit) := do
  let (count, length) := measured
  let file ← s.files.read index
  if !(← buildPathValid file) then return .next (count, length)
  let entryLength ← addU32 (← addU32 (← addU32 2 file.pathLength) 4) (fileSize file)
  if entryLength > (← subU32 frameMaxPayload length) then return .stop ()
  -- the count is a `uint16_t`
  return .next ((count + 1) % 2 ^ 16, ← addU32 length entryLength)

/-- `source_snapshot_measure`: the count and the length, or `none` when it fails. -/
def sourceSnapshotMeasure (s : Store) : Checked (Option (ℕ × ℕ)) := do
  match ← scanRange 0 s.fileCount (measureFile s) (0, 2) with
  | .stop () => return none
  | .next measured => return some measured

/-- One round of `source_snapshot_write`. -/
def writeFile (s : Store) (index : ℕ) (out : Bytes) : Checked Bytes := do
  let file ← s.files.read index
  if !(← buildPathValid file) then return out
  let out := frameWriteU16 file.pathLength out
  let out ← serialWriteBytes file.pathSource file.pathLength out
  let out := frameWriteU32 (fileSize file) out
  serialWriteBytes (fileContent s file) (fileSize file) out

def sourceSnapshotWrite (selectedCount : ℕ) (s : Store) (out : Bytes) : Checked Bytes :=
  forRange 0 s.fileCount (writeFile s) (frameWriteU16 selectedCount out)

/-! ### The selected paths -/

/-- A path component that names a file or a directory of its parent. -/
def SafeComponent (component : Bytes) : Prop :=
  component ≠ [] ∧ component ≠ ascii "." ∧ component ≠ ascii ".."

/-- The components of a path are safe. -/
def SafeComponents (path : Bytes) : Prop :=
  ∀ component ∈ path.splitOn 0x2f, SafeComponent component

/-- The paths that a build takes. -/
structure SelectedPath (path : Bytes) : Prop where
  length_lt : sourceDirectory.length < path.length
  leading : sourceDirectory <+: path
  no_nul : 0 ∉ path
  safe : SafeComponents (path.drop sourceDirectory.length)

instance (path : Bytes) : Decidable (SafeComponents path) :=
  inferInstanceAs (Decidable (∀ component ∈ path.splitOn 0x2f,
    component ≠ [] ∧ component ≠ ascii "." ∧ component ≠ ascii ".."))

instance (path : Bytes) : Decidable (SelectedPath path) :=
  decidable_of_iff (sourceDirectory.length < path.length ∧ sourceDirectory <+: path ∧ 0 ∉ path ∧
      SafeComponents (path.drop sourceDirectory.length))
    ⟨fun ⟨h₁, h₂, h₃, h₄⟩ => ⟨h₁, h₂, h₃, h₄⟩, fun h => ⟨h.1, h.2, h.3, h.4⟩⟩

theorem safeComponents_last {path : Bytes} (h : 0x2f ∉ path) :
    SafeComponents path ↔ SafeComponent path := by
  have hsplit : path.splitOn 0x2f = [path] :=
    splitOnP_eq_singleton fun x hx => by
      rw [beq_eq_false_iff_ne]
      rintro rfl
      exact h hx
  simp [SafeComponents, hsplit]

theorem safeComponents_append {component path : Bytes} (h : 0x2f ∉ component) :
    SafeComponents (component ++ 0x2f :: path) ↔
      SafeComponent component ∧ SafeComponents path := by
  have hsplit : (component ++ 0x2f :: path).splitOn 0x2f = component :: path.splitOn 0x2f :=
    splitOnP_append_cons_of_forall_mem (fun x hx => by
      rw [beq_eq_false_iff_ne]
      rintro rfl
      exact h hx) _ (by simp) _
  simp [SafeComponents, hsplit]

section Components

variable {file : File} {p : Bytes} (hp : Points file.pathSource p)
  (hlength : file.pathLength = p.length)

include hp

theorem componentRefused_returns {start length : ℕ} (hfit : start + length ≤ p.length) :
    Returns (componentRefused file start length) fun r =>
      r = true ↔ ¬SafeComponent ((p.drop start).take length) := by
  unfold componentRefused SafeComponent
  rcases length with _ | _ | _ | length
  · simp
  · have hcomponent : (p.drop start).take 1 = [p[start]] := by
      rw [drop_eq_getElem_cons (by omega)]
      rfl
    simp [hp start (by omega), hcomponent, ascii]
  · have hcomponent : (p.drop start).take 2 = [p[start], p[start + 1]] := by
      rw [drop_eq_getElem_cons (by omega), drop_eq_getElem_cons (by omega)]
      rfl
    simp only [Nat.zero_add, Nat.reduceAdd, OfNat.ofNat_ne_zero, OfNat.ofNat_ne_one, if_false,
      if_true, hp start (by omega), hp (start + 1) (by omega), ok_bind, hcomponent]
    split_ifs with hdot
    · simp [ascii, hdot]
    · simp [ascii, not_not.mp hdot]
  · have hlong : ((p.drop start).take (length + 3)).length = length + 3 := by
      simp
      omega
    generalize (p.drop start).take (length + 3) = component at hlong
    have hne : component ≠ [] ∧ component ≠ ascii "." ∧ component ≠ ascii ".." := by
      refine ⟨?_, ?_, ?_⟩ <;> rintro rfl <;> simp [ascii] at hlong
    simp [hne]

include hlength

theorem componentEnds_returns {index : ℕ} (hindex : index ≤ p.length) :
    Returns (componentEnds file index) fun r =>
      r = true ↔ ∀ h : index < p.length, p[index] = 0x2f := by
  unfold componentEnds
  split_ifs with hend
  · simp only [returns_pure, true_iff]
    omega
  · have hlt : index < p.length := by omega
    simp [hp index hlt, hlt]

theorem componentsValid_returns (hlong : sourceDirectory.length ≤ p.length)
    (hmax : p.length ≤ fileMaxPathLength) :
    Returns (componentsValid file) fun r =>
      r = true ↔ SafeComponents (p.drop sourceDirectory.length) := by
  have hword : fileMaxPathLength + 2 < 2 ^ 32 := by decide
  unfold componentsValid
  -- before round `j` the components in front of `start` are safe, and the one from `start` on
  -- has not ended
  refine (scanRange_returns (fun j start =>
      (j ≤ p.length → start ≤ j ∧ 0x2f ∉ (p.drop start).take (j - start) ∧
        (SafeComponents (p.drop sourceDirectory.length) ↔ SafeComponents (p.drop start))) ∧
      (j = p.length + 1 → SafeComponents (p.drop sourceDirectory.length)))
    (fun r => r = false ∧ ¬SafeComponents (p.drop sourceDirectory.length)) (by omega)
    ⟨fun _ => ⟨le_rfl, by simp, Iff.rfl⟩, fun h => by omega⟩ ?_).bind fun round hround => ?_
  · rintro j start - hj ⟨hround, -⟩
    obtain ⟨hstart, hopen, hsafe⟩ := hround (by omega)
    refine (componentEnds_returns hp hlength (by omega)).bind fun ends hends => ?_
    rcases ends with _ | _
    · -- the byte at `j` is inside the component
      have hinside : ∃ h : j < p.length, p[j] ≠ 0x2f := by
        simpa using hends
      obtain ⟨hlt, hne⟩ := hinside
      refine returns_pure.mpr ⟨fun _ => ⟨by omega, ?_, hsafe⟩, fun h => by omega⟩
      rw [show j + 1 - start = (j - start) + 1 by omega, take_succ_eq_append_getElem
        (by simp; omega), mem_append, not_or]
      refine ⟨hopen, ?_⟩
      simp only [getElem_drop, mem_singleton,
        show start + (j - start) = j by omega]
      exact fun h => hne h.symm
    have hslash := hends.mp rfl
    simp only [Bool.not_true, Bool.false_eq_true, if_false]
    rw [subU32_eq hstart, ok_bind]
    refine (componentRefused_returns hp (by omega)).bind fun refused hrefused => ?_
    have hcomponents : SafeComponents (p.drop start) ↔
        SafeComponent ((p.drop start).take (j - start)) ∧
          (j < p.length → SafeComponents (p.drop (j + 1))) := by
      rcases Nat.lt_or_ge j p.length with hlt | hge
      · have hsplit : p.drop start =
            (p.drop start).take (j - start) ++ 0x2f :: p.drop (j + 1) := by
          rw [← hslash hlt, ← drop_eq_getElem_cons hlt]
          conv_lhs => rw [← take_append_drop (j - start) (p.drop start)]
          rw [drop_drop, show start + (j - start) = j by omega]
        rw [hsplit, safeComponents_append hopen, ← hsplit]
        simp [hlt]
      · have hall : (p.drop start).take (j - start) = p.drop start :=
          take_of_length_le (by simp; omega)
        rw [hall] at hopen ⊢
        rw [safeComponents_last hopen]
        simp [hge]
    cases refused with
    | true =>
      refine returns_pure.mpr ⟨rfl, fun h => ?_⟩
      exact hrefused.mp rfl (hcomponents.mp (hsafe.mp h)).1
    | false =>
      have hsafeComponent : SafeComponent ((p.drop start).take (j - start)) := by
        by_contra h
        exact Bool.false_ne_true (hrefused.mpr h)
      simp only [Bool.false_eq_true, if_false]
      rw [addU32_eq (by omega), ok_bind, returns_pure]
      refine ⟨fun h => ⟨le_rfl, by simp, hsafe.trans (hcomponents.trans ?_)⟩,
        fun h => hsafe.mpr (hcomponents.mpr ⟨hsafeComponent, fun h' => by omega⟩)⟩
      simp [hsafeComponent, show j < p.length by omega]
  · cases round with
    | stop r =>
      obtain ⟨rfl, hunsafe⟩ := hround
      simpa using hunsafe
    | next start => simpa [hlength] using hround.2 (by omega)

/-- **The path check of the seed decides `SelectedPath`.** -/
theorem buildPathValid_returns (hmax : p.length ≤ fileMaxPathLength) :
    Returns (buildPathValid file) fun r => r = true ↔ SelectedPath p := by
  unfold buildPathValid
  split_ifs with hshort
  · refine returns_pure.mpr ⟨fun h => absurd h Bool.false_ne_true, fun h => ?_⟩
    have := h.length_lt
    omega
  have hleading : (∀ i, 0 ≤ i → i < sourceDirectory.length → p[i]? = sourceDirectory[i]?) ↔
      sourceDirectory <+: p := by
    rw [prefix_iff_getElem?]
    constructor
    · intro h i hi
      rw [h i (Nat.zero_le _) hi, getElem?_eq_getElem hi]
    · intro h i _ hi
      rw [h i hi, getElem?_eq_getElem hi]
  refine (allRange_returns (fun i => p[i]? = sourceDirectory[i]?) (Nat.zero_le _)
    fun i _ hi => ?_).bind fun r hr => ?_
  · rw [hp i (by omega), ok_bind, readList_eq _ hi, ok_bind]
    simp [getElem?_eq_getElem hi, getElem?_eq_getElem (show i < p.length by omega)]
  rw [hleading] at hr
  rcases r with _ | _
  · refine returns_pure.mpr ⟨fun h => absurd h Bool.false_ne_true, fun h => ?_⟩
    exact absurd (hr.mpr h.leading) Bool.false_ne_true
  have hleading := hr.mp rfl
  simp only [Bool.not_true, Bool.false_eq_true, if_false]
  have hnul : (∀ i, 0 ≤ i → i < file.pathLength → p[i]? ≠ some 0) ↔ 0 ∉ p := by
    rw [hlength, mem_iff_getElem?, not_exists]
    constructor
    · intro h i hi
      exact h i (Nat.zero_le _) (List.getElem?_eq_some_iff.mp hi).1 hi
    · exact fun h i _ _ => h i
  refine (allRange_returns (fun i => p[i]? ≠ some 0) (Nat.zero_le _)
    fun i _ hi => ?_).bind fun r hr => ?_
  · rw [hp i (by omega), ok_bind]
    simp [getElem?_eq_getElem (show i < p.length by omega)]
  rw [hnul] at hr
  cases r with
  | false =>
    refine returns_pure.mpr ⟨fun h => absurd h Bool.false_ne_true, fun h => ?_⟩
    exact absurd (hr.mpr h.no_nul) Bool.false_ne_true
  | true =>
    simp only [Bool.not_true, Bool.false_eq_true, if_false]
    refine (componentsValid_returns hp hlength (by omega) hmax).mono fun r hsafe => ?_
    rw [hsafe]
    exact ⟨fun h => ⟨by omega, hleading, hr.mp rfl, h⟩, fun h => h.safe⟩

end Components

/-! ### The selected files -/

/-- The files that a build takes. -/
def Store.selected (s : Store) : List (Bytes × Bytes) :=
  s.entries.filter fun entry => SelectedPath entry.1

/-- The bytes of one file in a snapshot. -/
def entryBytes (entry : Bytes × Bytes) : Bytes :=
  leBytes 2 entry.1.length ++ entry.1 ++ leBytes 4 entry.2.length ++ entry.2

/-- The length of a snapshot of the files. -/
def snapshotLength (entries : List (Bytes × Bytes)) : ℕ :=
  2 + (entries.map fun entry => (entryBytes entry).length).sum

theorem length_entryBytes (entry : Bytes × Bytes) :
    (entryBytes entry).length = 2 + entry.1.length + 4 + entry.2.length := by
  simp only [entryBytes, length_append, length_leBytes]

theorem snapshotLength_eq (count : ℕ) (entries : List (Bytes × Bytes)) :
    (leBytes 2 count ++ entries.flatMap entryBytes).length = snapshotLength entries := by
  rw [length_append, length_leBytes, length_flatMap, snapshotLength]

theorem flatMap_filter {α β : Type} (p : α → Bool) (f : α → List β) (l : List α) :
    (l.filter p).flatMap f = l.flatMap fun a => if p a then f a else [] := by
  induction l with
  | nil => rfl
  | cons a l ih => by_cases h : p a <;> simp [h, ih]

namespace Store.WellFormed

variable {s : Store} (hs : s.WellFormed)
include hs

theorem buildPathValid_eq {i : ℕ} (hi : i < s.fileCount) :
    buildPathValid (s.files.get i) = .ok (decide (SelectedPath (s.entry i).1)) := by
  obtain ⟨r, hr, hiff⟩ := buildPathValid_returns (hs.points_path hi) (File.length_name _).symm
    (by simpa using hs.pathLength_le hi)
  rw [hr, Except.ok.injEq, Bool.eq_iff_iff, hiff, decide_eq_true_iff]
  rfl

theorem points_content {i : ℕ} (hi : i < s.fileCount) :
    Points (fileContent s (s.files.get i)) (s.entry i).2 := by
  intro k hk
  have hstop := stop_le_used hs hi
  have hused := hs.used_le
  rw [Store.entry, length_slice, File.extent_length] at hk
  simp only [fileContent, Store.entry, getElem_slice, File.extent_offset]
  rw [FixedArray.read_eq _ (by omega)]

theorem writeFile_eq {i : ℕ} (hi : i < s.fileCount) (out : Bytes) :
    writeFile s i out =
      .ok (out ++ if SelectedPath (s.entry i).1 then entryBytes (s.entry i) else []) := by
  unfold writeFile
  rw [hs.read_files hi, ok_bind, hs.buildPathValid_eq hi, ok_bind]
  by_cases hselected : SelectedPath (s.entry i).1
  · simp only [hselected, decide_true, Bool.not_true, Bool.false_eq_true, if_false, if_true]
    rw [serialWriteBytes_eq (hs.points_path hi) (File.length_name _).symm, ok_bind,
      serialWriteBytes_eq (hs.points_content hi) (s.length_entry_content i).symm]
    simp only [frameWriteU16, frameWriteU32, entryBytes, Store.length_entry_path,
      Store.length_entry_content, append_assoc]
    rfl
  · simp only [hselected, decide_false, Bool.not_false, if_true, if_false, append_nil]
    rfl

/-- **What the seed sends for a build**: the selected files in the order of the table. -/
theorem sourceSnapshotWrite_eq (selectedCount : ℕ) (out : Bytes) :
    sourceSnapshotWrite selectedCount s out =
      .ok (out ++ leBytes 2 selectedCount ++ s.selected.flatMap entryBytes) := by
  rw [sourceSnapshotWrite, forRange_append fun i hi out => hs.writeFile_eq hi out,
    Store.selected, flatMap_filter, Store.entries, flatMap_map]
  simp only [frameWriteU16, decide_eq_true_eq]

theorem snapshotLength_le {entries : List (Bytes × Bytes)} (h : entries.Sublist s.entries) :
    snapshotLength entries ≤ 2 + 128 * 261 + 65536 := by
  have hcount : s.fileCount ≤ 128 := hs.count_le
  have hused : s.contentUsed ≤ 65536 := hs.used_le
  have hrow : ∀ i ∈ List.range s.fileCount,
      (entryBytes (s.entry i)).length ≤ 261 + (s.files.get i).extent.length := by
    intro i hi
    have hpath : (s.files.get i).pathLength ≤ 255 := hs.pathLength_le (mem_range.mp hi)
    rw [length_entryBytes, Store.length_entry_path, Store.length_entry_content, fileSize,
      File.extent_length]
    omega
  have htotal : ((List.range s.fileCount).map fun i => (s.files.get i).extent.length).sum =
      s.contentUsed := by
    rw [← hs.layout.total, Store.table, map_map]
    rfl
  calc snapshotLength entries ≤ 2 + (s.entries.map fun entry => (entryBytes entry).length).sum :=
        Nat.add_le_add_left ((h.map _).sum_le_sum fun _ _ => Nat.zero_le _) 2
    _ ≤ 2 + ((List.range s.fileCount).map fun i => 261 + (s.files.get i).extent.length).sum := by
        rw [Store.entries, map_map]
        exact Nat.add_le_add_left (sum_le_sum hrow) 2
    _ = 2 + (s.fileCount * 261 + s.contentUsed) := by
        rw [sum_map_add, htotal]
        simp
    _ ≤ 2 + 128 * 261 + 65536 := by omega

theorem length_content_le {entry} (h : entry ∈ s.entries) : entry.2.length ≤ 131072 := by
  have hle := hs.snapshotLength_le (singleton_sublist.mpr h)
  simp only [snapshotLength, length_entryBytes, map_singleton, sum_singleton] at hle
  omega

theorem measureFile_returns {i : ℕ} (hi : i < s.fileCount) (count : ℕ)
    {entries} (hentries : (entries ++ [s.entry i]).Sublist s.entries) :
    measureFile s i (count, snapshotLength entries) = .ok (.next
      (if SelectedPath (s.entry i).1 then
        ((count + 1) % 2 ^ 16, snapshotLength (entries ++ [s.entry i]))
      else (count, snapshotLength entries))) := by
  have hbound := hs.snapshotLength_le hentries
  have hpayload : frameMaxPayload = 16777216 := rfl
  have happend : snapshotLength (entries ++ [s.entry i]) = snapshotLength entries +
      (2 + (s.files.get i).pathLength + 4 + fileSize (s.files.get i)) := by
    simp only [snapshotLength, map_append, sum_append, map_cons, map_nil,
      sum_singleton, length_entryBytes, Store.length_entry_path, Store.length_entry_content]
    omega
  rw [happend] at hbound ⊢
  unfold measureFile
  simp only
  rw [hs.read_files hi, ok_bind, hs.buildPathValid_eq hi, ok_bind]
  by_cases hselected : SelectedPath (s.entry i).1
  · simp only [hselected, decide_true, Bool.not_true, Bool.false_eq_true, if_false, if_true]
    rw [addU32_eq (by omega), ok_bind, addU32_eq (by omega), ok_bind, addU32_eq (by omega),
      ok_bind, subU32_eq (by omega), ok_bind, if_neg (by omega), addU32_eq (by omega), ok_bind]
    rfl
  · simp only [hselected, decide_false, Bool.not_false, if_true, if_false]
    rfl

/-- **What the seed announces for a build**: the count of the selected files, and the length of
the bytes it sends for them. -/
theorem sourceSnapshotMeasure_eq :
    sourceSnapshotMeasure s = .ok (some (s.selected.length, snapshotLength s.selected)) := by
  have hcount : s.fileCount ≤ 128 := hs.count_le
  have hscan : Returns (scanRange 0 s.fileCount (measureFile s) (0, 2)) (Round.Ends
      (fun measured => measured = (s.selected.length, snapshotLength s.selected))
      fun _ => False) := by
    refine (scanRange_returns (fun i measured => measured =
        ((((List.range i).map s.entry).filter fun entry => SelectedPath entry.1).length,
          snapshotLength (((List.range i).map s.entry).filter fun entry => SelectedPath entry.1)))
      (fun _ => False) (Nat.zero_le _) rfl ?_)
    rintro i measured - hi rfl
    set before := ((List.range i).map s.entry).filter fun entry => SelectedPath entry.1 with hbefore
    have hlength : before.length ≤ i := (length_filter_le _ _).trans (by simp)
    have hrows : (List.range (i + 1)).map s.entry = (List.range i).map s.entry ++ [s.entry i] := by
      rw [range_succ, map_append, map_singleton]
    have hsub : (before ++ [s.entry i]).Sublist s.entries := by
      have hrange : ((List.range (i + 1)).map s.entry).Sublist s.entries :=
        (range_sublist.mpr hi).map _
      rw [hrows] at hrange
      exact (filter_sublist.append_right _).trans hrange
    rw [hs.measureFile_returns hi _ hsub, returns_ok]
    rw [hrows, filter_append, ← hbefore]
    by_cases hselected : SelectedPath (s.entry i).1
    · simp only [hselected, if_true, Round.Ends, decide_true, filter_cons_of_pos,
        filter_nil, length_append, length_singleton]
      rw [Nat.mod_eq_of_lt (by omega)]
    · simp [hselected, Round.Ends]
  obtain ⟨round, hround, hends⟩ := hscan
  rw [sourceSnapshotMeasure, hround, ok_bind]
  cases round with
  | stop u => exact hends.elim
  | next measured =>
    rw [show measured = _ from hends]
    rfl

end Store.WellFormed

end Carcer.Seed
