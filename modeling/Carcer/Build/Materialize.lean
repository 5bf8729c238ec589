import Carcer.Disk.Paths
import Carcer.Guest.Snapshot

/-!
# Snapshots as trees of files

The three places where the files of a source snapshot are written out: the workspace of the trusted
build, the archive of a generation and the working tree of the Git recorder. Each makes the
directories of a path and writes its file, file by file.

## Main definitions

* `materialize`, `materializeSnapshot`, `replaceSeedTree`: the three writers
* `WrittenBelowSeed`: the tree below the seed directory has exactly the files of a snapshot
* `Writable`: the three writers write a snapshot out

## Main results

* `writable_iff_prefixFree`: they do exactly when no path leads through another one
-/

namespace Carcer.Build

open Carcer.Wire Carcer.Guest Carcer.Disk List

/-! ### The writers -/

/-- The name of the seed directory. -/
def seedName : Bytes := ascii "seed"

/-- Why a snapshot is not written out. -/
inductive WriteError
  | source (error : SnapshotError)
  /-- "source path escapes build workspace: %s", "source path escapes archive: %q",
  "source path escapes temporary seed tree: %q" -/
  | escapes (path : Bytes)
  /-- "unsafe generation archive path: %s" -/
  | unsafePath (path : List Bytes)
  | file (path : Bytes) (error : PathError)
  deriving DecidableEq

/-- One component of a path that is cleaned. -/
def cleanStep (done : List Bytes) (component : Bytes) : List Bytes :=
  if component = [] ∨ component = ascii "." then done
  else if component = ascii ".." then done.dropLast
  else done ++ [component]

/-- `filepath.Join` of the components of an absolute path and a path with slashes. -/
def joinPath (root : List Bytes) (path : Bytes) : List Bytes :=
  (pathComponents path).foldl cleanStep root

/-- The part of `resolvePath` below the workspace, which has no links: the walk stops where a name
is missing, and fails where a file has a name behind it. -/
def resolves : List Bytes → Directory → Except PathError Unit
  | [], _ => .ok ()
  | name :: rest, d =>
    match d.entry name with
    | none => .ok ()
    | some (.directory sub) => resolves rest sub
    | some _ => if rest = [] then .ok () else .error .notDirectory

/-- `materialize`: `d` is what the workspace holds. -/
def materialize (files : List SnapshotFile) (workspace : List Bytes) (d : Directory) :
    Except WriteError Directory :=
  files.foldlM (fun d file => do
    (validateSourcePath file.path).mapError WriteError.source
    let destination := joinPath workspace file.path
    (resolves (destination.drop workspace.length) d).mapError (WriteError.file file.path)
    failIf (¬workspace <+: destination) (WriteError.escapes file.path)
    (place false file.content (destination.drop workspace.length) d).mapError
      (WriteError.file file.path)) d

/-- `materializeSnapshot` with `writeArchiveFile`, which refuses a file that is there: `d` is what
the destination holds. -/
def materializeSnapshot (snapshot : Bytes) (destination : List Bytes) (budget : Budget)
    (d : Directory) : Except WriteError Directory := do
  let parsed ← (parseSourceSnapshotWithBudget snapshot budget).mapError WriteError.source
  parsed.files.foldlM (fun d file => do
    let output := joinPath destination file.path
    failIf (¬destination <+: output) (WriteError.escapes file.path)
    let relative := output.drop destination.length
    failIf (relative = [] ∨ relative.contains (ascii "..")) (WriteError.unsafePath relative)
    (place true file.content relative d).mapError (WriteError.file file.path)) d

/-- `replaceSeedTree`: `d` is what the working tree holds, to which no link leads; the seed
directory is removed and made anew. -/
def replaceSeedTree (worktree : List Bytes) (entries : List SnapshotFile) (d : Directory) :
    Except WriteError Directory :=
  entries.foldlM (fun d entry => do
    let output := joinPath worktree entry.path
    failIf (¬worktree ++ [seedName] <+: output) (WriteError.escapes entry.path)
    (place false entry.content (output.drop worktree.length) d).mapError
      (WriteError.file entry.path)) ((d.erase seedName).put seedName (.directory []))

/-! ### What should be written -/

/-- The components of a file's path. -/
def filePath (file : SnapshotFile) : List Bytes := pathComponents file.path

/-- **The tree below the seed directory has exactly the files of a snapshot**, and nothing else has
changed. -/
structure WrittenBelowSeed (files : List SnapshotFile) (d d' : Directory) : Prop where
  /-- Different files stand at different paths. -/
  distinct : (files.map filePath).Nodup
  below : ∀ file ∈ files, ∃ rest, rest ≠ [] ∧ filePath file = seedName :: rest
  written : ∀ file ∈ files, kindAt (filePath file) d' = some (.file file.content)
  only : ∀ rest content, kindAt (seedName :: rest) d' = some (.file content) →
    ∃ file ∈ files, filePath file = seedName :: rest
  unchanged : ∀ name rest, name ≠ seedName → kindAt (name :: rest) d' = kindAt (name :: rest) d

/-- **The three writers write a snapshot out.** -/
structure Writable (data : Bytes) (budget : Budget) (files : List SnapshotFile) : Prop where
  trusted : ∀ workspace, ∃ d', materialize files workspace [] = .ok d' ∧
    WrittenBelowSeed files [] d'
  archived : ∀ destination, ∃ d', materializeSnapshot data destination budget [] = .ok d' ∧
    WrittenBelowSeed files [] d'
  recorded : ∀ worktree d, ∃ d', replaceSeedTree worktree files d = .ok d' ∧
    WrittenBelowSeed files d d'

/-! ### Paths of a snapshot -/

theorem foldl_cleanStep {components} (root : List Bytes) (h : ∀ component ∈ components,
      component ≠ [] ∧ component ≠ ascii "." ∧ component ≠ ascii "..") :
    components.foldl cleanStep root = root ++ components := by
  induction components generalizing root with
  | nil => simp
  | cons component components ih =>
    obtain ⟨⟨hempty, hdot, hdots⟩, hrest⟩ := forall_mem_cons.mp h
    rw [foldl_cons, ih _ hrest, cleanStep, if_neg (not_or.mpr ⟨hempty, hdot⟩), if_neg hdots,
      append_assoc]
    rfl

theorem joinPath_eq {path : Bytes} (h : SourcePath path) (root : List Bytes) :
    joinPath root path = root ++ pathComponents path :=
  foldl_cleanStep root h.build.safe

theorem intercalate_pathComponents (path : Bytes) :
    [(0x2f : UInt8)].intercalate (pathComponents path) = path :=
  intercalate_splitOn 0x2f

theorem length_le_intercalate {components} {component : Bytes} (h : component ∈ components)
    (separator : Bytes) : component.length ≤ (separator.intercalate components).length := by
  have hmem : component ∈ components.intersperse separator := by
    induction components with
    | nil => cases h
    | cons first rest ih =>
      cases rest with
      | nil => exact h
      | cons second rest =>
        rw [intersperse_cons_cons]
        rcases mem_cons.mp h with rfl | hrest
        · exact mem_cons_self
        · exact mem_cons_of_mem _ (mem_cons_of_mem _ (ih hrest))
  exact (sublist_flatten_of_mem hmem).length_le

theorem length_component_le {path component : Bytes} (h : component ∈ pathComponents path) :
    component.length ≤ path.length := by
  have hle := length_le_intercalate h [0x2f]
  rwa [intercalate_pathComponents] at hle

theorem pathComponents_injective : Function.Injective pathComponents := by
  intro path path' h
  rw [← intercalate_pathComponents path, ← intercalate_pathComponents path', h]

/-- A path of a snapshot leads to a file below the seed directory. -/
theorem below_of_sourcePath {path : Bytes} (h : SourcePath path) :
    ∃ rest, rest ≠ [] ∧ pathComponents path = seedName :: rest := by
  obtain ⟨rest, hrest⟩ := head?_eq_some_iff.mp h.build.seed
  refine ⟨rest, ?_, hrest⟩
  rintro rfl
  have hdeep := h.build.deep
  rw [hrest] at hdeep
  simp at hdeep

/-- A path of a snapshot can be placed where the seed directory is empty or missing. -/
theorem placeable_of_sourcePath {path : Bytes} (h : SourcePath path) {exclusive : Bool} {d}
    (hseed : ∀ rest, rest ≠ [] → kindAt (seedName :: rest) d = none)
    (hroot : kindAt [seedName] d = none ∨ kindAt [seedName] d = some .directory) :
    Placeable exclusive (pathComponents path) d ∧ kindAt (pathComponents path) d = none := by
  obtain ⟨rest, hrest, heq⟩ := below_of_sourcePath h
  have hfree : kindAt (pathComponents path) d = none := by
    rw [heq]
    exact hseed rest hrest
  refine ⟨⟨by rw [heq]; simp, fun name hname => ?_, fun q hq _ => ?_, .inl hfree⟩, hfree⟩
  · exact (length_component_le hname).trans h.length_le
  · rw [heq] at hq
    rcases prefix_cons_iff.mp hq with rfl | ⟨r, rfl, -⟩
    · exact .inr rfl
    by_cases hr : r = []
    · rw [hr]
      exact hroot
    · exact .inl (hseed r hr)

/-! ### The loops -/

/-- The files of a snapshot with the components of their paths. -/
def placed (files : List SnapshotFile) : List (List Bytes × Bytes) :=
  files.map fun file => (filePath file, file.content)

theorem map_fst_placed (files : List SnapshotFile) :
    (placed files).map Prod.fst = files.map filePath := by
  rw [placed, map_map]
  rfl

/-- A loop that places one file in each turn places all of them. -/
theorem foldlM_eq_ok_iff {exclusive : Bool} {files}
    {step : Directory → SnapshotFile → Except WriteError Directory}
    (hstep : ∀ file ∈ files, ∀ d d', step d file = .ok d' ↔
      place exclusive file.content (filePath file) d = .ok d') (d d' : Directory) :
    files.foldlM step d = .ok d' ↔ placeAll exclusive (placed files) d = .ok d' := by
  induction files generalizing d with
  | nil => simp [placeAll, placed, pure, Except.pure]
  | cons file files ih =>
    obtain ⟨hfile, hfiles⟩ := forall_mem_cons.mp hstep
    rw [foldlM_cons, bind_eq_ok, placed, map_cons, placeAll_cons]
    exact exists_congr fun next => and_congr (hfile d next) (ih hfiles next)

/-- Where a file can be placed, the walk to it does not fail. -/
theorem resolves_of_placeable {exclusive : Bool} {path d} (h : Placeable exclusive path d) :
    resolves path d = .ok () := by
  induction path generalizing d with
  | nil => rfl
  | cons name rest ih =>
    rw [resolves]
    rcases hentry : d.entry name with _ | entry
    · rfl
    by_cases hrest : rest = []
    · subst hrest
      cases entry with
      | directory sub => rfl
      | _ => exact if_pos rfl
    have hparent := h.parents [name] (by simp) (by simpa using Ne.symm hrest)
    have hshort := (forall_mem_cons.mp h.short).1
    cases entry with
    | directory sub => exact ih ((placeable_of_directory hentry hshort).mp h).2
    | file old | symlink target | special => simp [kindAt, hentry] at hparent

section Writers

variable {files : List SnapshotFile} (h : ∀ file ∈ files, SourcePath file.path)

include h

theorem materialize_eq_ok_iff (workspace : List Bytes) (d d' : Directory) :
    materialize files workspace d = .ok d' ↔ placeAll false (placed files) d = .ok d' := by
  refine foldlM_eq_ok_iff (fun file hfile d d' => ?_) d d'
  have hpath := h file hfile
  have hjoin := joinPath_eq hpath workspace
  simp only [bind_eq_ok, mapError_eq_ok, failIf_eq_ok, exists_const, validateSourcePath_eq_ok,
    hpath, true_and, hjoin, drop_left, prefix_append, not_true_eq_false,
    not_false_eq_true]
  constructor
  · rintro ⟨-, -, hplace⟩
    exact hplace
  · intro hplace
    exact ⟨(), resolves_of_placeable (place_eq_ok hplace).1, hplace⟩

theorem materializeSnapshot_eq_ok_iff {data : Bytes} {budget snapshot}
    (hparse : parseSourceSnapshotWithBudget data budget = .ok snapshot)
    (hfiles : snapshot.files = files) (destination : List Bytes) (d d' : Directory) :
    materializeSnapshot data destination budget d = .ok d' ↔
      placeAll true (placed files) d = .ok d' := by
  have hloop : materializeSnapshot data destination budget d = files.foldlM (fun d file => do
      let output := joinPath destination file.path
      failIf (¬destination <+: output) (WriteError.escapes file.path)
      let relative := output.drop destination.length
      failIf (relative = [] ∨ relative.contains (ascii "..")) (WriteError.unsafePath relative)
      (place true file.content relative d).mapError (WriteError.file file.path)) d := by
    rw [materializeSnapshot, hparse, ← hfiles]
    rfl
  rw [hloop]
  refine foldlM_eq_ok_iff (fun file hfile d d' => ?_) d d'
  have hpath := h file hfile
  have hjoin := joinPath_eq hpath destination
  obtain ⟨rest, -, heq⟩ := below_of_sourcePath hpath
  have hsafe :
      ¬(pathComponents file.path = [] ∨ (pathComponents file.path).contains (ascii "..")) := by
    rintro (hempty | hdots)
    · rw [hempty] at heq
      cases heq
    · exact (hpath.build.safe _ (by simpa using hdots)).2.2 rfl
  simp only [bind_eq_ok, mapError_eq_ok, failIf_eq_ok, exists_const, hjoin, drop_left,
    prefix_append, not_true_eq_false, not_false_eq_true, true_and, hsafe]
  rfl

theorem replaceSeedTree_eq_ok_iff (worktree : List Bytes) (d d' : Directory) :
    replaceSeedTree worktree files d = .ok d' ↔
      placeAll false (placed files) ((d.erase seedName).put seedName (.directory [])) = .ok d' := by
  refine foldlM_eq_ok_iff (fun file hfile d d' => ?_) _ d'
  have hpath := h file hfile
  have hjoin := joinPath_eq hpath worktree
  obtain ⟨rest, -, heq⟩ := below_of_sourcePath hpath
  have hwithin : worktree ++ [seedName] <+: worktree ++ pathComponents file.path := by
    rw [heq]
    exact (prefix_append_right_inj worktree).mpr (by simp)
  simp only [bind_eq_ok, mapError_eq_ok, failIf_eq_ok, exists_const, hjoin, drop_left,
    hwithin, not_true_eq_false, not_false_eq_true, true_and]
  rfl

/-- **Files that are placed where there was no seed directory, or an empty one.** -/
theorem exists_placed_iff (hnodup : (files.map SnapshotFile.path).Nodup) (exclusive : Bool)
    {d start} (hseed : ∀ rest, rest ≠ [] → kindAt (seedName :: rest) start = none)
    (hroot : kindAt [seedName] start = none ∨ kindAt [seedName] start = some .directory)
    (hother : ∀ name rest, name ≠ seedName →
      kindAt (name :: rest) start = kindAt (name :: rest) d) :
    (∃ d', placeAll exclusive (placed files) start = .ok d' ∧ WrittenBelowSeed files d d') ↔
      PrefixFree (files.map filePath) := by
  have hdistinct : (files.map filePath).Nodup := by
    have hmap := hnodup.map pathComponents_injective
    rwa [map_map] at hmap
  have hfst := map_fst_placed files
  have hiff := @exists_placeAll_iff exclusive (placed files) start (by rwa [hfst])
    (fun file hfile => ?_) (fun file hfile => ?_)
  · rw [hfst] at hiff
    rw [← hiff]
    refine exists_congr fun d' => ⟨fun hplaced => hplaced.1, fun hplaced => ⟨hplaced, ?_⟩⟩
    have hkind := kindAt_placeAll hplaced (by rwa [hfst])
    refine ⟨hdistinct, fun file hfile => below_of_sourcePath (h file hfile), ?_, ?_, ?_⟩
    · intro file hfile
      exact (hkind (filePath file)).1 (filePath file, file.content)
        (mem_map.mpr ⟨file, hfile, rfl⟩) rfl
    · intro rest content hcontent
      by_contra hnone
      have hne : ∀ file ∈ placed files, file.1 ≠ seedName :: rest := by
        rintro _ hmem heq
        obtain ⟨file, hfile, rfl⟩ := mem_map.mp hmem
        exact hnone ⟨file, hfile, heq⟩
      by_cases hsome : ∃ file ∈ placed files, seedName :: rest <+: file.1
      · rw [(hkind _).2.1 hne hsome] at hcontent
        cases hcontent
      rw [(hkind _).2.2 fun file hmem hpre => hsome ⟨file, hmem, hpre⟩] at hcontent
      by_cases hrest : rest = []
      · subst hrest
        rcases hroot with hroot | hroot
        all_goals
          rw [hroot] at hcontent
          cases hcontent
      · rw [hseed rest hrest] at hcontent
        cases hcontent
    · intro name rest hname
      rw [(hkind _).2.2, hother name rest hname]
      intro file hmem hpre
      obtain ⟨file, hfile, rfl⟩ := mem_map.mp hmem
      obtain ⟨below, -, heq⟩ := below_of_sourcePath (h file hfile)
      have hfilePath : filePath file = seedName :: below := heq
      rw [hfilePath] at hpre
      exact hname (cons_prefix_cons.mp hpre).1
  · obtain ⟨file, hmem, rfl⟩ := mem_map.mp hfile
    exact (placeable_of_sourcePath (h file hmem) hseed hroot).1
  · obtain ⟨file, hmem, rfl⟩ := mem_map.mp hfile
    exact (@placeable_of_sourcePath _ (h file hmem) exclusive _ hseed hroot).2

end Writers

/-! ### Accepted snapshots -/

/-- **The three writers write an accepted snapshot out exactly when no path of it leads through
another one.** -/
theorem writable_iff_prefixFree (data : Bytes) (budget : Budget) (snapshot : SourceSnapshot)
    (h : parseSourceSnapshotWithBudget data budget = .ok snapshot) :
    Writable data budget snapshot.files ↔ PrefixFree (snapshot.files.map filePath) := by
  have hbudget : budget.Valid := by
    simp only [parseSourceSnapshotWithBudget, bind_eq_ok, exists_const,
      Budget.validate_eq_ok] at h
    exact h.1
  obtain ⟨hvalid, -, -⟩ := (parseSourceSnapshotWithBudget_eq_ok hbudget).mp h
  have hpaths := hvalid.paths
  have hempty : ∀ exclusive, (∃ d', placeAll exclusive (placed snapshot.files) [] = .ok d' ∧
      WrittenBelowSeed snapshot.files [] d') ↔ PrefixFree (snapshot.files.map filePath) :=
    fun exclusive => exists_placed_iff hpaths hvalid.nodup exclusive (fun _ _ => rfl) (.inl rfl)
      fun _ _ _ => rfl
  constructor
  · intro hwritable
    obtain ⟨d', hd', hwritten⟩ := hwritable.trusted []
    exact (hempty false).mp ⟨d', (materialize_eq_ok_iff hpaths [] [] d').mp hd', hwritten⟩
  · intro hprefixFree
    refine ⟨fun workspace => ?_, fun destination => ?_, fun worktree d => ?_⟩
    · obtain ⟨d', hd', hwritten⟩ := (hempty false).mpr hprefixFree
      exact ⟨d', (materialize_eq_ok_iff hpaths workspace [] d').mpr hd', hwritten⟩
    · obtain ⟨d', hd', hwritten⟩ := (hempty true).mpr hprefixFree
      exact ⟨d', (materializeSnapshot_eq_ok_iff hpaths h rfl destination [] d').mpr hd', hwritten⟩
    · have hplaced := @exists_placed_iff _ hpaths hvalid.nodup false d
        ((d.erase seedName).put seedName (.directory [])) (fun rest hrest => ?_) ?_
        fun name rest hname => ?_
      · obtain ⟨d', hd', hwritten⟩ := hplaced.mpr hprefixFree
        exact ⟨d', (replaceSeedTree_eq_ok_iff hpaths worktree d d').mpr hd', hwritten⟩
      · rw [kindAt_put_directory, kindAt_empty hrest]
      · exact .inr (by rw [kindAt_put_directory]; rfl)
      · rw [kindAt_put_of_ne hname, kindAt, kindAt, Named.entry_erase_of_ne hname]

/-- A snapshot of two files in one directory. -/
def twoFiles : List SnapshotFile := [⟨ascii "seed/a/b", [1]⟩, ⟨ascii "seed/a/c", []⟩]

theorem writable_twoFiles :
    parseSourceSnapshotWithBudget (encodeSnapshotFiles twoFiles) 0 =
        .ok ⟨encodeSnapshotFiles twoFiles, twoFiles⟩ ∧
      Writable (encodeSnapshotFiles twoFiles) 0 twoFiles := by
  have hparse : parseSourceSnapshotWithBudget (encodeSnapshotFiles twoFiles) 0 =
      .ok ⟨encodeSnapshotFiles twoFiles, twoFiles⟩ := by decide +kernel
  exact ⟨hparse, (writable_iff_prefixFree _ _ _ hparse).mpr (by decide +kernel)⟩

/-- A file and another one behind its path, which the parser accepts. -/
def fileBehindFile : List SnapshotFile := [⟨ascii "seed/a", []⟩, ⟨ascii "seed/a/b", []⟩]

theorem fileBehindFile_not_writable :
    parseSourceSnapshotWithBudget (encodeSnapshotFiles fileBehindFile) 0 =
        .ok ⟨encodeSnapshotFiles fileBehindFile, fileBehindFile⟩ ∧
      (∀ d', materialize fileBehindFile [] [] ≠ .ok d') ∧
      ¬Writable (encodeSnapshotFiles fileBehindFile) 0 fileBehindFile := by
  have hfails : ∀ d', materialize fileBehindFile [] [] ≠ .ok d' := by
    intro d' hd'
    have herror : (materialize fileBehindFile [] []).isOk = false := by decide +kernel
    rw [hd'] at herror
    cases herror
  refine ⟨by decide +kernel, hfails, fun hwritable => ?_⟩
  obtain ⟨d', hd', -⟩ := hwritable.trusted []
  exact hfails d' hd'

end Carcer.Build
