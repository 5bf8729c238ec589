import Carcer.Guest.Snapshot

/-!
# Capturing a source snapshot

`internal/guest/source_capture.go` reads the source of a guest through its list and read tools and
builds the canonical snapshot of what it has read. A read asks for one byte more than the budget
still allows, so that a reply within the budget is the whole file.

## Main definitions

* `ToolResult`, `decodeToolResult`: the result of a tool call
* `captureCanonicalSourceSnapshotWithBudget`: the capture, over any implementation of the tools
* `Serves invoke entries`: the tools list and read the files `entries`

## Main results

* `Serves.captureFiles`: what the loop of the capture has read when it returns
* `Serves.capture`: a capture that succeeds has read every file under the source directory, whole
-/

namespace Carcer.Guest

open Carcer.Wire List

structure ToolResult where
  status : ℕ
  output : Bytes
  deriving DecidableEq

/-- `DecodeToolResult`, or `error` when the status is missing. -/
def decodeToolResult {ε : Type} (error : ε) (payload : Bytes) : Except ε ToolResult := do
  let (status, output) ← takeBytes error 4 payload
  return ⟨leValue status, output⟩

/-- The tools that the capture calls. -/
inductive CaptureTool
  | list
  | read
  deriving DecidableEq

/-- The errors of the capture, each with what its text prints. -/
inductive CaptureError (ε : Type)
  /-- The error of a tool call. -/
  | invoke (error : ε)
  /-- An error of the snapshot or of its budget. -/
  | snapshot (error : SnapshotError)
  /-- "source list failed with status %d" -/
  | listStatus (status : ℕ)
  /-- "source list is not valid UTF-8" -/
  | listEncoding
  /-- "source list contains an empty path" -/
  | emptyPath
  /-- "source list contains path outside seed/ prefix: %q" -/
  | outsideSource (path : Bytes)
  /-- "source read for %q failed with status %d" -/
  | readStatus (path : Bytes) (status : ℕ)
  deriving DecidableEq

def itoa : ℤ → Bytes
  | .ofNat n => decimal n
  | .negSucc n => 0x2d :: decimal (n + 1)

/-- `strings.TrimSuffix(text, "\n")`. -/
def trimNewline (text : Bytes) : Bytes :=
  if text.getLast? = some 0x0a then text.dropLast else text

/-- The paths of a listing, one a line. -/
def listedPaths (output : Bytes) : List Bytes :=
  let text := trimNewline output
  if text = [] then [] else text.splitOn 0x0a

/-- `sort.Strings`. -/
def sortStrings (paths : List Bytes) : List Bytes := paths.insertionSort (· ≤ ·)

section Capture

variable {ε : Type} (invoke : CaptureTool → List Bytes → Except ε ToolResult) (budget : Budget)

/-- The loop over the listed paths, with the bytes read so far. -/
def captureFiles : List Bytes → ℤ → Except (CaptureError ε) (List SnapshotFile)
  | [], _ => .ok []
  | path :: paths, total => do
    failIf (path = []) .emptyPath
    failIf (¬ascii "seed/" <+: path) (.outsideSource path)
    (validateSourcePath path).mapError .snapshot
    let requested := budget.bytes - total + 1
    let result ← (invoke .read [path, ascii "0", itoa requested]).mapError .invoke
    failIf (result.status ≠ 0) (.readStatus path result.status)
    failIf (result.output.length > budget.bytes - total) (.snapshot (.exceeded budget.bytes))
    let files ← captureFiles paths (total + result.output.length)
    return ⟨path, result.output⟩ :: files

def captureCanonicalSourceSnapshotWithBudget : Except (CaptureError ε) SourceSnapshot := do
  budget.validate.mapError .snapshot
  let listed ← (invoke .list [ascii "seed/"]).mapError .invoke
  failIf (listed.status ≠ 0) (.listStatus listed.status)
  failIf (!utf8Valid listed.output) .listEncoding
  let paths := listedPaths listed.output
  failIf (paths.length > maxSnapshotFiles) (.snapshot .tooManyFiles)
  let files ← captureFiles invoke budget (sortStrings paths) 0
  (newCanonicalSourceSnapshotWithBudget files budget).mapError .snapshot

end Capture

/-! ### The listing -/

theorem intercalate_append_newline {paths : List Bytes} (h : paths ≠ []) :
    [0x0a].intercalate paths ++ [0x0a] = paths.flatMap fun path => path ++ [0x0a] := by
  induction paths with
  | nil => exact absurd rfl h
  | cons path paths ih =>
    cases paths with
    | nil => simp
    | cons path' paths =>
      rw [intercalate_cons_cons, flatMap_cons, ← ih (by simp)]
      simp

/-- The lines of a listing of non-empty paths without line breaks are the paths. -/
theorem listedPaths_flatMap {paths} (hne : ∀ path ∈ paths, path ≠ [])
    (hlines : ∀ path ∈ paths, 0x0a ∉ path) :
    listedPaths (paths.flatMap fun path => path ++ [0x0a]) = paths := by
  rcases eq_nil_or_concat paths with rfl | ⟨_, last, hlast⟩
  · rfl
  have hpaths : paths ≠ [] := by
    rw [hlast]
    simp
  have htext : trimNewline (paths.flatMap fun path => path ++ [0x0a]) =
      [0x0a].intercalate paths := by
    rw [← intercalate_append_newline hpaths, trimNewline, getLast?_concat, if_pos rfl,
      dropLast_concat]
  have hsplit := splitOn_intercalate 0x0a hlines hpaths
  rw [listedPaths, htext, hsplit, if_neg]
  intro hempty
  rw [hempty] at hsplit
  have hmem : ([] : Bytes) ∈ paths := by
    rw [← hsplit]
    simp
  exact hne [] hmem rfl

theorem sortStrings_of_pairwise {paths : List Bytes} (h : paths.Pairwise (· < ·)) :
    sortStrings paths = paths :=
  (h.imp fun hlt => List.le_of_lt hlt).insertionSort_eq

/-! ### What a capture has read -/

/-- **The tools serve some files.** A list call that succeeds lists the paths under the source
directory, none of which contains a line break; a read call that succeeds returns the front of a
file. -/
structure Serves {ε : Type} (invoke : CaptureTool → List Bytes → Except ε ToolResult)
    (entries : List (Bytes × Bytes)) : Prop where
  list : ∀ result, invoke .list [ascii "seed/"] = .ok result → result.status = 0 →
    (∀ entry ∈ entries, ascii "seed/" <+: entry.1 → 0x0d ∉ entry.1 ∧ 0x0a ∉ entry.1) ∧
    result.output = (entries.filter fun entry => ascii "seed/" <+: entry.1).flatMap
      fun entry => entry.1 ++ [0x0a]
  read : ∀ path requested result, 0 < requested → requested ≤ 1048577 →
    invoke .read [path, ascii "0", itoa requested] = .ok result → result.status = 0 →
    ∃ content, (path, content) ∈ entries ∧ result.output = content.take requested.toNat

section Read

variable {ε : Type} {invoke : CaptureTool → List Bytes → Except ε ToolResult}
  {entries : List (Bytes × Bytes)} (h : Serves invoke entries) {budget : Budget}
  (hb : budget.Valid)
include h hb

/-- The files that the loop returns are files of the guest, and whole. -/
theorem Serves.captureFiles {paths} {total : ℤ} {files}
    (h0 : 0 ≤ total) (htotal : total ≤ budget.bytes)
    (hfiles : Guest.captureFiles invoke budget paths total = .ok files) :
    files.map SnapshotFile.path = paths ∧
      ∀ file ∈ files, SourcePath file.path ∧ (file.path, file.content) ∈ entries := by
  have hbytes := hb.bytes_le
  induction paths generalizing total files with
  | nil =>
    obtain rfl : [] = files := by simpa [Guest.captureFiles] using hfiles
    simp
  | cons path paths ih =>
    simp only [Guest.captureFiles, bind_eq_ok, failIf_eq_ok, exists_const, mapError_eq_ok,
      validateSourcePath_eq_ok, pure, Except.pure, Except.ok.injEq, not_not, not_lt] at hfiles
    obtain ⟨-, -, hpath, result, hread, hstatus, hfits, rest, hrest, rfl⟩ := hfiles
    obtain ⟨content, hmem, houtput⟩ :=
      h.read path _ result (by omega) (by omega) hread hstatus
    -- the reply is shorter than what was asked for, so it is the whole file
    have hwhole : result.output = content := by
      rw [houtput, length_take] at hfits
      rw [houtput, take_of_length_le (by omega)]
    obtain ⟨hpaths, hentries⟩ := ih (by omega) (by omega) hrest
    rw [map_cons, hpaths, forall_mem_cons]
    exact ⟨rfl, ⟨hpath, hwhole ▸ hmem⟩, hentries⟩

/-- **A capture that succeeds has read every file under the source directory.** -/
theorem Serves.capture (hsorted : (entries.map Prod.fst).Pairwise (· < ·)) {snapshot}
    (hcapture : captureCanonicalSourceSnapshotWithBudget invoke budget = .ok snapshot) :
    (∀ entry ∈ entries, ascii "seed/" <+: entry.1 →
      SourcePath entry.1 ∧ 0x0d ∉ entry.1 ∧ 0x0a ∉ entry.1) ∧
    snapshot.files = (entries.filter fun entry => ascii "seed/" <+: entry.1).map
      (fun entry => ⟨entry.1, entry.2⟩) ∧
    snapshot.encoded = encodeSnapshotFiles snapshot.files := by
  simp only [captureCanonicalSourceSnapshotWithBudget, bind_eq_ok, failIf_eq_ok, exists_const,
    mapError_eq_ok, newCanonicalSourceSnapshotWithBudget_eq_ok, not_not, not_lt] at hcapture
  obtain ⟨_, -, listed, hlist, hstatus, -, -, files, hfiles, -, rfl⟩ := hcapture
  obtain ⟨hlines, houtput⟩ := h.list listed hlist hstatus
  set source := entries.filter fun entry => ascii "seed/" <+: entry.1 with hsource
  have hmem : ∀ entry ∈ source, entry ∈ entries ∧ ascii "seed/" <+: entry.1 := by
    intro entry hentry
    simpa [hsource] using hentry
  have hpaths : listedPaths listed.output = source.map Prod.fst := by
    have hflat : listed.output = (source.map Prod.fst).flatMap fun path => path ++ [0x0a] := by
      rw [houtput, flatMap_map]
    rw [hflat]
    refine listedPaths_flatMap ?_ ?_
    · rintro _ hpath rfl
      obtain ⟨entry, hentry, hnil⟩ := mem_map.mp hpath
      have hleading := (hmem entry hentry).2
      rw [hnil] at hleading
      exact absurd hleading (by decide)
    · intro path hpath
      obtain ⟨entry, hentry, rfl⟩ := mem_map.mp hpath
      exact (hlines entry (hmem entry hentry).1 (hmem entry hentry).2).2
  have hordered : (source.map Prod.fst).Pairwise (· < ·) :=
    hsorted.sublist (filter_sublist.map _)
  rw [hpaths, sortStrings_of_pairwise hordered] at hfiles
  obtain ⟨hnames, hread⟩ := h.captureFiles hb le_rfl hb.bytes_nonneg hfiles
  -- a path determines its entry, so the files read are the files listed
  have hnodup : (entries.map Prod.fst).Nodup := hsorted.imp fun hlt => by
    rintro rfl
    exact List.lt_irrefl _ hlt
  have hunique : ∀ a ∈ entries, ∀ b ∈ entries, a.1 = b.1 → a = b := fun a ha b hb =>
    inj_on_of_nodup_map hnodup ha hb
  have heq : files = source.map fun entry => ⟨entry.1, entry.2⟩ := by
    have hlength : files.length = source.length := by simpa using congrArg List.length hnames
    refine ext_getElem (by simpa using hlength) fun i hi hi' => ?_
    have hi'' : i < source.length := hlength ▸ hi
    have hname : files[i].path = source[i].1 := by
      simpa [hi, hi''] using congrArg (·[i]?) hnames
    have hentry := hunique _ (hread _ (getElem_mem hi)).2 _
      (hmem _ (getElem_mem hi'')).1 hname
    rw [getElem_map, ← hentry]
  refine ⟨fun entry hentry hleading => ⟨?_, hlines entry hentry hleading⟩, ?_, rfl⟩
  · have hlisted : (⟨entry.1, entry.2⟩ : SnapshotFile) ∈ files := by
      rw [heq]
      exact mem_map_of_mem (by simpa [hsource] using ⟨hentry, hleading⟩)
    exact (hread _ hlisted).1
  · rw [← heq]
    refine sortByPath_of_pairwise ?_
    rw [← hnames, pairwise_map] at hordered
    exact hordered.imp fun hlt => List.le_of_lt hlt

end Read

end Carcer.Guest
