import Carcer.Wire.Bytes

/-!
# Source snapshots

The snapshot format of `internal/guest/snapshot.go`: the files of a source tree, framed with
little-endian counts and lengths. The decoder walks the string with limit checks between the
fields and then validates the files as a whole.

## Main definitions

* `Budget`: the content budget of `internal/sourcecapacity`
* `SnapshotFile`, `SourceSnapshot`, `SnapshotError`: the values of the source
* `validateSourcePath`, `validateSnapshotFiles`: what a snapshot may hold
* `encodeSnapshotFiles`, `decodeSnapshotFiles`: the two directions of the format
* `newSourceSnapshotWithBudget`, `newCanonicalSourceSnapshotWithBudget`,
  `parseSourceSnapshotWithBudget`: the constructors of a snapshot

## Main results

* `validateSnapshotFiles_eq_ok`: what the validation accepts, as one predicate
* `decodeSnapshotFiles_eq_ok`: the decoder accepts the encodings of the accepted files, and
  nothing else
* `snapshotLimit_exact`: the limit of a budget rejects nothing that the budget allows
* `snapshot_codec`: the format is a bijection between the accepted strings and the accepted
  lists of files, and the canonical constructor sorts within it
-/

namespace Carcer.Guest

open Carcer.Wire List

abbrev Budget : Type := ℤ

namespace Budget

def default : ℤ := 64 * 1024

def expanded : ℤ := 1024 * 1024

/-- `Budget.Bytes`: zero stands for the default budget. -/
def bytes (b : Budget) : ℤ := if b = 0 then default else b

/-- `sourcecapacity.FramingOverhead`: the bytes of a snapshot that are not content, at most. -/
def framingOverhead : ℤ := 2 + 128 * (2 + 255 + 4)

def snapshotLimit (b : Budget) : ℤ := b.bytes + framingOverhead

/-- `Budget.Validate` returns no error. -/
def Valid (b : Budget) : Prop := b.bytes = default ∨ b.bytes = expanded

instance (b : Budget) : Decidable b.Valid := inferInstanceAs (Decidable (_ ∨ _))

theorem Valid.bytes_nonneg {b : Budget} (h : b.Valid) : 0 ≤ b.bytes := by
  rcases h with h | h <;> rw [h] <;> decide

theorem Valid.bytes_le {b : Budget} (h : b.Valid) : b.bytes ≤ 1048576 := by
  rcases h with h | h <;> rw [h] <;> decide

end Budget

def maxSnapshotFiles : ℕ := 128

def maxSourcePathBytes : ℕ := 255

structure SnapshotFile where
  path : Bytes
  content : Bytes
  deriving DecidableEq

/-- `SourceSnapshot`. Its third field, the digest of `encoded`, is left out. -/
structure SourceSnapshot where
  encoded : Bytes
  files : List SnapshotFile
  deriving DecidableEq

/-- The errors of the source, each with what its text prints. -/
inductive SnapshotError
  /-- "source content capacity must be %d or %d bytes" -/
  | capacity
  /-- "truncated source snapshot" -/
  | truncated
  /-- "source snapshot contains more than 128 files" -/
  | tooManyFiles
  /-- "source path length must be 1 through 255" -/
  | pathLength
  /-- "source path is not valid UTF-8" -/
  | pathEncoding
  /-- "source snapshot content exceeds %d KiB (%d bytes)" -/
  | exceeded (bytes : ℤ)
  /-- "unexpected trailing source snapshot data" -/
  | trailingData
  /-- "duplicate source path: %s" -/
  | duplicatePath (path : Bytes)
  /-- "unsafe source path: %q" -/
  | unsafePath (path : Bytes)
  deriving DecidableEq

def Budget.validate (b : Budget) : Except SnapshotError Unit :=
  failIf (¬b.Valid) .capacity

/-! ### Validation -/

/-- The components of `strings.Split(path, "/")`. -/
def pathComponents (path : Bytes) : List Bytes := path.splitOn 0x2f

def validateBuildPath (path : Bytes) : Except SnapshotError Unit := do
  failIf (0 ∈ path ∨ (0x0d ∈ path ∨ 0x0a ∈ path) ∨ path.head? = some 0x2f) (.unsafePath path)
  let components := pathComponents path
  failIf (components.length < 2 ∨ components.head? ≠ some (ascii "seed")) (.unsafePath path)
  failIf (∃ component ∈ components,
    component = [] ∨ component = ascii "." ∨ component = ascii "..") (.unsafePath path)

def validateSourcePath (path : Bytes) : Except SnapshotError Unit := do
  failIf (!utf8Valid path) .pathEncoding
  failIf (path.length < 1 ∨ path.length > maxSourcePathBytes) .pathLength
  validateBuildPath path

/-- The loop of `validateSnapshotFiles`, with the paths seen so far and the bytes counted. -/
def validateEntries (budget : Budget) :
    List SnapshotFile → List Bytes → ℤ → Except SnapshotError Unit
  | [], _, _ => .ok ()
  | file :: rest, paths, totalContent => do
    validateSourcePath file.path
    failIf (file.path ∈ paths) (.duplicatePath file.path)
    failIf (file.content.length > budget.bytes - totalContent) (.exceeded budget.bytes)
    validateEntries budget rest (file.path :: paths) (totalContent + file.content.length)

def validateSnapshotFiles (files : List SnapshotFile) (budget : Budget) :
    Except SnapshotError Unit := do
  budget.validate
  failIf (files.length > maxSnapshotFiles) .tooManyFiles
  validateEntries budget files [] 0

/-! ### The format -/

/-- One entry: the path and the content, each behind its length. -/
def encodeEntry (file : SnapshotFile) : Bytes :=
  leBytes 2 file.path.length ++ file.path ++ leBytes 4 file.content.length ++ file.content

def encodeSnapshotFiles (files : List SnapshotFile) : Bytes :=
  leBytes 2 files.length ++ files.flatMap encodeEntry

/-- The closure `take` of `decodeSnapshotFiles`, on what stands behind the offset. -/
def take (length : ℕ) (rest : Bytes) : Except SnapshotError (Bytes × Bytes) :=
  takeBytes .truncated length rest

/-- The body of the loop of `decodeSnapshotFiles`: one entry, and what stands behind it. -/
def decodeEntry (budget : Budget) (totalContent : ℤ) (rest : Bytes) :
    Except SnapshotError (SnapshotFile × Bytes) := do
  let (encodedPathLength, rest) ← take 2 rest
  let pathLength := leValue encodedPathLength
  failIf (pathLength = 0 ∨ pathLength > maxSourcePathBytes) .pathLength
  let (encodedPath, rest) ← take pathLength rest
  failIf (!utf8Valid encodedPath) .pathEncoding
  let (encodedContentLength, rest) ← take 4 rest
  let contentLength := leValue encodedContentLength
  failIf (contentLength > budget.bytes - totalContent) (.exceeded budget.bytes)
  let (content, rest) ← take contentLength rest
  return (⟨encodedPath, content⟩, rest)

/-- The loop of `decodeSnapshotFiles`: the entries still to come, and what is left behind them. -/
def decodeEntries (budget : Budget) :
    ℕ → ℤ → Bytes → Except SnapshotError (List SnapshotFile × Bytes)
  | 0, _, rest => .ok ([], rest)
  | fileCount + 1, totalContent, rest => do
    let (file, rest) ← decodeEntry budget totalContent rest
    let (files, rest) ← decodeEntries budget fileCount (totalContent + file.content.length) rest
    return (file :: files, rest)

def decodeSnapshotFiles (data : Bytes) (budget : Budget) :
    Except SnapshotError (List SnapshotFile) := do
  let (encodedCount, rest) ← take 2 data
  let fileCount := leValue encodedCount
  failIf (fileCount > maxSnapshotFiles) .tooManyFiles
  let (files, rest) ← decodeEntries budget fileCount 0 rest
  failIf (rest ≠ []) .trailingData
  validateSnapshotFiles files budget
  return files

def newSourceSnapshotWithBudget (files : List SnapshotFile) (budget : Budget) :
    Except SnapshotError SourceSnapshot := do
  validateSnapshotFiles files budget
  return ⟨encodeSnapshotFiles files, files⟩

/-- The order of `sort.Slice` in `NewCanonicalSourceSnapshotWithBudget`. -/
def PathLE (a b : SnapshotFile) : Prop := a.path ≤ b.path

instance : DecidableRel PathLE := fun a b => inferInstanceAs (Decidable (a.path ≤ b.path))

instance : Std.Total PathLE := ⟨fun a b => List.le_total a.path b.path⟩

instance : IsTrans SnapshotFile PathLE := ⟨fun _ _ _ => List.le_trans⟩

/-- The files sorted by path. The sort of the source is not stable; files of equal path, whose
order it leaves open, do not pass the validation behind it. -/
def sortByPath (files : List SnapshotFile) : List SnapshotFile := files.insertionSort PathLE

def newCanonicalSourceSnapshotWithBudget (files : List SnapshotFile) (budget : Budget) :
    Except SnapshotError SourceSnapshot :=
  newSourceSnapshotWithBudget (sortByPath files) budget

def parseSourceSnapshotWithBudget (data : Bytes) (budget : Budget) :
    Except SnapshotError SourceSnapshot := do
  budget.validate
  let files ← decodeSnapshotFiles data budget
  return ⟨data, files⟩

/-! ### What the validation accepts -/

/-- The paths that `validateBuildPath` accepts. -/
structure BuildPath (path : Bytes) : Prop where
  no_nul : 0 ∉ path
  no_line_break : 0x0d ∉ path ∧ 0x0a ∉ path
  relative : path.head? ≠ some 0x2f
  deep : 2 ≤ (pathComponents path).length
  seed : (pathComponents path).head? = some (ascii "seed")
  safe : ∀ component ∈ pathComponents path,
    component ≠ [] ∧ component ≠ ascii "." ∧ component ≠ ascii ".."

/-- The paths that `ValidateSourcePath` accepts. -/
structure SourcePath (path : Bytes) : Prop where
  utf8 : utf8Valid path = true
  length_pos : 1 ≤ path.length
  length_le : path.length ≤ maxSourcePathBytes
  build : BuildPath path

variable {u : Unit} {path : Bytes} {files : List SnapshotFile} {budget : Budget}
  {snapshot : SourceSnapshot}

theorem Budget.validate_eq_ok {b : Budget} : b.validate = .ok u ↔ b.Valid := by
  rw [validate, failIf_eq_ok, not_not]

theorem validateBuildPath_eq_ok : validateBuildPath path = .ok u ↔ BuildPath path := by
  simp only [validateBuildPath, bind_eq_ok, failIf_eq_ok, exists_const]
  push Not
  constructor
  · rintro ⟨⟨h₁, h₂, h₃⟩, ⟨h₄, h₅⟩, h₆⟩
    exact ⟨h₁, h₂, h₃, h₄, h₅, h₆⟩
  · rintro ⟨h₁, h₂, h₃, h₄, h₅, h₆⟩
    exact ⟨⟨h₁, h₂, h₃⟩, ⟨h₄, h₅⟩, h₆⟩

theorem validateSourcePath_eq_ok : validateSourcePath path = .ok u ↔ SourcePath path := by
  simp only [validateSourcePath, bind_eq_ok, failIf_eq_ok, exists_const, validateBuildPath_eq_ok,
    Bool.not_eq_true', Bool.not_eq_false]
  push Not
  constructor
  · rintro ⟨h₁, ⟨h₂, h₃⟩, h₄⟩
    exact ⟨h₁, h₂, h₃, h₄⟩
  · rintro ⟨h₁, h₂, h₃, h₄⟩
    exact ⟨h₁, ⟨h₂, h₃⟩, h₄⟩

/-- The bytes of the files together. -/
def contentLength (files : List SnapshotFile) : ℕ := (files.map fun file => file.content.length).sum

@[simp] theorem contentLength_cons (file : SnapshotFile) (files : List SnapshotFile) :
    contentLength (file :: files) = file.content.length + contentLength files := by
  simp [contentLength]

theorem validateEntries_eq_ok {paths : List Bytes} {total : ℤ} (htotal : total ≤ budget.bytes) :
    validateEntries budget files paths total = .ok () ↔
      (∀ file ∈ files, SourcePath file.path) ∧
      (∀ file ∈ files, file.path ∉ paths) ∧ (files.map SnapshotFile.path).Nodup ∧
      total + contentLength files ≤ budget.bytes := by
  induction files generalizing paths total with
  | nil => simp [validateEntries, contentLength, htotal]
  | cons file rest ih =>
    simp only [validateEntries, bind_eq_ok, failIf_eq_ok, exists_const, validateSourcePath_eq_ok,
      forall_mem_cons, map_cons, nodup_cons, contentLength_cons, not_lt,
      Nat.cast_add]
    constructor
    · rintro ⟨hpath, hnew, hfits, hrest⟩
      obtain ⟨hpaths, hfresh, hnodup, hsum⟩ := (ih (by omega)).mp hrest
      simp only [mem_cons, not_or] at hfresh
      refine ⟨⟨hpath, hpaths⟩, ⟨hnew, fun f hf => (hfresh f hf).2⟩, ⟨fun hmem => ?_, hnodup⟩,
        by omega⟩
      obtain ⟨f, hf, heq⟩ := mem_map.mp hmem
      exact (hfresh f hf).1 heq
    · rintro ⟨⟨hpath, hpaths⟩, ⟨hnew, hfresh⟩, ⟨hnotin, hnodup⟩, hsum⟩
      refine ⟨hpath, hnew, by omega, (ih (by omega)).mpr ⟨hpaths, fun f hf => ?_, hnodup,
        by omega⟩⟩
      rw [mem_cons, not_or]
      exact ⟨fun heq => hnotin (heq ▸ mem_map_of_mem hf), hfresh f hf⟩

/-- The lists of files that `validateSnapshotFiles` accepts. -/
structure ValidFiles (budget : Budget) (files : List SnapshotFile) : Prop where
  budget_valid : budget.Valid
  count_le : files.length ≤ maxSnapshotFiles
  paths : ∀ file ∈ files, SourcePath file.path
  nodup : (files.map SnapshotFile.path).Nodup
  content_le : contentLength files ≤ budget.bytes

theorem validateSnapshotFiles_eq_ok :
    validateSnapshotFiles files budget = .ok u ↔ ValidFiles budget files := by
  simp only [validateSnapshotFiles, bind_eq_ok, failIf_eq_ok, exists_const, not_lt,
    Budget.validate_eq_ok]
  constructor
  · rintro ⟨hb, hcount, hentries⟩
    obtain ⟨hpaths, -, hnodup, hsum⟩ := (validateEntries_eq_ok hb.bytes_nonneg).mp hentries
    exact ⟨hb, hcount, hpaths, hnodup, by omega⟩
  · rintro ⟨hb, hcount, hpaths, hnodup, hsum⟩
    exact ⟨hb, hcount, (validateEntries_eq_ok hb.bytes_nonneg).mpr
      ⟨hpaths, by simp, hnodup, by omega⟩⟩

/-! ### What the decoder accepts -/

/-- The paths that the decoder accepts before it validates them. -/
def FramedPath (path : Bytes) : Prop :=
  path.length ≠ 0 ∧ path.length ≤ maxSourcePathBytes ∧ utf8Valid path = true

theorem SourcePath.framed (h : SourcePath path) : FramedPath path :=
  ⟨Nat.one_le_iff_ne_zero.mp h.length_pos, h.length_le, h.utf8⟩

section Decoder

variable {budget : Budget} {total : ℤ} {data rest : Bytes}

theorem decodeEntry_eq_ok (hb : budget.Valid) (h0 : 0 ≤ total) {file : SnapshotFile} :
    decodeEntry budget total data = .ok (file, rest) ↔
      data = encodeEntry file ++ rest ∧ FramedPath file.path ∧
        total + file.content.length ≤ budget.bytes := by
  have hbytes := hb.bytes_le
  simp only [decodeEntry, take, bind_eq_ok, failIf_eq_ok, exists_const, Prod.exists,
    takeBytes_eq_ok, pure, Except.pure, Except.ok.injEq, Prod.mk.injEq, Bool.not_eq_true',
    Bool.not_eq_false, not_or, not_lt]
  constructor
  · rintro ⟨encodedPathLength, rest₁, ⟨hword, rfl⟩, ⟨hne, hle⟩, path, rest₂, ⟨hpath, rfl⟩, hutf8,
      encodedLength, rest₃, ⟨hword', rfl⟩, hfits, content, rest₄, ⟨hcontent, rfl⟩, rfl, rfl⟩
    rw [← hpath] at hne hle
    refine ⟨?_, ⟨hne, hle, hutf8⟩, by simp only; omega⟩
    rw [encodeEntry, hpath, hcontent, ← eq_leBytes hword, ← eq_leBytes hword']
    simp only [append_assoc]
  · rintro ⟨rfl, ⟨hne, hle, hutf8⟩, hfits⟩
    have hpath : leValue (leBytes 2 file.path.length) = file.path.length :=
      leValue_leBytes (hle.trans_lt (by decide))
    have hcontent : leValue (leBytes 4 file.content.length) = file.content.length :=
      leValue_leBytes (by norm_num; omega)
    exact ⟨_, _, ⟨length_leBytes _ _, by simp only [encodeEntry, append_assoc]⟩,
      by rw [hpath]; exact ⟨hne, hle⟩, _, _, ⟨hpath.symm, rfl⟩, hutf8, _, _,
      ⟨length_leBytes _ _, rfl⟩, by rw [hcontent]; omega, _, _, ⟨hcontent.symm, rfl⟩, rfl, rfl⟩

theorem decodeEntries_eq_ok (hb : budget.Valid) (h0 : 0 ≤ total) (htotal : total ≤ budget.bytes)
    {fileCount : ℕ} {files : List SnapshotFile} :
    decodeEntries budget fileCount total data = .ok (files, rest) ↔
      data = files.flatMap encodeEntry ++ rest ∧ files.length = fileCount ∧
        (∀ file ∈ files, FramedPath file.path) ∧
        total + contentLength files ≤ budget.bytes := by
  induction fileCount generalizing total data files with
  | zero =>
    simp only [decodeEntries, Except.ok.injEq, Prod.mk.injEq]
    constructor
    · rintro ⟨rfl, rfl⟩
      simpa [contentLength] using htotal
    · rintro ⟨hdata, hlength, -⟩
      obtain rfl := eq_nil_of_length_eq_zero hlength
      exact ⟨rfl, by simpa using hdata⟩
  | succ fileCount ih =>
    simp only [decodeEntries, bind_eq_ok, Prod.exists, decodeEntry_eq_ok hb h0, pure, Except.pure,
      Except.ok.injEq, Prod.mk.injEq]
    constructor
    · rintro ⟨file, rest₁, ⟨rfl, hframed, hfits⟩, files', rest₂, hdecode, rfl, rfl⟩
      obtain ⟨rfl, hlength, hpaths, hsum⟩ := (ih (by omega) (by omega)).mp hdecode
      refine ⟨by simp, by simp [hlength], forall_mem_cons.mpr ⟨hframed, hpaths⟩, ?_⟩
      rw [contentLength_cons]
      omega
    · rintro ⟨rfl, hlength, hpaths, hsum⟩
      cases files with
      | nil => simp at hlength
      | cons file files =>
        obtain ⟨hframed, hpaths⟩ := forall_mem_cons.mp hpaths
        rw [contentLength_cons] at hsum
        exact ⟨file, files.flatMap encodeEntry ++ rest, ⟨by simp, hframed, by omega⟩, files, rest,
          (ih (by omega) (by omega)).mpr ⟨rfl, by simpa using hlength, hpaths, by omega⟩, rfl,
          rfl⟩

/-- **The decoder accepts the encodings of the valid lists of files**, and returns the list. -/
theorem decodeSnapshotFiles_eq_ok (hb : budget.Valid) {files : List SnapshotFile} :
    decodeSnapshotFiles data budget = .ok files ↔
      ValidFiles budget files ∧ data = encodeSnapshotFiles files := by
  simp only [decodeSnapshotFiles, take, bind_eq_ok, failIf_eq_ok, exists_const, Prod.exists,
    takeBytes_eq_ok, decodeEntries_eq_ok hb le_rfl hb.bytes_nonneg, validateSnapshotFiles_eq_ok,
    pure, Except.pure, Except.ok.injEq, not_lt, not_not]
  constructor
  · rintro ⟨encodedCount, rest₁, ⟨hword, rfl⟩, hcount, files', rest₂, ⟨rfl, hlength, -⟩, rfl,
      hvalid, rfl⟩
    refine ⟨hvalid, ?_⟩
    rw [encodeSnapshotFiles, hlength, ← eq_leBytes hword, append_nil]
  · rintro ⟨hvalid, rfl⟩
    have hcount : leValue (leBytes 2 files.length) = files.length :=
      leValue_leBytes (hvalid.count_le.trans_lt (by decide))
    exact ⟨_, _, ⟨length_leBytes _ _, rfl⟩, hcount.trans_le hvalid.count_le, files, [],
      ⟨(append_nil _).symm, hcount.symm, fun f hf => (hvalid.paths f hf).framed,
        by have := hvalid.content_le; omega⟩, rfl, hvalid, rfl⟩

theorem parseSourceSnapshotWithBudget_eq_ok (hb : budget.Valid) {snapshot : SourceSnapshot} :
    parseSourceSnapshotWithBudget data budget = .ok snapshot ↔
      ValidFiles budget snapshot.files ∧ data = encodeSnapshotFiles snapshot.files ∧
        snapshot.encoded = data := by
  simp only [parseSourceSnapshotWithBudget, bind_eq_ok, exists_const, Budget.validate_eq_ok, hb,
    true_and, decodeSnapshotFiles_eq_ok hb, pure, Except.pure, Except.ok.injEq]
  constructor
  · rintro ⟨files, ⟨hvalid, rfl⟩, rfl⟩
    exact ⟨hvalid, rfl, rfl⟩
  · rintro ⟨hvalid, rfl, hencoded⟩
    exact ⟨_, ⟨hvalid, rfl⟩, by rw [← hencoded]⟩

end Decoder

/-- The bytes of the entries: what frames each one is bounded. -/
theorem length_flatMap_encodeEntry_le (h : ∀ file ∈ files, SourcePath file.path) :
    (files.flatMap encodeEntry).length ≤ files.length * (2 + 255 + 4) + contentLength files := by
  induction files with
  | nil => simp [contentLength]
  | cons file files ih =>
    obtain ⟨hfile, hfiles⟩ := forall_mem_cons.mp h
    have hrest := ih hfiles
    have hpath := hfile.length_le
    rw [maxSourcePathBytes] at hpath
    simp only [contentLength_cons, flatMap_cons, length_append, encodeEntry,
      length_leBytes, length_cons]
    omega

/-- **An accepted snapshot is within the limit of its budget.** -/
theorem length_le_snapshotLimit {data : Bytes}
    (h : parseSourceSnapshotWithBudget data budget = .ok snapshot) :
    (data.length : ℤ) ≤ budget.snapshotLimit := by
  have hb : budget.Valid := by
    obtain ⟨_, hbudget, -⟩ := bind_eq_ok.mp h
    exact Budget.validate_eq_ok.mp hbudget
  obtain ⟨hvalid, rfl, -⟩ := (parseSourceSnapshotWithBudget_eq_ok hb).mp h
  have hentries := length_flatMap_encodeEntry_le hvalid.paths
  have hcount := hvalid.count_le
  have hcontent := hvalid.content_le
  rw [maxSnapshotFiles] at hcount
  rw [encodeSnapshotFiles, length_append, length_leBytes, Budget.snapshotLimit,
    Budget.framingOverhead]
  push_cast
  omega

theorem length_content_le {files file} (h : file ∈ files) :
    file.content.length ≤ contentLength files :=
  le_sum_of_mem (mem_map_of_mem h)

/-- **The limit of a budget rejects nothing that the budget allows.** The encoding of files that the
validation accepts is within the limit, every count and length in it fits its field, and it is
parsed back; and nothing beyond the limit is parsed. -/
theorem snapshotLimit_exact (budget : Budget) :
    (∀ files, validateSnapshotFiles files budget = .ok () →
      ((encodeSnapshotFiles files).length : ℤ) ≤ budget.snapshotLimit ∧
      budget.snapshotLimit < 2 ^ 31 ∧ files.length < 256 ^ 2 ∧
      (∀ file ∈ files, file.path.length < 256 ^ 2 ∧ file.content.length < 256 ^ 4) ∧
      parseSourceSnapshotWithBudget (encodeSnapshotFiles files) budget =
        .ok ⟨encodeSnapshotFiles files, files⟩) ∧
    ∀ data : Bytes, budget.snapshotLimit < data.length →
      ∃ e, parseSourceSnapshotWithBudget data budget = .error e := by
  refine ⟨fun files hfiles => ?_, fun data hlong => ?_⟩
  · have hvalid := validateSnapshotFiles_eq_ok.mp hfiles
    have hparse : parseSourceSnapshotWithBudget (encodeSnapshotFiles files) budget =
        .ok ⟨encodeSnapshotFiles files, files⟩ :=
      (parseSourceSnapshotWithBudget_eq_ok hvalid.budget_valid).mpr ⟨hvalid, rfl, rfl⟩
    have hbytes := hvalid.budget_valid.bytes_le
    refine ⟨length_le_snapshotLimit hparse, ?_, hvalid.count_le.trans_lt (by decide),
      fun file hfile => ⟨(hvalid.paths file hfile).length_le.trans_lt (by decide), ?_⟩, hparse⟩
    · rw [Budget.snapshotLimit, Budget.framingOverhead]
      omega
    · have hcontent := hvalid.content_le
      have hle := length_content_le hfile
      omega
  · cases hparse : parseSourceSnapshotWithBudget data budget with
    | error e => exact ⟨e, rfl⟩
    | ok snapshot => exact absurd (length_le_snapshotLimit hparse) (not_le.mpr hlong)

/-- Two files, the larger path first. -/
def seedFiles : List SnapshotFile := [⟨ascii "seed/b", []⟩, ⟨ascii "seed/a", [7]⟩]

theorem valid_seedFiles : validateSnapshotFiles seedFiles 0 = .ok () := by decide +kernel

theorem seedFiles_within_limit :
    validateSnapshotFiles seedFiles 0 = .ok () ∧
      ((encodeSnapshotFiles seedFiles).length : ℤ) ≤ Budget.snapshotLimit 0 ∧
      parseSourceSnapshotWithBudget (encodeSnapshotFiles seedFiles) 0 =
        .ok ⟨encodeSnapshotFiles seedFiles, seedFiles⟩ := by
  obtain ⟨hlimit, -, -, -, hparse⟩ := (snapshotLimit_exact 0).1 _ valid_seedFiles
  exact ⟨valid_seedFiles, hlimit, hparse⟩

/-! ### The canonical order -/

theorem ValidFiles.perm {files files' : List SnapshotFile}
    (h : ValidFiles budget files) (hperm : files'.Perm files) : ValidFiles budget files' where
  budget_valid := h.budget_valid
  count_le := hperm.length_eq ▸ h.count_le
  paths := fun file hfile => h.paths file (hperm.mem_iff.mp hfile)
  nodup := (hperm.map _).nodup_iff.mpr h.nodup
  content_le := by
    rw [contentLength, (hperm.map _).sum_eq]
    exact h.content_le

theorem perm_sortByPath (files : List SnapshotFile) : (sortByPath files).Perm files :=
  perm_insertionSort _ _

theorem pairwise_sortByPath (files : List SnapshotFile) : (sortByPath files).Pairwise PathLE :=
  pairwise_insertionSort _ _

theorem pairwise_sortByPath_of_nodup (h : (files.map SnapshotFile.path).Nodup) :
    (sortByPath files).Pairwise fun a b => a.path < b.path := by
  have hne : (sortByPath files).Pairwise fun a b => a.path ≠ b.path :=
    pairwise_map.mp (((perm_sortByPath files).map _).nodup_iff.mpr h)
  exact (pairwise_sortByPath files).imp₂ (fun a b hle hne => Std.lt_of_le_of_ne hle hne) hne

theorem sortByPath_of_pairwise (h : files.Pairwise PathLE) : sortByPath files = files :=
  h.insertionSort_eq

theorem newSourceSnapshotWithBudget_eq_ok :
    newSourceSnapshotWithBudget files budget = .ok snapshot ↔
      ValidFiles budget files ∧ snapshot = ⟨encodeSnapshotFiles files, files⟩ := by
  simp only [newSourceSnapshotWithBudget, bind_eq_ok, exists_const, validateSnapshotFiles_eq_ok,
    pure, Except.pure, Except.ok.injEq]
  exact and_congr_right fun _ => eq_comm

theorem newCanonicalSourceSnapshotWithBudget_eq_ok :
    newCanonicalSourceSnapshotWithBudget files budget = .ok snapshot ↔
      ValidFiles budget files ∧
        snapshot = ⟨encodeSnapshotFiles (sortByPath files), sortByPath files⟩ := by
  rw [newCanonicalSourceSnapshotWithBudget, newSourceSnapshotWithBudget_eq_ok]
  have hperm := perm_sortByPath files
  exact and_congr_left fun _ => ⟨fun h => h.perm hperm.symm, fun h => h.perm hperm⟩

/-- **The snapshot format is exact.** Under a valid budget the parser accepts a string exactly
when it encodes a list of files that the validation accepts; the list is unique and is what the
parser returns. The canonical constructor encodes the same files in the order of their paths; it
is idempotent, and what it returns is accepted. -/
theorem snapshot_codec (budget : Budget) (hb : budget.Valid) :
    (∀ data, (∃ snapshot, parseSourceSnapshotWithBudget data budget = .ok snapshot) ↔
      ∃ files, validateSnapshotFiles files budget = .ok () ∧ data = encodeSnapshotFiles files) ∧
    (∀ data snapshot, parseSourceSnapshotWithBudget data budget = .ok snapshot →
      snapshot.encoded = data ∧ encodeSnapshotFiles snapshot.files = data ∧
        ∀ files, validateSnapshotFiles files budget = .ok () →
          encodeSnapshotFiles files = data → files = snapshot.files) ∧
    (∀ files, validateSnapshotFiles files budget = .ok () →
      parseSourceSnapshotWithBudget (encodeSnapshotFiles files) budget =
        .ok ⟨encodeSnapshotFiles files, files⟩) ∧
    ∀ files, validateSnapshotFiles files budget = .ok () →
      ∃ canonical, newCanonicalSourceSnapshotWithBudget files budget = .ok canonical ∧
        canonical.files.Perm files ∧
        canonical.files.Pairwise (fun a b => a.path < b.path) ∧
        canonical.encoded = encodeSnapshotFiles canonical.files ∧
        newCanonicalSourceSnapshotWithBudget canonical.files budget = .ok canonical ∧
        parseSourceSnapshotWithBudget canonical.encoded budget = .ok canonical := by
  have hround : ∀ files, ValidFiles budget files →
      parseSourceSnapshotWithBudget (encodeSnapshotFiles files) budget =
        .ok ⟨encodeSnapshotFiles files, files⟩ := fun files hvalid =>
    (parseSourceSnapshotWithBudget_eq_ok hb).mpr ⟨hvalid, rfl, rfl⟩
  simp only [validateSnapshotFiles_eq_ok]
  refine ⟨fun data => ?_, fun data snapshot h => ?_, hround, fun files hvalid => ?_⟩
  · constructor
    · rintro ⟨snapshot, h⟩
      obtain ⟨hvalid, hdata, -⟩ := (parseSourceSnapshotWithBudget_eq_ok hb).mp h
      exact ⟨_, hvalid, hdata⟩
    · rintro ⟨files, hvalid, rfl⟩
      exact ⟨_, hround files hvalid⟩
  · obtain ⟨-, hdata, hencoded⟩ := (parseSourceSnapshotWithBudget_eq_ok hb).mp h
    refine ⟨hencoded, hdata.symm, fun files hvalid hfiles => ?_⟩
    have hparsed := hround files hvalid
    rw [hfiles, h] at hparsed
    exact (congrArg SourceSnapshot.files (Except.ok.inj hparsed)).symm
  · have hsorted := hvalid.perm (perm_sortByPath files)
    refine ⟨_, newCanonicalSourceSnapshotWithBudget_eq_ok.mpr ⟨hvalid, rfl⟩,
      perm_sortByPath files, pairwise_sortByPath_of_nodup hvalid.nodup, rfl, ?_,
      hround _ hsorted⟩
    refine newCanonicalSourceSnapshotWithBudget_eq_ok.mpr ⟨hsorted, ?_⟩
    rw [sortByPath_of_pairwise (pairwise_sortByPath files)]

theorem snapshot_codec_two_files : Budget.Valid 0 ∧ validateSnapshotFiles seedFiles 0 = .ok () ∧
    ∃ canonical, newCanonicalSourceSnapshotWithBudget seedFiles 0 = .ok canonical ∧
      parseSourceSnapshotWithBudget canonical.encoded 0 = .ok canonical := by
  obtain ⟨canonical, h, -, -, -, -, hparse⟩ :=
    (snapshot_codec 0 (by decide)).2.2.2 _ valid_seedFiles
  exact ⟨by decide, valid_seedFiles, canonical, h, hparse⟩

end Carcer.Guest
