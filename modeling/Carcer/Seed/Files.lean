import Carcer.Machine.Checked

/-!
# The seed's file store

The store of `seed/files.c`: a table of files sorted by path, and one array that holds their
contents back to back in the order of creation. Every function of the source is a checked
computation on the store, so that an index outside an array or a `uint32_t` operation that wraps
is a fault.

## Main definitions

* `File`, `Store`: one row of the table, and the static variables of the source
* `comparePaths`, `createFile`, `filesInit`, `fileFind`, `resizeFile`, `fileWrite`,
  `fileTruncate`, `fileRemove`: the functions of the source
* `Call`, `Store.call`, `Store.calls`: one call of the store's interface, and a sequence of calls
-/

namespace Carcer.Seed

open Carcer.Machine

def fileContentCapacity : ℕ := 64 * 1024

def fileMaxCount : ℕ := 128

def fileMaxPathLength : ℕ := 255

/-- `struct file`. -/
structure File where
  path : FixedArray UInt8 fileMaxPathLength
  pathLength : ℕ
  contentOffset : ℕ
  contentLength : ℕ

instance : Inhabited File := ⟨⟨.fill _ 0, 0, 0, 0⟩⟩

/-- The static variables `contents`, `content_used`, `files` and `file_count`. -/
structure Store where
  contents : FixedArray UInt8 fileContentCapacity
  contentUsed : ℕ
  files : FixedArray File fileMaxCount
  fileCount : ℕ

/-- The store before `files_init`: zeroed static storage. -/
def Store.zeroed : Store := ⟨.fill _ 0, 0, .fill _ default, 0⟩

/-- A pointer and a length that a caller passes: `length` readable bytes, and the length a
`uint32_t`. -/
structure Buffer where
  bytes : List UInt8
  length_lt : bytes.length < 2 ^ 32
  deriving DecidableEq

namespace Buffer

/-- The length passed with the pointer. -/
def length (b : Buffer) : ℕ := b.bytes.length

/-- The pointer passed with the length. -/
def source (b : Buffer) : ByteSource := readList b.bytes

end Buffer

/-- The pointer `file->path`. -/
def File.pathSource (file : File) : ByteSource := file.path.read

def copyFile (destination source : File) : Checked File := do
  let path ← copyBytes destination.path 0 source.pathSource source.pathLength
  return {
    path := path
    pathLength := source.pathLength
    contentOffset := source.contentOffset
    contentLength := source.contentLength }

def bytesEqual (left : ByteSource) (leftLength : ℕ) (right : ByteSource) (rightLength : ℕ) :
    Checked Bool := do
  if leftLength ≠ rightLength then return false
  let round ← scanRange 0 leftLength (fun index (_ : Unit) => do
    if (← left index) ≠ (← right index) then return .stop false
    return .next ()) ()
  match round with
  | .stop result => return result
  | .next () => return true

def comparePaths (left : ByteSource) (leftLength : ℕ) (right : ByteSource) (rightLength : ℕ) :
    Checked ℤ := do
  let sharedLength := if leftLength < rightLength then leftLength else rightLength
  let round ← scanRange 0 sharedLength (fun index (_ : Unit) => do
    let l ← left index
    let r ← right index
    if l < r then return .stop (-1)
    if l > r then return .stop 1
    return .next ()) ()
  match round with
  | .stop order => return order
  | .next () =>
    if leftLength < rightLength then return -1
    return if leftLength > rightLength then 1 else 0

/-- The first loop of `create_file`: the row before which `path` is inserted, or `none` when
`path` is in the table. -/
def insertionPoint (path : ByteSource) (pathLength : ℕ) (s : Store) : Checked (Option ℕ) := do
  let round ← scanRange 0 s.fileCount (fun insertion (_ : Unit) => do
    let file ← s.files.read insertion
    let order ← comparePaths file.pathSource file.pathLength path pathLength
    if order = 0 then return .stop none
    if order > 0 then return .stop (some insertion)
    return .next ()) ()
  match round with
  | .stop insertion => return insertion
  | .next () => return some s.fileCount

def createFile (path : ByteSource) (pathLength : ℕ) (data : ByteSource) (dataLength : ℕ)
    (s : Store) : Checked (Bool × Store) := do
  if pathLength = 0 ∨ pathLength > fileMaxPathLength ∨ s.fileCount ≥ fileMaxCount then
    return (false, s)
  if dataLength > (← subU32 fileContentCapacity s.contentUsed) then return (false, s)
  match ← insertionPoint path pathLength s with
  | none => return (false, s)
  | some insertion =>
    let files ← forDown s.fileCount insertion (fun index files => do
      let moved ← copyFile (← files.read index) (← files.read (← subU32 index 1))
      files.write index moved) s.files
    let file ← files.read insertion
    let newPath ← copyBytes file.path 0 path pathLength
    let files ← files.write insertion {
      path := newPath
      -- the cast to `uint16_t` keeps the low sixteen bits
      pathLength := pathLength % 2 ^ 16
      contentOffset := s.contentUsed
      contentLength := dataLength }
    let contents ← copyBytes s.contents s.contentUsed data dataLength
    let contentUsed ← addU32 s.contentUsed dataLength
    let fileCount ← addU32 s.fileCount 1
    return (true, ⟨contents, contentUsed, files, fileCount⟩)

/-- `struct embedded_file`: the arrays its pointers point to, with `size` for `end - data`. The
pointer `end` points into the array of `data`, or just past it. -/
structure EmbeddedFile where
  path : List UInt8
  pathLength : ℕ
  data : List UInt8
  size : ℕ
  pathLength_le : pathLength ≤ path.length
  pathLength_lt : pathLength < 2 ^ 16
  size_le : size ≤ data.length

/-- The loop of `files_init` over the rest of `initial_files`. -/
def initFiles : List EmbeddedFile → Store → Checked (Bool × Store)
  | [], s => return (true, s)
  | initial :: rest, s => do
    if initial.size > fileContentCapacity then return (false, s)
    let (created, s) ← createFile (readList initial.path) initial.pathLength
      (readList initial.data) initial.size s
    if created then initFiles rest s else return (false, s)

/-- `files_init`, on the table `initial_files`. -/
def filesInit (initialFiles : List EmbeddedFile) (s : Store) : Checked (Bool × Store) := do
  let s := { s with fileCount := 0, contentUsed := 0 }
  if initialFiles.length > fileMaxCount then return (false, s)
  initFiles initialFiles s

def fileSize (file : File) : ℕ := file.contentLength

/-- `file_content`: the pointer into `contents`. -/
def fileContent (s : Store) (file : File) : ByteSource :=
  fun index => s.contents.read (file.contentOffset + index)

/-- `file_find`: the row of the file, for the pointer to it. -/
def fileFind (path : ByteSource) (pathLength : ℕ) (s : Store) : Checked (Option ℕ) := do
  let round ← scanRange 0 s.fileCount (fun index (_ : Unit) => do
    let file ← s.files.read index
    if ← bytesEqual path pathLength file.pathSource file.pathLength then return .stop index
    return .next ()) ()
  match round with
  | .stop index => return some index
  | .next () => return none

def filePathHasPrefix (file : File) (leading : ByteSource) (leadingLength : ℕ) : Checked Bool := do
  if leadingLength > file.pathLength then return false
  bytesEqual file.pathSource leadingLength leading leadingLength

/-- The loops of `resize_file` and `file_remove` that re-base the extents of the other files:
every offset from `bound` on is moved. -/
def rebaseFiles (file bound : ℕ) (move : ℕ → Checked ℕ) (fileCount : ℕ)
    (files : FixedArray File fileMaxCount) : Checked (FixedArray File fileMaxCount) :=
  forRange 0 fileCount (fun index files => do
    let other ← files.read index
    if index ≠ file ∧ other.contentOffset ≥ bound then
      let contentOffset ← move other.contentOffset
      files.write index { other with contentOffset := contentOffset }
    else return files) files

/-- The byte move of `resize_file` towards higher indices, from the end downwards. -/
def moveUp (contents : FixedArray UInt8 fileContentCapacity) (contentUsed oldEnd growth : ℕ) :
    Checked (FixedArray UInt8 fileContentCapacity) :=
  forDown contentUsed oldEnd (fun index contents => do
    let byte ← contents.read (← subU32 index 1)
    contents.write (← subU32 (← addU32 index growth) 1) byte) contents

/-- The byte moves of `resize_file` and `file_remove` towards lower indices, from the start
upwards. -/
def moveDown (contents : FixedArray UInt8 fileContentCapacity)
    (oldEnd contentUsed shrinkage : ℕ) : Checked (FixedArray UInt8 fileContentCapacity) :=
  forRange oldEnd contentUsed (fun index contents => do
    let byte ← contents.read index
    contents.write (← subU32 index shrinkage) byte) contents

/-- The bytes a file grew by, which `resize_file` clears when `zero_growth` is set. -/
def clearGrowth (zeroGrowth : Bool) (contentOffset oldSize newSize : ℕ)
    (contents : FixedArray UInt8 fileContentCapacity) :
    Checked (FixedArray UInt8 fileContentCapacity) :=
  if zeroGrowth then
    forRange oldSize newSize (fun index contents => do
      contents.write (← addU32 contentOffset index) 0) contents
  else pure contents

/-- The branch of `resize_file` for a larger size. -/
def growFile (file oldSize oldEnd newSize : ℕ) (zeroGrowth : Bool) (s : Store) :
    Checked (Bool × Store) := do
  let growth ← subU32 newSize oldSize
  if growth > (← subU32 fileContentCapacity s.contentUsed) then return (false, s)
  let contents ← moveUp s.contents s.contentUsed oldEnd growth
  let files ← rebaseFiles file oldEnd (addU32 · growth) s.fileCount s.files
  let row ← files.read file
  let contents ← clearGrowth zeroGrowth row.contentOffset oldSize newSize contents
  let contentUsed ← addU32 s.contentUsed growth
  let files ← files.write file { row with contentLength := newSize }
  return (true, ⟨contents, contentUsed, files, s.fileCount⟩)

/-- The branch of `resize_file` for a smaller size. -/
def shrinkFile (file oldSize oldEnd newSize : ℕ) (s : Store) : Checked (Bool × Store) := do
  let shrinkage ← subU32 oldSize newSize
  let contents ← moveDown s.contents oldEnd s.contentUsed shrinkage
  let files ← rebaseFiles file oldEnd (subU32 · shrinkage) s.fileCount s.files
  let contentUsed ← subU32 s.contentUsed shrinkage
  let row ← files.read file
  let files ← files.write file { row with contentLength := newSize }
  return (true, ⟨contents, contentUsed, files, s.fileCount⟩)

/-- `resize_file`, on the row of the file. -/
def resizeFile (file newSize : ℕ) (zeroGrowth : Bool) (s : Store) : Checked (Bool × Store) := do
  let row ← s.files.read file
  let oldEnd ← addU32 row.contentOffset row.contentLength
  if newSize = row.contentLength then return (true, s)
  if newSize > row.contentLength then growFile file row.contentLength oldEnd newSize zeroGrowth s
  else shrinkFile file row.contentLength oldEnd newSize s

/-- The condition `new_size > file->content_length && !resize_file(file, new_size, 0)` of
`file_write`, negated: the file has room for the data. -/
def extendFile (file newSize : ℕ) (s : Store) : Checked (Bool × Store) := do
  let row ← s.files.read file
  if newSize > row.contentLength then resizeFile file newSize false s else return (true, s)

def fileWrite (path : Buffer) (offset : UInt32) (data : Buffer) (s : Store) :
    Checked (Bool × Store) := do
  match ← fileFind path.source path.length s with
  | none =>
    if offset = 0 then createFile path.source path.length data.source data.length s
    else return (false, s)
  | some file =>
    let row ← s.files.read file
    if offset.toNat > row.contentLength then return (false, s)
    if data.length > (← subU32 fileContentCapacity offset.toNat) then return (false, s)
    let newSize ← addU32 offset.toNat data.length
    let (extended, s) ← extendFile file newSize s
    if !extended then return (false, s)
    let row ← s.files.read file
    let contents ← copyBytes s.contents (row.contentOffset + offset.toNat) data.source data.length
    return (true, { s with contents := contents })

def fileTruncate (path : Buffer) (size : UInt32) (s : Store) : Checked (Bool × Store) := do
  match ← fileFind path.source path.length s with
  | none => return (false, s)
  | some file => resizeFile file size.toNat true s

/-- The part of `file_remove` that takes the content out of the shared array. -/
def removeContent (removal : ℕ) (s : Store) : Checked Store := do
  let row ← s.files.read removal
  let removedSize := row.contentLength
  let removedEnd ← addU32 row.contentOffset removedSize
  if removedSize = 0 then return s
  let contents ← moveDown s.contents removedEnd s.contentUsed removedSize
  let files ← rebaseFiles removal removedEnd (subU32 · removedSize) s.fileCount s.files
  let contentUsed ← subU32 s.contentUsed removedSize
  return ⟨contents, contentUsed, files, s.fileCount⟩

def fileRemove (path : Buffer) (s : Store) : Checked (Bool × Store) := do
  match ← fileFind path.source path.length s with
  | none => return (false, s)
  | some removal =>
    let s ← removeContent removal s
    -- `index + 1 < file_count`, for a count that is not zero
    let files ← forRange removal (s.fileCount - 1) (fun index files => do
      let moved ← copyFile (← files.read index) (← files.read (← addU32 index 1))
      files.write index moved) s.files
    let fileCount ← subU32 s.fileCount 1
    return (true, ⟨s.contents, s.contentUsed, files, fileCount⟩)

/-- A call of the store's interface, with any arguments. -/
inductive Call
  | write (path : Buffer) (offset : UInt32) (data : Buffer)
  | truncate (path : Buffer) (size : UInt32)
  | remove (path : Buffer)
  deriving DecidableEq

/-- One call: its result and the store it leaves. -/
def Store.call (s : Store) : Call → Checked (Bool × Store)
  | .write path offset data => fileWrite path offset data s
  | .truncate path size => fileTruncate path size s
  | .remove path => fileRemove path s

/-- A sequence of calls: their results in order, and the store they leave. -/
def Store.calls (s : Store) : List Call → Checked (List Bool × Store)
  | [] => return ([], s)
  | c :: cs => do
    let (result, s) ← s.call c
    let (results, s) ← s.calls cs
    return (result :: results, s)

end Carcer.Seed
