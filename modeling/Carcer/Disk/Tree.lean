import Carcer.Disk.Named

/-!
# Trees of files

What a directory holds, as a program sees it that looks at the kind of an entry, reads files up to
a limit and adds entries.

## Main definitions

* `Entry`, `Directory`: what a name stands for, and the names of a directory in order
* `readRegular`: a regular file is read up to a limit

## Main results

* `readRegular_eq_ok`: which files are read
-/

namespace Carcer.Disk

open Carcer.Wire

/-- What a name stands for. -/
inductive Entry
  | file (content : Bytes)
  | directory (entries : List (Bytes × Entry))
  /-- A symbolic link, with what it leads to. -/
  | symlink (target : Option Entry)
  /-- Anything else: a device, a socket, a pipe. -/
  | special

/-- The entries of a directory, in the order of their names. -/
abbrev Directory : Type := Named Entry

mutual

/-- What an entry is once links are followed. -/
def Entry.follow : Entry → Option Entry
  | .symlink target => followTarget target
  | entry => some entry

/-- What the target of a link is once links are followed. -/
def followTarget : Option Entry → Option Entry
  | some target => target.follow
  | none => none

end

/-- `Lstat` finds a directory. -/
def Entry.isDirectory : Option Entry → Bool
  | some (.directory _) => true
  | _ => false

/-- `Lstat` finds a symbolic link. -/
def Entry.isSymlink : Option Entry → Bool
  | some (.symlink _) => true
  | _ => false

/-- The entries of a directory, and none of anything else. -/
def Entry.entries : Option Entry → Directory
  | some (.directory entries) => entries
  | _ => []

/-- Why a file is not read. -/
inductive ReadError
  | notExist
  | symlink
  | notRegular
  | tooLarge
  deriving DecidableEq

/-- A regular file is opened, links not followed, and read up to a limit. -/
def readRegular (entry : Option Entry) (limit : ℕ) : Except ReadError Bytes :=
  match entry with
  | none => .error .notExist
  | some (.symlink _) => .error .symlink
  | some (.directory _) | some .special => .error .notRegular
  | some (.file content) => if content.length > limit then .error .tooLarge else .ok content

theorem readRegular_eq_ok {entry : Option Entry} {limit : ℕ} {content : Bytes} :
    readRegular entry limit = .ok content ↔
      entry = some (.file content) ∧ content.length ≤ limit := by
  unfold readRegular
  split
  iterate 4 simp
  rename_i stored
  split_ifs with hlimit
  · simp only [Option.some.injEq, Entry.file.injEq, false_iff, not_and]
    rintro rfl
    omega
  simp only [Except.ok.injEq, Option.some.injEq, Entry.file.injEq]
  constructor
  · rintro rfl
    exact ⟨rfl, not_lt.mp hlimit⟩
  · exact fun h => h.1

theorem readRegular_eq_notExist {entry : Option Entry} {limit : ℕ} :
    readRegular entry limit = .error .notExist ↔ entry = none := by
  unfold readRegular
  split <;> try simp
  split_ifs <;> simp

end Carcer.Disk
