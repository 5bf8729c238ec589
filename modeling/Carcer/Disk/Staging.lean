import Carcer.Disk.Tree

/-!
# Files that are staged

A file is written under a temporary name and gets its own name when it is complete. What a program
does to a directory is a list of calls, and a crash leaves what the calls before it have done.

## Main definitions

* `Call`, `Call.apply`: a call and what it does to the place of a directory
* `performCalls`: what a list of calls does
* `renamed`, `linked`: a file is staged and gets its name by a rename or by a link

## Main results

* `renamed_crash`, `linked_crash`: what each beginning of the calls leaves; at the end the file has
  its name, and nothing else has changed
-/

namespace Carcer.Disk

open Carcer.Wire List

/-- A call on the files of a directory. -/
inductive Call
  /-- The directory is made, if there is none. -/
  | makeDirectory
  | create (name : Bytes)
  | write (name content : Bytes)
  /-- A file gets its permissions, or a file or the directory is synced or closed, which nobody sees
  who reads. -/
  | settle
  | rename (old new : Bytes)
  | link (old new : Bytes)
  | remove (name : Bytes)

/-- What a call does to the entries of a directory. -/
def Call.enter (entries : Directory) : Call → Directory
  | .makeDirectory | .settle => entries
  | .create name => entries.put name (.file [])
  | .write name content => entries.put name (.file content)
  | .rename old new =>
    match entries.entry old with
    | some entry => (entries.erase old).put new entry
    | none => entries
  | .link old new =>
    match entries.entry old with
    | some entry => entries.put new entry
    | none => entries
  | .remove name => entries.erase name

/-- What a call does to the place of a directory. -/
def Call.apply (place : Option Entry) (call : Call) : Option Entry :=
  match place, call with
  | none, .makeDirectory => some (.directory [])
  | some (.directory entries), call => some (.directory (call.enter entries))
  | place, _ => place

/-- What a list of calls does. -/
def performCalls (place : Option Entry) (calls : List Call) : Option Entry :=
  calls.foldl Call.apply place

/-- A file is staged, and gets its name by a rename; the removal of the temporary name finds
nothing. -/
def renamed (temporary name content : Bytes) : List Call :=
  [.makeDirectory, .create temporary, .write temporary content, .settle, .settle,
    .rename temporary name, .settle, .remove temporary]

/-- A file is staged, and gets its name by a link; the temporary name is removed afterwards. -/
def linked (temporary name content : Bytes) : List Call :=
  [.makeDirectory, .create temporary, .settle, .write temporary content, .settle, .settle,
    .link temporary name, .settle, .remove temporary]

/-- The entries that calls begin with: none where there is no directory yet. -/
def opened : Option Entry → Option Directory
  | none => some []
  | some (.directory entries) => some entries
  | _ => none

section Crash

variable {place : Option Entry} {entries : Directory} {temporary name content : Bytes}

theorem performCalls_makeDirectory (h : opened place = some entries) (calls : List Call) :
    performCalls place (.makeDirectory :: calls) =
      some (.directory (calls.foldl Call.enter entries)) := by
  have hmade : Call.apply place .makeDirectory = some (.directory entries) := by
    unfold opened at h
    split at h
    iterate 2
      cases h
      rfl
    · cases h
  rw [performCalls, foldl_cons, hmade]
  clear hmade h
  induction calls generalizing entries with
  | nil => rfl
  | cons call calls ih => exact ih

section Entries

variable (hordered : entries.Ordered) (htemporary : entries.entry temporary = none)

include hordered htemporary

theorem enter_rename : Call.enter (entries.put temporary (.file content)) (.rename temporary name) =
    entries.put name (.file content) := by
  rw [Call.enter, Named.entry_put]
  simp only
  rw [Named.erase_put hordered htemporary]

omit hordered in
theorem enter_remove (hne : temporary ≠ name) :
    Call.enter (entries.put name (.file content)) (.remove temporary) =
      entries.put name (.file content) := by
  rw [Call.enter, Named.erase_of_entry]
  rw [Named.entry_put_of_ne hne, htemporary]

omit hordered htemporary in
theorem enter_link : Call.enter (entries.put temporary (.file content)) (.link temporary name) =
    (entries.put temporary (.file content)).put name (.file content) := by
  rw [Call.enter, Named.entry_put]

theorem enter_remove_linked (hne : temporary ≠ name) :
    Call.enter ((entries.put temporary (.file content)).put name (.file content))
      (.remove temporary) = entries.put name (.file content) :=
  Named.erase_put_put hordered htemporary hne _ _

end Entries

theorem enter_create : Call.enter entries (.create temporary) = entries.put temporary (.file []) :=
  rfl

theorem enter_write : Call.enter (entries.put temporary (.file [])) (.write temporary content) =
    entries.put temporary (.file content) := Named.put_put _ _ _ _

theorem enter_settle : Call.enter entries .settle = entries := rfl

/-- **What a crash leaves of a staged file that is renamed**: what was there, with the temporary
file beside it or with the file. -/
theorem renamed_crash (hopened : opened place = some entries) (hordered : entries.Ordered)
    (htemporary : entries.entry temporary = none) (hne : temporary ≠ name) (n : ℕ) :
    (n = 0 ∧ performCalls place ((renamed temporary name content).take n) = place) ∨
    (n = 1 ∧ performCalls place ((renamed temporary name content).take n) =
      some (.directory entries)) ∨
    (2 ≤ n ∧ n < 6 ∧ ∃ staged, performCalls place ((renamed temporary name content).take n) =
      some (.directory (entries.put temporary staged))) ∨
    (6 ≤ n ∧ performCalls place ((renamed temporary name content).take n) =
      some (.directory (entries.put name (.file content)))) := by
  have hrename := @enter_rename entries temporary name content hordered htemporary
  have hremove := @enter_remove entries temporary name content htemporary hne
  -- one case for each call that was made last
  rcases n with _ | _ | _ | _ | _ | _ | _ | _ | n
  · exact .inl ⟨rfl, rfl⟩
  all_goals
    simp only [renamed, take_succ_cons, take_zero, take_nil,
      performCalls_makeDirectory hopened, foldl_cons, foldl_nil, enter_create, enter_write,
      enter_settle, hrename, hremove]
  · exact .inr (.inl ⟨trivial, trivial⟩)
  iterate 4 exact .inr (.inr (.inl ⟨by omega, by omega, _, rfl⟩))
  iterate 3 exact .inr (.inr (.inr ⟨by omega, trivial⟩))

/-- **What a crash leaves of a staged file that is linked**: what was there, with the temporary file
beside it, with both names, or with the file. -/
theorem linked_crash (hopened : opened place = some entries) (hordered : entries.Ordered)
    (htemporary : entries.entry temporary = none) (hne : temporary ≠ name) (n : ℕ) :
    (n = 0 ∧ performCalls place ((linked temporary name content).take n) = place) ∨
    (n = 1 ∧ performCalls place ((linked temporary name content).take n) =
      some (.directory entries)) ∨
    (2 ≤ n ∧ n < 9 ∧ ∃ left : Directory, performCalls place
      ((linked temporary name content).take n) = some (.directory left) ∧
        (left.entry temporary).isSome = true) ∨
    (9 ≤ n ∧ performCalls place ((linked temporary name content).take n) =
      some (.directory (entries.put name (.file content)))) := by
  have hlink := @enter_link entries temporary name content
  have hremove := @enter_remove_linked entries temporary name content hordered htemporary hne
  have hstaged : ∀ entry : Entry,
      ((entries.put temporary entry).entry temporary).isSome = true := by
    intro entry
    rw [Named.entry_put]
    rfl
  have hboth : ∀ entry : Entry,
      (((entries.put temporary entry).put name entry).entry temporary).isSome = true := by
    intro entry
    rw [Named.entry_put_of_ne hne]
    exact hstaged entry
  rcases n with _ | _ | _ | _ | _ | _ | _ | _ | _ | n
  · exact .inl ⟨rfl, rfl⟩
  all_goals
    simp only [linked, take_succ_cons, take_zero, take_nil,
      performCalls_makeDirectory hopened, foldl_cons, foldl_nil, enter_create, enter_write,
      enter_settle, hlink, hremove]
  · exact .inr (.inl ⟨trivial, trivial⟩)
  iterate 5 exact .inr (.inr (.inl ⟨by omega, by omega, _, rfl, hstaged _⟩))
  iterate 2 exact .inr (.inr (.inl ⟨by omega, by omega, _, rfl, hboth _⟩))
  exact .inr (.inr (.inr ⟨by omega, trivial⟩))

theorem foldl_linked (hordered : entries.Ordered) (htemporary : entries.entry temporary = none)
    (hne : temporary ≠ name) :
    (linked temporary name content).foldl Call.enter entries =
      entries.put name (.file content) := by
  have hopened : opened (some (.directory entries)) = some entries := rfl
  rcases @linked_crash _ _ _ name content hopened hordered htemporary hne 9 with
    ⟨hn, -⟩ | ⟨hn, -⟩ | ⟨-, hn, -⟩ | ⟨-, hleft⟩
  iterate 3 omega
  rw [linked, take_of_length_le (by simp), performCalls_makeDirectory hopened] at hleft
  exact Entry.directory.inj (Option.some.inj hleft)

end Crash

end Carcer.Disk
