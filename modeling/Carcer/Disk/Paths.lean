import Carcer.Disk.Tree

/-!
# Files at paths

What `MkdirAll` and the writing of a file do to a tree of directories, for paths given by their
components.

## Main definitions

* `kindAt`: what stands at a path
* `makeDirectories`, `writeFile`, `place`: the directories of a path are made, a file is written,
  and both one after the other
* `placeAll`: files are placed one after the other
* `ProperPrefix`, `PrefixFree`: no path leads through another one

## Main results

* `exists_place_iff`, `kindAt_place`: when a file is placed, and what stands where afterwards
* `exists_placeAll_iff`, `kindAt_placeAll`: the same for many files
-/

namespace Carcer.Disk

open Carcer.Wire List

/-- Why a call on a path fails. -/
inductive PathError
  /-- ENAMETOOLONG -/
  | nameTooLong
  /-- ENOTDIR -/
  | notDirectory
  /-- EISDIR -/
  | isDirectory
  /-- EEXIST -/
  | exists
  /-- ENOENT -/
  | notExist
  /-- Something that is neither a file nor a directory is in the way. -/
  | other
  deriving DecidableEq

def nameMax : ℕ := 255

/-- What stands at a path. -/
inductive Kind
  | file (content : Bytes)
  | directory
  | other
  deriving DecidableEq

/-- What stands at a path. -/
def kindAt : List Bytes → Directory → Option Kind
  | [], _ => some .directory
  | name :: rest, d =>
    match d.entry name with
    | none => none
    | some (.directory sub) => kindAt rest sub
    | some (.file content) => if rest = [] then some (.file content) else none
    | some _ => if rest = [] then some .other else none

/-- `MkdirAll`. -/
def makeDirectories : List Bytes → Directory → Except PathError Directory
  | [], d => .ok d
  | name :: rest, d =>
    if name.length > nameMax then .error .nameTooLong
    else
      match d.entry name with
      | none => (makeDirectories rest []).map fun sub => d.put name (.directory sub)
      | some (.directory sub) =>
        (makeDirectories rest sub).map fun sub => d.put name (.directory sub)
      | some _ => .error .notDirectory

/-- A file is created, or its content replaced; an `exclusive` call refuses a file that is there. -/
def writeFile (exclusive : Bool) (content : Bytes) :
    List Bytes → Directory → Except PathError Directory
  | [], _ => .error .isDirectory
  | name :: rest, d =>
    if name.length > nameMax then .error .nameTooLong
    else
      match d.entry name with
      | none => if rest ≠ [] then .error .notExist else .ok (d.put name (.file content))
      | some (.directory sub) =>
        (writeFile exclusive content rest sub).map fun sub => d.put name (.directory sub)
      | some (.file _) =>
        if rest ≠ [] then .error .notDirectory
        else if exclusive then .error .exists
        else .ok (d.put name (.file content))
      | some _ => .error .other

/-- A file is written behind the directories that lead to it. -/
def place (exclusive : Bool) (content : Bytes) (path : List Bytes) (d : Directory) :
    Except PathError Directory := do
  let d ← makeDirectories path.dropLast d
  writeFile exclusive content path d

/-! ### One file -/

section Place

variable {exclusive : Bool} {content name : Bytes} {rest path : List Bytes} {d d' : Directory}

/-- A file below a name is placed in the directory of that name. -/
theorem place_cons (hrest : rest ≠ []) (hshort : name.length ≤ nameMax) :
    place exclusive content (name :: rest) d =
      match d.entry name with
      | none => (place exclusive content rest []).map fun sub => d.put name (.directory sub)
      | some (.directory sub) =>
        (place exclusive content rest sub).map fun sub => d.put name (.directory sub)
      | some _ => .error .notDirectory := by
  have hwrite : ∀ sub : Directory,
      writeFile exclusive content (name :: rest) (d.put name (.directory sub)) =
        (writeFile exclusive content rest sub).map fun sub => d.put name (.directory sub) := by
    intro sub
    rw [writeFile, if_neg (not_lt.mpr hshort)]
    simp only [Named.entry_put, Named.put_put]
  have hdrop : (name :: rest).dropLast = name :: rest.dropLast := dropLast_cons_of_ne_nil hrest
  rw [place, hdrop, makeDirectories, if_neg (not_lt.mpr hshort)]
  cases hentry : d.entry name with
  | none =>
    simp only
    rw [place]
    cases makeDirectories rest.dropLast [] with
    | error _ => rfl
    | ok sub => exact hwrite sub
  | some entry =>
    cases entry with
    | directory sub =>
      simp only
      rw [place]
      cases makeDirectories rest.dropLast sub with
      | error _ => rfl
      | ok sub => exact hwrite sub
    | _ => rfl

theorem place_long (hlong : name.length > nameMax) :
    place exclusive content (name :: rest) d = .error .nameTooLong := by
  by_cases hrest : rest = []
  · subst hrest
    exact if_pos hlong
  · rw [place, dropLast_cons_of_ne_nil hrest, makeDirectories, if_pos hlong]
    rfl

/-- A path that a file can be placed at: its names are short, nothing but directories leads to it,
and nothing, or a file that may be replaced, stands at it. -/
structure Placeable (exclusive : Bool) (path : List Bytes) (d : Directory) : Prop where
  ne_nil : path ≠ []
  short : ∀ name ∈ path, name.length ≤ nameMax
  parents : ∀ q, q <+: path → q ≠ path → kindAt q d = none ∨ kindAt q d = some .directory
  free : kindAt path d = none ∨ exclusive = false ∧ ∃ content, kindAt path d = some (.file content)

theorem kindAt_put_of_ne {other : Bytes} (h : other ≠ name) (entry : Entry) (q : List Bytes) :
    kindAt (other :: q) (d.put name entry) = kindAt (other :: q) d := by
  rw [kindAt, kindAt, Named.entry_put_of_ne h]

theorem kindAt_put_directory (sub : Directory) (q : List Bytes) :
    kindAt (name :: q) (d.put name (.directory sub)) = kindAt q sub := by
  simp only [kindAt, Named.entry_put]

theorem kindAt_put_file (q : List Bytes) :
    kindAt (name :: q) (d.put name (.file content)) =
      if q = [] then some (.file content) else none := by
  simp only [kindAt, Named.entry_put]

theorem kindAt_empty {q} (h : q ≠ []) : kindAt q [] = none := by
  obtain ⟨name, rest, rfl⟩ := exists_cons_of_ne_nil h
  rfl

theorem kindAt_of_entry_none (h : d.entry name = none) (q : List Bytes) :
    kindAt (name :: q) d = none := by
  simp only [kindAt, h]

theorem kindAt_of_entry_directory {sub} (h : d.entry name = some (.directory sub))
    (q : List Bytes) : kindAt (name :: q) d = kindAt q sub := by
  simp only [kindAt, h]

theorem placeable_of_directory {sub} (h : d.entry name = some (.directory sub))
    (hshort : name.length ≤ nameMax) :
    Placeable exclusive (name :: rest) d ↔ rest ≠ [] ∧ Placeable exclusive rest sub := by
  constructor
  · rintro ⟨-, hnames, hparents, hfree⟩
    have hrest : rest ≠ [] := by
      rintro rfl
      rw [kindAt_of_entry_directory h, kindAt] at hfree
      simp at hfree
    refine ⟨hrest, hrest, (forall_mem_cons.mp hnames).2, fun q hq hne => ?_, ?_⟩
    · have hparent := hparents (name :: q) ((cons_prefix_cons).mpr ⟨rfl, hq⟩)
        (by simpa using hne)
      rwa [kindAt_of_entry_directory h] at hparent
    · rwa [kindAt_of_entry_directory h] at hfree
  · rintro ⟨hrest, -, hnames, hparents, hfree⟩
    refine ⟨by simp, forall_mem_cons.mpr ⟨hshort, hnames⟩, fun q hq hne => ?_, ?_⟩
    · rcases prefix_cons_iff.mp hq with rfl | ⟨r, rfl, hr⟩
      · exact .inr rfl
      · rw [kindAt_of_entry_directory h]
        exact hparents r hr (by simpa using hne)
    · rwa [kindAt_of_entry_directory h]

theorem placeable_empty (hrest : rest ≠ []) (hnames : ∀ name ∈ rest, name.length ≤ nameMax) :
    Placeable exclusive rest [] := by
  refine ⟨hrest, hnames, fun q _ _ => ?_, .inl (kindAt_empty hrest)⟩
  by_cases hq : q = []
  · subst hq
    exact .inr rfl
  · exact .inl (kindAt_empty hq)

/-- What stands at a path behind the placing of a file. -/
def kindAfter (path : List Bytes) (content : Bytes) (q : List Bytes) (old : Option Kind) :
    Option Kind :=
  if q = path then some (.file content) else if q <+: path then some .directory else old

/-- What stands where, when a file was placed below a name. -/
theorem kindAt_put_kindAfter {sub new q}
    (hnew : ∀ q, kindAt q new = kindAfter rest content q (kindAt q sub))
    (hold : ∀ q, q ≠ [] → kindAt (name :: q) d = kindAt q sub) :
    kindAt q (d.put name (.directory new)) =
      kindAfter (name :: rest) content q (kindAt q d) := by
  unfold kindAfter
  rcases q with _ | ⟨other, q⟩
  · simp [kindAt]
  by_cases hname : other = name
  · subst hname
    rw [kindAt_put_directory, hnew, kindAfter]
    by_cases hq : q = []
    · subst hq
      simp
    · rw [hold q hq]
      simp [cons_prefix_cons]
  · rw [kindAt_put_of_ne hname, if_neg (by simp [hname]),
      if_neg (by simp [cons_prefix_cons, hname])]

theorem kindAt_put_kindAfter_file (h : ∀ q, q ≠ [] → kindAt (name :: q) d = none) (q : List Bytes) :
    kindAt q (d.put name (.file content)) = kindAfter [name] content q (kindAt q d) := by
  unfold kindAfter
  cases q with
  | nil => simp [kindAt]
  | cons other q =>
    by_cases hname : other = name
    · subst hname
      rw [kindAt_put_file]
      by_cases hq : q = []
      · simp [hq]
      · simp [hq, h q hq]
    · rw [kindAt_put_of_ne hname]
      simp [hname]

/-- **What a placed file changes**, and that it could be placed. -/
theorem place_eq_ok (h : place exclusive content path d = .ok d') :
    Placeable exclusive path d ∧ ∀ q, kindAt q d' = kindAfter path content q (kindAt q d) := by
  induction path generalizing d d' with
  | nil => cases h
  | cons name rest ih =>
    have hshort : name.length ≤ nameMax := by
      by_contra hlong
      rw [place_long (not_le.mp hlong)] at h
      cases h
    by_cases hrest : rest = []
    · subst hrest
      have hparents : ∀ q, q <+: [name] → q ≠ [name] →
          kindAt q d = none ∨ kindAt q d = some .directory := by
        intro q hq hne
        rcases prefix_cons_iff.mp hq with rfl | ⟨r, rfl, hr⟩
        · exact .inr rfl
        · exact absurd (by rw [prefix_nil.mp hr]) hne
      have hnames : ∀ other ∈ [name], other.length ≤ nameMax := by simpa using hshort
      have hwrite : writeFile exclusive content [name] d = .ok d' := h
      rw [writeFile, if_neg (not_lt.mpr hshort)] at hwrite
      rcases hentry : d.entry name with _ | entry
      · rw [hentry] at hwrite
        obtain rfl : d.put name (.file content) = d' := by simpa using hwrite
        exact ⟨⟨by simp, hnames, hparents, .inl (kindAt_of_entry_none hentry [])⟩,
          kindAt_put_kindAfter_file fun q _ => kindAt_of_entry_none hentry q⟩
      rw [hentry] at hwrite
      cases entry with
      | file old =>
        simp only [ne_eq, not_true_eq_false, if_false] at hwrite
        split_ifs at hwrite with hexclusive
        cases hwrite
        refine ⟨⟨by simp, hnames, hparents, .inr ⟨by simpa using hexclusive, old, ?_⟩⟩,
          kindAt_put_kindAfter_file fun q hq => ?_⟩
        · simp [kindAt, hentry]
        · simp [kindAt, hentry, hq]
      | directory sub | symlink target | special => cases hwrite
    · rw [place_cons hrest hshort] at h
      rcases hentry : d.entry name with _ | entry
      · rw [hentry] at h
        rcases hplace : place exclusive content rest [] with _ | sub
        · rw [hplace] at h
          cases h
        rw [hplace] at h
        cases h
        obtain ⟨hplaceable, hkind⟩ := ih hplace
        refine ⟨⟨by simp, forall_mem_cons.mpr ⟨hshort, hplaceable.short⟩, fun q hq hne => ?_,
          .inl (kindAt_of_entry_none hentry rest)⟩, fun q => kindAt_put_kindAfter hkind ?_⟩
        · rcases prefix_cons_iff.mp hq with rfl | ⟨r, rfl, hr⟩
          · exact .inr rfl
          · exact .inl (kindAt_of_entry_none hentry r)
        · intro q hq
          rw [kindAt_of_entry_none hentry, kindAt_empty hq]
      rw [hentry] at h
      cases entry with
      | directory sub =>
        simp only at h
        cases hplace : place exclusive content rest sub with
        | error _ =>
          rw [hplace] at h
          cases h
        | ok new =>
          rw [hplace] at h
          cases h
          obtain ⟨hplaceable, hkind⟩ := ih hplace
          exact ⟨(placeable_of_directory hentry hshort).mpr ⟨hrest, hplaceable⟩, fun q =>
            kindAt_put_kindAfter hkind fun q _ => kindAt_of_entry_directory hentry q⟩
      | file old | symlink target | special => cases h

/-- **A file is placed where it can be.** -/
theorem exists_place (h : Placeable exclusive path d) :
    ∃ d', place exclusive content path d = .ok d' := by
  induction path generalizing d with
  | nil => exact absurd rfl h.ne_nil
  | cons name rest ih =>
    obtain ⟨hshort, hnames⟩ := forall_mem_cons.mp h.short
    by_cases hrest : rest = []
    · subst hrest
      have hwrite : place exclusive content [name] d = writeFile exclusive content [name] d := rfl
      rw [hwrite, writeFile, if_neg (not_lt.mpr hshort)]
      have hfree := h.free
      rw [kindAt] at hfree
      cases hentry : d.entry name with
      | none => exact ⟨_, rfl⟩
      | some entry =>
        rw [hentry] at hfree
        cases entry with
        | file old =>
          have hexclusive : exclusive = false := by simpa using hfree
          exact ⟨d.put name (.file content), by simp [hexclusive]⟩
        | directory sub => simp [kindAt] at hfree
        | symlink target | special => simp at hfree
    · rw [place_cons hrest hshort]
      cases hentry : d.entry name with
      | none =>
        obtain ⟨sub, hsub⟩ := ih (placeable_empty hrest hnames)
        exact ⟨d.put name (.directory sub), by simp [hsub, Except.map]⟩
      | some entry =>
        have hparent := h.parents [name] (by simp) (by simpa using Ne.symm hrest)
        cases entry with
        | directory sub =>
          have hplaceable := ((placeable_of_directory hentry hshort).mp h).2
          obtain ⟨new, hnew⟩ := ih hplaceable
          exact ⟨d.put name (.directory new), by simp [hnew, Except.map]⟩
        | file old | symlink target | special => simp [kindAt, hentry] at hparent

end Place

/-! ### Many files -/

/-- A path leads through another one. -/
def ProperPrefix (q path : List Bytes) : Prop := q <+: path ∧ q ≠ path

instance (q path : List Bytes) : Decidable (ProperPrefix q path) :=
  inferInstanceAs (Decidable (_ ∧ _))

/-- Files are placed one after the other. -/
def placeAll (exclusive : Bool) (files : List (List Bytes × Bytes)) (d : Directory) :
    Except PathError Directory :=
  files.foldlM (fun d file => place exclusive file.2 file.1 d) d

/-- **No path leads through another one.** -/
def PrefixFree (paths : List (List Bytes)) : Prop :=
  ∀ q ∈ paths, ∀ path ∈ paths, ¬ProperPrefix q path

instance (paths : List (List Bytes)) : Decidable (PrefixFree paths) :=
  inferInstanceAs (Decidable (∀ q ∈ paths, ∀ path ∈ paths, ¬ProperPrefix q path))

section PlaceAll

variable {exclusive : Bool} {files : List (List Bytes × Bytes)} {d d' : Directory}

theorem placeAll_cons {file : List Bytes × Bytes} :
    placeAll exclusive (file :: files) d = .ok d' ↔
      ∃ next, place exclusive file.2 file.1 d = .ok next ∧
        placeAll exclusive files next = .ok d' := by
  rw [placeAll, foldlM_cons, bind_eq_ok]
  rfl

/-- What is in the way stays in the way: behind a file nothing is placed, and a directory is not
replaced. -/
theorem not_blocked (h : placeAll exclusive files d = .ok d') (q : List Bytes) :
    ((∃ content, kindAt q d = some (.file content)) →
      ∀ file ∈ files, ¬ProperPrefix q file.1) ∧
    (kindAt q d = some .directory → ∀ file ∈ files, q ≠ file.1) := by
  induction files generalizing d with
  | nil => simp
  | cons file files ih =>
    obtain ⟨next, hplace, hrest⟩ := placeAll_cons.mp h
    obtain ⟨hplaceable, hkind⟩ := place_eq_ok hplace
    obtain ⟨hfile, hdirectory⟩ := ih hrest
    constructor
    · rintro ⟨content, hcontent⟩
      have hnot : ¬ProperPrefix q file.1 := by
        rintro ⟨hpre, hne⟩
        rcases hplaceable.parents q hpre hne with hnone | hdir
        · rw [hcontent] at hnone
          cases hnone
        · rw [hcontent] at hdir
          cases hdir
      refine forall_mem_cons.mpr ⟨hnot, hfile ?_⟩
      rw [hkind q, kindAfter]
      by_cases hq : q = file.1
      · exact ⟨file.2, if_pos hq⟩
      · exact ⟨content, by rw [if_neg hq, if_neg fun hpre => hnot ⟨hpre, hq⟩, hcontent]⟩
    · intro hdir
      have hne : q ≠ file.1 := by
        rintro rfl
        rcases hplaceable.free with hnone | ⟨-, content, hcontent⟩
        · rw [hdir] at hnone
          cases hnone
        · rw [hdir] at hcontent
          cases hcontent
      refine forall_mem_cons.mpr ⟨hne, hdirectory ?_⟩
      rw [hkind q, kindAfter, if_neg hne]
      split_ifs
      · rfl
      · exact hdir

/-- What stands at a path behind the placing of many files with different paths. -/
theorem kindAt_placeAll (h : placeAll exclusive files d = .ok d')
    (hnodup : (files.map Prod.fst).Nodup) (q : List Bytes) :
    (∀ file ∈ files, file.1 = q → kindAt q d' = some (.file file.2)) ∧
    ((∀ file ∈ files, file.1 ≠ q) → (∃ file ∈ files, q <+: file.1) →
      kindAt q d' = some .directory) ∧
    ((∀ file ∈ files, ¬q <+: file.1) → kindAt q d' = kindAt q d) := by
  induction files generalizing d with
  | nil =>
    cases h
    simp
  | cons file files ih =>
    obtain ⟨next, hplace, hrest⟩ := placeAll_cons.mp h
    obtain ⟨-, hkind⟩ := place_eq_ok hplace
    rw [map_cons, nodup_cons] at hnodup
    obtain ⟨hfile, hdirectory, hother⟩ := ih hrest hnodup.2
    have hlater : ∀ later ∈ files, file.1 ≠ later.1 := fun later hmem heq =>
      hnodup.1 (heq ▸ mem_map_of_mem hmem)
    refine ⟨forall_mem_cons.mpr ⟨?_, hfile⟩, ?_, ?_⟩
    · rintro rfl
      -- no later path leads through the new file, so none changes it
      have hnew : kindAt file.1 next = some (.file file.2) := by
        rw [hkind, kindAfter, if_pos rfl]
      have hblocked := (not_blocked hrest file.1).1 ⟨_, hnew⟩
      rw [hother fun later hmem hpre => hblocked later hmem ⟨hpre, hlater later hmem⟩, hnew]
    · intro hne hexists
      obtain ⟨hnefile, hnerest⟩ := forall_mem_cons.mp hne
      by_cases hsome : ∃ later ∈ files, q <+: later.1
      · exact hdirectory hnerest hsome
      have hnone : ∀ later ∈ files, ¬q <+: later.1 := fun later hmem hpre =>
        hsome ⟨later, hmem, hpre⟩
      obtain ⟨found, hfound, hpre⟩ := hexists
      rcases mem_cons.mp hfound with rfl | hmem
      · rw [hother hnone, hkind, kindAfter, if_neg (Ne.symm hnefile), if_pos hpre]
      · exact absurd hpre (hnone found hmem)
    · intro hnone
      obtain ⟨hnotfile, hnotrest⟩ := forall_mem_cons.mp hnone
      rw [hother hnotrest, hkind, kindAfter, if_neg, if_neg hnotfile]
      rintro rfl
      exact hnotfile prefix_rfl

/-- **Files with different paths are placed exactly when no path leads through another one.** -/
theorem exists_placeAll_iff (hnodup : (files.map Prod.fst).Nodup)
    (hplaceable : ∀ file ∈ files, Placeable exclusive file.1 d)
    (hfree : ∀ file ∈ files, kindAt file.1 d = none) :
    (∃ d', placeAll exclusive files d = .ok d') ↔ PrefixFree (files.map Prod.fst) := by
  induction files generalizing d with
  | nil => exact ⟨fun _ => by simp [PrefixFree], fun _ => ⟨d, rfl⟩⟩
  | cons file files ih =>
    rw [map_cons, nodup_cons] at hnodup
    obtain ⟨hfile, hfiles⟩ := forall_mem_cons.mp hplaceable
    obtain ⟨-, hfreeRest⟩ := forall_mem_cons.mp hfree
    obtain ⟨next, hplace⟩ := @exists_place _ file.2 _ _ hfile
    obtain ⟨-, hkind⟩ := place_eq_ok hplace
    have hlater : ∀ later ∈ files, file.1 ≠ later.1 := fun later hmem heq =>
      hnodup.1 (heq ▸ mem_map_of_mem hmem)
    -- the file and the directories that lead to it stand in nobody's way
    have hnext : (∀ later ∈ files, ¬ProperPrefix file.1 later.1 ∧ ¬ProperPrefix later.1 file.1) →
        (∀ later ∈ files, Placeable exclusive later.1 next) ∧
        (∀ later ∈ files, kindAt later.1 next = none) := by
      intro hapart
      have hnone : ∀ later ∈ files, kindAt later.1 next = none := by
        intro later hmem
        rw [hkind, kindAfter, if_neg (Ne.symm (hlater later hmem)), if_neg, hfreeRest later hmem]
        exact fun hpre => (hapart later hmem).2 ⟨hpre, Ne.symm (hlater later hmem)⟩
      refine ⟨fun later hmem => ⟨(hfiles later hmem).ne_nil, (hfiles later hmem).short, ?_,
        .inl (hnone later hmem)⟩, hnone⟩
      intro q hq hne
      rw [hkind, kindAfter, if_neg]
      · split_ifs
        · exact .inr rfl
        · exact (hfiles later hmem).parents q hq hne
      · rintro rfl
        exact (hapart later hmem).1 ⟨hq, hne⟩
    constructor
    · rintro ⟨d', hd'⟩
      obtain ⟨next', hplace', hrest⟩ := placeAll_cons.mp hd'
      obtain rfl : next = next' := by
        rw [hplace] at hplace'
        exact Except.ok.inj hplace'
      have hapart : ∀ later ∈ files,
          ¬ProperPrefix file.1 later.1 ∧ ¬ProperPrefix later.1 file.1 := by
        intro later hmem
        constructor
        · refine (not_blocked hrest file.1).1 ⟨file.2, ?_⟩ later hmem
          rw [hkind, kindAfter, if_pos rfl]
        · rintro ⟨hpre, hne⟩
          refine (not_blocked hrest later.1).2 ?_ later hmem rfl
          rw [hkind, kindAfter, if_neg hne, if_pos hpre]
      have hrestFree := (ih hnodup.2 (hnext hapart).1 (hnext hapart).2).mp ⟨d', hrest⟩
      intro q hq path hpath
      rw [map_cons] at hq hpath
      rcases mem_cons.mp hq with rfl | hq <;> rcases mem_cons.mp hpath with rfl | hpath
      · exact fun hproper => hproper.2 rfl
      · obtain ⟨later, hmem, rfl⟩ := mem_map.mp hpath
        exact (hapart later hmem).1
      · obtain ⟨later, hmem, rfl⟩ := mem_map.mp hq
        exact (hapart later hmem).2
      · exact hrestFree q hq path hpath
    · intro hprefixFree
      have hapart : ∀ later ∈ files,
          ¬ProperPrefix file.1 later.1 ∧ ¬ProperPrefix later.1 file.1 := fun later hmem =>
        ⟨hprefixFree _ mem_cons_self _ (mem_cons_of_mem _ (mem_map_of_mem hmem)),
          hprefixFree _ (mem_cons_of_mem _ (mem_map_of_mem hmem)) _ mem_cons_self⟩
      have hrestFree : PrefixFree (files.map Prod.fst) := fun q hq path hpath =>
        hprefixFree q (mem_cons_of_mem _ hq) path (mem_cons_of_mem _ hpath)
      obtain ⟨d', hd'⟩ := (ih hnodup.2 (hnext hapart).1 (hnext hapart).2).mpr hrestFree
      exact ⟨d', placeAll_cons.mpr ⟨next, hplace, hd'⟩⟩

end PlaceAll

end Carcer.Disk
