import Carcer.Seed.FileMoves

/-!
# The invariant of the file store

Every call of the store's interface keeps the store well formed and meets no fault: its index
stays inside the arrays and its words do not wrap.

## Main definitions

* `Store.Reachable`: the stores that `files_init` and the calls lead to

## Main results

* `Created.wellFormed`, `Resized.wellFormed`, `Removed.wellFormed`: the effects keep the invariant
* `fileWrite_returns`, `fileTruncate_returns`, `fileRemove_returns`: the effects of the calls
* `reachable_store_packed`: every reachable store is packed, and no call of it meets a fault
-/

namespace Carcer.Seed

open Carcer.Machine Carcer.Packed List

variable {s s' : Store} {e : Extent (List UInt8)} {path data : List UInt8} {file : ℕ}

theorem Store.getElem_table (s : Store) {i : ℕ} (hi : i < s.table.length) :
    s.table[i] = (s.files.get i).extent := by
  simp [Store.table]

/-! ### The effects keep the invariant -/

theorem Created.slice_eq (hs : s.WellFormed) (hc : Created s s' path data) (he : e ∈ s.table) :
    slice s'.contents.get e = slice s.contents.get e := by
  obtain ⟨f, hf⟩ := getElem?_of_mem he
  have hstop := hs.layout.stop_le hf
  simp only [Extent.stop] at hstop
  exact slice_congr rfl fun k hk => hc.keeps _ (by omega)

theorem Created.slice_new (hc : Created s s' path data) :
    slice s'.contents.get ⟨path, s.contentUsed, data.length⟩ = data :=
  ext_getElem (by simp) fun k hk hk' => by
    rw [getElem_slice]
    exact hc.holds k hk'

theorem Created.wellFormed (hs : s.WellFormed) (hc : Created s s' path data) : s'.WellFormed := by
  obtain ⟨i, ⟨hi, hbefore, hafter⟩, htable⟩ := hc.table
  have hi' : i ≤ s.table.length := by simpa using hi
  constructor
  · rw [hc.count]
    exact hc.count_lt
  · rw [htable, map_insertIdx]
    refine pairwise_insertIdx hs.sorted (by simpa using hi) (fun j hj hji => ?_)
      fun j hj hij => ?_
    · simpa [Store.getElem_table] using hbefore j hji
    · simpa [Store.getElem_table] using hafter j hij (by simpa using hj)
  · intro e he
    rw [htable] at he
    rcases (mem_insertIdx hi').mp he with rfl | he
    · exact hc.path_valid
    · exact hs.path_valid e he
  · rw [htable, hc.used]
    exact hs.layout.insertIdx hi' path data.length
  · rw [hc.used]
    exact hc.fits

/-- The keys of a table decide which paths it holds. -/
theorem path_valid_of_keys {table table' : List (Extent (List UInt8))}
    (hkeys : table'.map Extent.key = table.map Extent.key)
    (h : ∀ e ∈ table, ValidPath e.key) : ∀ e ∈ table', ValidPath e.key := by
  intro e he
  have hmem : e.key ∈ table.map Extent.key := hkeys ▸ mem_map_of_mem he
  obtain ⟨o, ho, hkey⟩ := mem_map.mp hmem
  exact hkey ▸ h o ho

theorem Resized.wellFormed {file size : ℕ} (hs : s.WellFormed)
    (he : s.table[file]? = some e) (hr : Resized s s' file e size) : s'.WellFormed := by
  constructor
  · rw [hr.count]
    exact hs.count_le
  · rw [hr.table, map_key_resizeAt]
    exact hs.sorted
  · rw [hr.table]
    exact path_valid_of_keys map_key_resizeAt hs.path_valid
  · rw [hr.table, hr.used]
    exact hs.layout.resizeAt he size
  · rw [hr.used]
    exact hr.fits

/-- Writing bytes inside the content changes neither the table nor its invariant. -/
theorem Store.WellFormed.of_contents (hs : s.WellFormed)
    (contents : FixedArray UInt8 fileContentCapacity) :
    Store.WellFormed { s with contents := contents } :=
  ⟨hs.count_le, hs.sorted, hs.path_valid, hs.layout, hs.used_le⟩

/-- **What `file_remove` leaves**: the row is gone, and the content behind it moved over its
content. -/
structure Removed (s s' : Store) (file : ℕ) (e : Extent (List UInt8)) : Prop where
  table : s'.table = (resizeAt s.table file 0).eraseIdx file
  used : s'.contentUsed = s.contentUsed - e.length
  count : s'.fileCount = s.fileCount - 1
  reflow : Reflow s.contents.get s'.contents.get e 0 s.contentUsed

theorem Removed.wellFormed (hs : s.WellFormed)
    (he : s.table[file]? = some e) (hr : Removed s s' file e) : s'.WellFormed := by
  have hsub := eraseIdx_sublist (resizeAt s.table file 0) file
  constructor
  · rw [hr.count]
    exact (Nat.sub_le _ _).trans hs.count_le
  · rw [hr.table]
    refine List.Pairwise.sublist (hsub.map Extent.key) ?_
    rw [map_key_resizeAt]
    exact hs.sorted
  · intro o ho
    rw [hr.table] at ho
    exact path_valid_of_keys map_key_resizeAt hs.path_valid o (hsub.subset ho)
  · rw [hr.table, hr.used]
    exact (hs.layout.resizeAt he 0).eraseIdx (getElem?_resizeAt_self he) rfl
  · rw [hr.used]
    exact (Nat.sub_le _ _).trans hs.used_le

/-! ### The effects of the calls -/

theorem Buffer.points (b : Buffer) : Points b.source b.bytes := points_readList b.bytes

theorem removeContent_returns (hs : s.WellFormed) (he : s.table[file]? = some e) :
    Returns (removeContent file s) fun s' =>
      s'.fileCount = s.fileCount ∧ s'.contentUsed = s.contentUsed - e.length ∧
        Reflow s.contents.get s'.contents.get e 0 s.contentUsed ∧
        ∀ i < s.fileCount, (s'.files.get i).extent =
          if i = file then e else rebase e 0 (s.files.get i).extent := by
  obtain ⟨hfile, rfl⟩ := Store.extent_of_getElem? he
  have hcap : fileContentCapacity < 2 ^ 32 := by decide
  have hused := hs.used_le
  have hstop := stop_le_used hs hfile
  unfold removeContent
  rw [hs.read_files hfile, ok_bind]
  simp only
  rw [addU32_eq (by omega), ok_bind]
  split_ifs with hzero
  · -- an empty file has no content to take out
    have hself := Resized.refl hs he
    simp only [File.extent_length, hzero] at hself
    refine returns_pure.mpr ⟨rfl, by simp [hzero], hself.reflow, fun i hi => ?_⟩
    split_ifs with hif
    · rw [hif]
    refine Extent.ext (rebase_key _ _ _).symm ?_ (rebase_length _ _ _).symm
    rw [rebase_offset, File.extent_length, hzero]
    split_ifs <;> omega
  · refine (moveDown_returns s.contents hstop hused (by omega)).bind fun moved hmoved => ?_
    refine (rebaseFiles_returns (m := (· - (s.files.get file).contentLength)) hs.count_le
      fun i hi _ hbound => subU32_eq (by omega)).bind fun files hfiles => ?_
    rw [subU32_eq (by omega), ok_bind, returns_pure]
    refine ⟨rfl, rfl, ⟨fun k hk => ?_, fun k hk hku => ?_⟩, fun i hi => ?_⟩
    · simp only [File.extent_offset] at hk
      rw [hmoved k, if_neg (by omega)]
    · simp only [Extent.stop, File.extent_offset, File.extent_length] at hk ⊢
      rw [hmoved, if_pos (by omega)]
      congr 1
      omega
    · rw [hfiles i hi]
      by_cases hif : i = file
      · rw [if_neg (by simp [hif]), if_pos hif, hif]
      rw [if_neg hif]
      by_cases hle : (s.files.get file).extent.stop ≤ (s.files.get i).extent.offset
      · rw [if_pos ⟨hif, hle⟩, rebase_of_le 0 hle]
        rfl
      · rw [if_neg fun hc => hle hc.2, rebase_of_not_le 0 hle]

theorem fileRemove_returns (hs : s.WellFormed) (path : Buffer) :
    Returns (fileRemove path s) fun r =>
      (r.1 = true ∧ ∃ file e, s.table[file]? = some e ∧ e.key = path.bytes ∧
        Removed s r.2 file e) ∨
      r = (false, s) ∧ ∀ e ∈ s.table, e.key ≠ path.bytes := by
  unfold fileRemove
  refine (fileFind_returns hs path.points).bind fun found hfound => ?_
  rcases found with _ | file
  · exact returns_pure.mpr (.inr ⟨rfl, hfound⟩)
  obtain ⟨e, he, hkey⟩ := hfound
  have hfile := (Store.extent_of_getElem? he).1
  have hmax := hs.count_le
  refine (removeContent_returns hs he).bind fun s₁ ⟨hcount, hused, hreflow, hrows⟩ => ?_
  have hpath : ∀ i < s₁.fileCount, (s₁.files.get i).pathLength ≤ fileMaxPathLength := by
    intro i hi
    rw [← File.length_name, ← File.extent_key, hrows i (hcount ▸ hi)]
    split_ifs with hif
    · exact (hs.path_valid e (mem_of_getElem? he)).2
    · rw [rebase_key, File.extent_key, File.length_name]
      exact hs.pathLength_le (hcount ▸ hi)
  refine (shiftDown_returns (hcount ▸ hfile) (hcount ▸ hmax) hpath).bind
    fun files ⟨hkeep, hmoved⟩ => ?_
  rw [subU32_eq (by omega), ok_bind, returns_pure]
  refine .inl ⟨rfl, file, e, he, hkey, ?_, hused, by simp [hcount], hreflow⟩
  -- the rows before the removed one stay, and the rows behind it move up by one
  refine ext_getElem? fun i => ?_
  rw [getElem?_eraseIdx]
  by_cases hi : i < s₁.fileCount - 1
  · rw [Store.getElem?_table _ hi]
    simp only
    split_ifs with hif
    · rw [hkeep i hif, hrows i (by omega), if_neg (by omega),
        getElem?_resizeAt_of_ne he (by omega), s.getElem?_table (by omega), Option.map_some]
    · rw [hmoved i (by omega) hi, hrows (i + 1) (by omega), if_neg (by omega),
        getElem?_resizeAt_of_ne he (by omega), s.getElem?_table (by omega), Option.map_some]
  · rw [getElem?_eq_none (by simp; omega), if_neg (by omega),
      getElem?_eq_none (by simp; omega)]

theorem fileTruncate_returns (hs : s.WellFormed) (path : Buffer) (size : UInt32) :
    Returns (fileTruncate path size s) fun r =>
      (r.1 = true ∧ ∃ file e, s.table[file]? = some e ∧ e.key = path.bytes ∧
        Resized s r.2 file e size.toNat ∧
        ∀ k, e.length ≤ k → k < size.toNat → r.2.contents.get (e.offset + k) = 0) ∨
      r = (false, s) ∧ ((∀ e ∈ s.table, e.key ≠ path.bytes) ∨
        ∃ e ∈ s.table, e.key = path.bytes ∧
          fileContentCapacity < s.contentUsed - e.length + size.toNat) := by
  unfold fileTruncate
  refine (fileFind_returns hs path.points).bind fun found hfound => ?_
  cases found with
  | none => exact returns_pure.mpr (.inr ⟨rfl, .inl hfound⟩)
  | some file =>
    obtain ⟨e, he, hkey⟩ := hfound
    refine (resizeFile_returns hs he size.toNat true).mono fun r hr => ?_
    rcases hr with ⟨hok, hresized, hzero⟩ | ⟨hr, hbig⟩
    · exact .inl ⟨hok, file, e, he, hkey, hresized, hzero rfl⟩
    · exact .inr ⟨hr, .inr ⟨e, mem_of_getElem? he, hkey, hbig⟩⟩

/-- The length of a file of length `old` after `length` bytes were written at `offset`. -/
def writtenSize (old offset length : ℕ) : ℕ := max old (offset + length)

/-- **What `file_write` leaves of an existing file**: the data at its offset, the other bytes as
they were, and the content behind the file moved with its end. -/
structure Written (s s' : Store) (file : ℕ) (e : Extent (List UInt8)) (offset : ℕ)
    (data : List UInt8) : Prop where
  offset_le : offset ≤ e.length
  fits : s.contentUsed - e.length + writtenSize e.length offset data.length ≤ fileContentCapacity
  table : s'.table = resizeAt s.table file (writtenSize e.length offset data.length)
  reflow : Reflow s.contents.get s'.contents.get e (writtenSize e.length offset data.length)
    s.contentUsed
  keeps : ∀ k < e.length, k < offset ∨ offset + data.length ≤ k →
    s'.contents.get (e.offset + k) = s.contents.get (e.offset + k)
  holds : ∀ k (hk : k < data.length), s'.contents.get (e.offset + offset + k) = data[k]
  wellFormed : s'.WellFormed

theorem extendFile_returns (hs : s.WellFormed) (he : s.table[file]? = some e) (size : ℕ) :
    Returns (extendFile file size s) fun r =>
      r.1 = true ∧ Resized s r.2 file e (max e.length size) ∨
      r = (false, s) ∧ fileContentCapacity < s.contentUsed - e.length + max e.length size := by
  obtain ⟨hfile, hrow⟩ := Store.extent_of_getElem? he
  unfold extendFile
  rw [hs.read_files hfile, ok_bind, ← File.extent_length, hrow]
  split_ifs with hgrow
  · rw [max_eq_right (by omega)]
    refine (resizeFile_returns hs he size false).mono fun r hr => ?_
    rcases hr with ⟨hok, hresized, -⟩ | hrefused
    · exact .inl ⟨hok, hresized⟩
    · exact .inr hrefused
  · rw [max_eq_left (by omega)]
    exact returns_pure.mpr (.inl ⟨rfl, Resized.refl hs he⟩)

theorem fileWrite_returns (hs : s.WellFormed) (path : Buffer) (offset : UInt32) (data : Buffer) :
    Returns (fileWrite path offset data s) fun r =>
      (r.1 = true ∧ (∀ e ∈ s.table, e.key ≠ path.bytes) ∧ offset.toNat = 0 ∧
        Created s r.2 path.bytes data.bytes) ∨
      (r.1 = true ∧ ∃ file e, s.table[file]? = some e ∧ e.key = path.bytes ∧
        Written s r.2 file e offset.toNat data.bytes) ∨
      r = (false, s) ∧
        ((∀ e ∈ s.table, e.key ≠ path.bytes) ∧
            (offset.toNat ≠ 0 ∨ CreateRefused s path.bytes data.bytes) ∨
          ∃ e ∈ s.table, e.key = path.bytes ∧ (e.length < offset.toNat ∨
            fileContentCapacity <
              s.contentUsed - e.length + writtenSize e.length offset.toNat data.length)) := by
  have hcap : fileContentCapacity < 2 ^ 32 := by decide
  unfold fileWrite
  refine (fileFind_returns hs path.points).bind fun found hfound => ?_
  rcases found with _ | file
  · simp only
    split_ifs with hzero
    · refine (createFile_returns hs path.points data.points rfl).mono fun r hr => ?_
      rcases hr with ⟨hok, hcreated⟩ | ⟨hr, hrefused⟩
      · exact .inl ⟨hok, hfound, by simp [hzero], hcreated⟩
      · exact .inr (.inr ⟨hr, .inl ⟨hfound, .inr hrefused⟩⟩)
    · have hne : offset.toNat ≠ 0 := fun h => hzero (UInt32.toNat_inj.mp h)
      exact returns_pure.mpr (.inr (.inr ⟨rfl, .inl ⟨hfound, .inl hne⟩⟩))
  obtain ⟨e, he, hkey⟩ := hfound
  have hmem := mem_of_getElem? he
  obtain ⟨hfile, hrow⟩ := Store.extent_of_getElem? he
  have hstop := hs.layout.stop_le he
  have hused := hs.used_le
  simp only [Extent.stop] at hstop
  simp only
  rw [hs.read_files hfile, ok_bind, ← File.extent_length, hrow]
  split_ifs with hpast
  · exact returns_pure.mpr
      (.inr (.inr ⟨rfl, .inr ⟨e, hmem, hkey, .inl hpast⟩⟩))
  rw [subU32_eq (by omega), ok_bind]
  split_ifs with hbig
  · refine returns_pure.mpr (.inr (.inr ⟨rfl, .inr ⟨e, hmem, hkey, .inr ?_⟩⟩))
    unfold writtenSize
    omega
  rw [addU32_eq (by omega), ok_bind]
  refine (extendFile_returns hs he _).bind fun r hr => ?_
  rcases hr with ⟨hok, hresized⟩ | ⟨rfl, hrefused⟩
  · -- the file has room, and the data is copied into its extent
    obtain ⟨ok, s₁⟩ := r
    obtain rfl : ok = true := hok
    have hs₁ : s₁.WellFormed := hresized.wellFormed hs he
    have he₁ := hresized.table ▸ getElem?_resizeAt_self he
    obtain ⟨hfile₁, hrow₁⟩ := Store.extent_of_getElem? he₁
    have hstop₁ := hs₁.layout.stop_le he₁
    have hused₁ := hs₁.used_le
    have hoffset : (s₁.files.get file).contentOffset = e.offset := congrArg Extent.offset hrow₁
    have hlength : data.bytes.length = data.length := rfl
    simp only [Extent.stop] at hstop₁
    simp only [Bool.not_true, Bool.false_eq_true, if_false]
    rw [hs₁.read_files hfile₁, ok_bind, hoffset]
    refine (copyBytes_returns _ data.points rfl (by omega)).bind fun contents hcontents => ?_
    rw [returns_pure]
    refine .inr (.inl ⟨rfl, file, e, he, hkey, by omega, hresized.fits, hresized.table,
      ⟨fun k hk => ?_, fun k hk hku => ?_⟩, fun k hk hk' => ?_, hcontents.1,
      hs₁.of_contents contents⟩)
    · rw [hcontents.2 k (by omega), hresized.reflow.keeps k hk]
    · rw [← hresized.reflow.moves k hk hku]
      unfold writtenSize
      simp only [Extent.stop] at hk
      exact hcontents.2 _ (by omega)
    · rw [hcontents.2 _ (by omega), hresized.keeps k (by omega)]
  · simp only [Bool.not_false, if_true]
    exact returns_pure.mpr
      (.inr (.inr ⟨rfl, .inr ⟨e, hmem, hkey, .inr hrefused⟩⟩))

/-! ### Reachable stores -/

/-- Every call returns, and leaves a well-formed store. -/
theorem Store.WellFormed.call (hs : s.WellFormed) (c : Call) :
    Returns (s.call c) fun r => r.2.WellFormed := by
  cases c with
  | write path offset data =>
    refine (fileWrite_returns hs path offset data).mono fun r hr => ?_
    rcases hr with ⟨-, -, -, hc⟩ | ⟨-, file, e, -, -, hw⟩ | ⟨rfl, -⟩
    · exact hc.wellFormed hs
    · exact hw.wellFormed
    · exact hs
  | truncate path size =>
    refine (fileTruncate_returns hs path size).mono fun r hr => ?_
    rcases hr with ⟨-, file, e, he, -, hr, -⟩ | ⟨rfl, -⟩
    · exact hr.wellFormed hs he
    · exact hs
  | remove path =>
    refine (fileRemove_returns hs path).mono fun r hr => ?_
    rcases hr with ⟨-, file, e, he, -, hr⟩ | ⟨rfl, -⟩
    · exact hr.wellFormed hs he
    · exact hs

/-- The path of a row of the embedded table. -/
def EmbeddedFile.name (initial : EmbeddedFile) : List UInt8 := initial.path.take initial.pathLength

/-- The content of a row of the embedded table. -/
def EmbeddedFile.content (initial : EmbeddedFile) : List UInt8 := initial.data.take initial.size

theorem EmbeddedFile.points_path (initial : EmbeddedFile) :
    Points (readList initial.path) initial.name :=
  (points_readList _).take _

theorem EmbeddedFile.points_data (initial : EmbeddedFile) :
    Points (readList initial.data) initial.content :=
  (points_readList _).take _

theorem EmbeddedFile.length_name (initial : EmbeddedFile) :
    initial.name.length = initial.pathLength := by
  simpa [EmbeddedFile.name] using initial.pathLength_le

theorem EmbeddedFile.length_content (initial : EmbeddedFile) :
    initial.content.length = initial.size := by
  simpa [EmbeddedFile.content] using initial.size_le

theorem createFile_embedded (hs : s.WellFormed) (initial : EmbeddedFile) :
    Returns (createFile (readList initial.path) initial.pathLength (readList initial.data)
        initial.size s) fun r =>
      r.1 = true ∧ Created s r.2 initial.name initial.content ∨
      r = (false, s) ∧ CreateRefused s initial.name initial.content := by
  have h := createFile_returns hs initial.points_path initial.points_data
    initial.length_content.symm
  rwa [initial.length_name] at h

theorem initFiles_returns (initialFiles : List EmbeddedFile) (hs : s.WellFormed) :
    Returns (initFiles initialFiles s) fun r => r.2.WellFormed := by
  induction initialFiles generalizing s with
  | nil => exact returns_pure.mpr hs
  | cons initial rest ih =>
    unfold initFiles
    split_ifs with hbig
    · exact returns_pure.mpr hs
    refine (createFile_embedded hs initial).bind fun r hr => ?_
    obtain ⟨created, s'⟩ := r
    rcases hr with ⟨hok, hc⟩ | ⟨hr, -⟩
    · simp only [show created = true from hok, if_true]
      exact ih (hc.wellFormed hs)
    · cases hr
      simpa using hs

theorem wellFormed_of_empty (hcount : s.fileCount = 0) (hused : s.contentUsed = 0) :
    s.WellFormed := by
  have htable : s.table = [] := by simp [Store.table, hcount]
  exact {
    count_le := by simp [hcount]
    sorted := by simp [htable]
    path_valid := by simp [htable]
    layout := ⟨by simp [htable], by simp [htable], by simp [htable, hused]⟩
    used_le := by simp [hused] }

/-- `files_init` returns on every table, and leaves a well-formed store even when it refuses. -/
theorem filesInit_returns (initialFiles : List EmbeddedFile) (s : Store) :
    Returns (filesInit initialFiles s) fun r => r.2.WellFormed := by
  have hs := wellFormed_of_empty (s := { s with fileCount := 0, contentUsed := 0 }) rfl rfl
  unfold filesInit
  simp only
  split_ifs with hmany
  · exact returns_pure.mpr hs
  · exact initFiles_returns initialFiles hs

theorem Created.entries_perm (hs : s.WellFormed)
    (hc : Created s s' path data) : s'.entries.Perm ((path, data) :: s.entries) := by
  obtain ⟨i, hi, htable⟩ := hc.table
  have hold : s.table.map (fun e => (e.key, slice s'.contents.get e)) = s.entries := by
    rw [s.entries_eq_map_table]
    refine map_congr_left fun e he => ?_
    rw [hc.slice_eq hs he]
  rw [s'.entries_eq_map_table, htable, map_insertIdx, hold, hc.slice_new]
  exact perm_insertIdx _ _ (by simpa [Store.entries] using hi.1)

/-- `files_init` succeeds on a table of valid, distinct paths that fits, from a store that leaves
room for it. -/
theorem initFiles_succeeds (initialFiles : List EmbeddedFile) (hs : s.WellFormed)
    (hcount : s.fileCount + initialFiles.length ≤ fileMaxCount)
    (hvalid : ∀ initial ∈ initialFiles, ValidPath initial.name)
    (hnodup : (initialFiles.map EmbeddedFile.name ++ s.entries.map Prod.fst).Nodup)
    (hfits : s.contentUsed + (initialFiles.map EmbeddedFile.size).sum ≤ fileContentCapacity) :
    Returns (initFiles initialFiles s) fun r => r.1 = true ∧ r.2.WellFormed ∧
      r.2.entries.Perm
        (initialFiles.map (fun initial => (initial.name, initial.content)) ++ s.entries) := by
  induction initialFiles generalizing s with
  | nil => exact returns_pure.mpr ⟨rfl, hs, List.Perm.refl _⟩
  | cons initial rest ih =>
    simp only [length_cons, map_cons, sum_cons, cons_append,
      nodup_cons, mem_append, not_or] at hcount hnodup hfits
    unfold initFiles
    rw [if_neg (by omega)]
    refine (createFile_embedded hs initial).bind fun r hr => ?_
    obtain ⟨created, s'⟩ := r
    have hlength := initial.length_content
    rcases hr with ⟨hok, hc⟩ | ⟨-, hrefused⟩
    · obtain rfl : created = true := hok
      have hs' : s'.WellFormed := hc.wellFormed hs
      have hperm : s'.entries.Perm ((initial.name, initial.content) :: s.entries) :=
        hc.entries_perm hs
      have hcount' : s'.fileCount = s.fileCount + 1 := hc.count
      have hused : s'.contentUsed = s.contentUsed + initial.size := hlength ▸ hc.used
      refine (ih hs' (by omega) (fun f hf => hvalid f (mem_cons_of_mem _ hf)) ?_
        (by omega)).mono fun r hr => ⟨hr.1, hr.2.1, hr.2.2.trans ?_⟩
      · rw [((hperm.map Prod.fst).append_left _).nodup_iff, map_cons,
          nodup_middle, nodup_cons, mem_append, not_or]
        exact hnodup
      · rw [map_cons, cons_append]
        exact (hperm.append_left _).trans perm_middle
    · rcases hrefused with h | h | h | ⟨e, he, hkey⟩
      · exact absurd (hvalid initial mem_cons_self) h
      · omega
      · omega
      · refine absurd ?_ hnodup.1.2
        rw [s.map_fst_entries, ← hkey]
        exact mem_map_of_mem he

/-- The stores that `files_init` and the calls of the interface lead to. -/
inductive Store.Reachable : Store → Prop
  | init {initialFiles : List EmbeddedFile} {s₀ s : Store} {built : Bool}
      (h : filesInit initialFiles s₀ = .ok (built, s)) : Reachable s
  | call {s s' : Store} {c : Call} {result : Bool} (hs : Reachable s)
      (h : s.call c = .ok (result, s')) : Reachable s'

theorem Store.Reachable.wellFormed (h : s.Reachable) : s.WellFormed := by
  induction h with
  | @init initialFiles s₀ s built h => exact (filesInit_returns initialFiles s₀).of_eq h
  | @call s s' c result _ h ih => exact (ih.call c).of_eq h

/-- Where the content of a row starts. -/
abbrev Store.offset (s : Store) (i : ℕ) : ℕ := (s.files.get i).contentOffset

/-- The length of the content of a row. -/
abbrev Store.size (s : Store) (i : ℕ) : ℕ := (s.files.get i).contentLength

/-- **Every reachable store is packed**: its paths increase in the order of `compare_paths`, its
extents lie in the used content, end to start, and fill it. No call of it, and no `files_init`,
meets an index out of range or a word that wraps. -/
theorem reachable_store_packed {s : Store} (h : s.Reachable) :
    (∀ i j, i < j → j < s.fileCount →
      comparePaths (s.files.get i).pathSource (s.files.get i).pathLength
        (s.files.get j).pathSource (s.files.get j).pathLength = .ok (-1)) ∧
    s.fileCount ≤ 128 ∧
    (∀ i < s.fileCount, s.offset i + s.size i ≤ s.contentUsed) ∧
    (∀ i < s.fileCount, ∀ j < s.fileCount, i ≠ j →
      s.offset i + s.size i ≤ s.offset j ∨ s.offset j + s.size j ≤ s.offset i) ∧
    ∑ i ∈ Finset.range s.fileCount, s.size i = s.contentUsed ∧
    s.contentUsed ≤ 65536 ∧
    (∀ c, ∃ r, s.call c = .ok r) ∧
    ∀ initialFiles s₀, ∃ r, filesInit initialFiles s₀ = .ok r := by
  have hs := h.wellFormed
  refine ⟨fun i j hij hj => ?_, hs.count_le, fun i hi => stop_le_used hs hi,
    fun i hi j hj hij => ?_, ?_, hs.used_le, fun c => ?_, fun initialFiles s₀ => ?_⟩
  · have hcompare := comparePaths_returns (hs.points_path (hij.trans hj)) (hs.points_path hj)
    rw [File.length_name, File.length_name] at hcompare
    obtain ⟨order, horder, rfl⟩ := hcompare
    rw [horder, pathOrder_neg.mpr (hs.name_lt hij hj)]
  · exact hs.layout.apart_of_ne (s.getElem?_table hi) (s.getElem?_table hj) hij
  · rw [← hs.layout.total, Finset.sum_range, Store.table, map_map, ← sum_ofFn]
    congr 1
    refine ext_getElem (by simp) fun i hi hi' => ?_
    simp
  · obtain ⟨r, hr, -⟩ := hs.call c
    exact ⟨r, hr⟩
  · obtain ⟨r, hr, -⟩ := filesInit_returns initialFiles s₀
    exact ⟨r, hr⟩

/-- Two writes into the empty store, the second of which inserts before the first. -/
theorem two_writes_packed : ∃ s s' : Store,
    Store.zeroed.call (.write ⟨[98], by decide⟩ 0 ⟨[1, 2], by decide⟩) = .ok (true, s) ∧
    s.call (.write ⟨[97], by decide⟩ 0 ⟨[3], by decide⟩) = .ok (true, s') ∧
    s'.fileCount = 2 ∧
    comparePaths (s'.files.get 0).pathSource (s'.files.get 0).pathLength
      (s'.files.get 1).pathSource (s'.files.get 1).pathLength = .ok (-1) ∧
    ∑ i ∈ Finset.range s'.fileCount, s'.size i = s'.contentUsed := by
  have hinit : Store.zeroed.Reachable :=
    .init (show filesInit [] .zeroed = .ok (true, .zeroed) from rfl)
  have hrun : ∃ s s' : Store,
      Store.zeroed.call (.write ⟨[98], by decide⟩ 0 ⟨[1, 2], by decide⟩) = .ok (true, s) ∧
      s.call (.write ⟨[97], by decide⟩ 0 ⟨[3], by decide⟩) = .ok (true, s') ∧
      s'.fileCount = 2 := ⟨_, _, rfl, rfl, rfl⟩
  obtain ⟨s, s', h₁, h₂, hcount⟩ := hrun
  have hpacked := reachable_store_packed (.call (.call hinit h₁) h₂)
  exact ⟨s, s', h₁, h₂, hcount, hpacked.1 0 1 (by omega) (by omega), hpacked.2.2.2.2.1⟩

end Carcer.Seed
