import Carcer.Seed.FileTable

/-!
# Moves of the file store

The loops of `seed/files.c` that move rows of the table and bytes of the content, and the two
functions built from them, `create_file` and `resize_file`.

## Main results

* `moveUp_returns`, `moveDown_returns`: the overlapping byte moves, in both directions
* `rebaseFiles_returns`: the offsets that move with them
* `createFile_returns`: a new row, with its content behind the used cells
* `resizeFile_returns`: a row of another length, with the cells behind it moved
-/

namespace Carcer.Seed

open Carcer.Machine Carcer.Packed List Carcer.Machine.FixedArray

/-! ### Rows -/

theorem copyFile_returns (destination : File) {source : File}
    (h : source.pathLength ≤ fileMaxPathLength) :
    Returns (copyFile destination source) (·.extent = source.extent) := by
  have hcopy := copyBytes_returns destination.path (File.points_pathSource h)
    (File.length_name source).symm (by simpa using h : 0 + source.name.length ≤ _)
  refine hcopy.bind fun path hpath => returns_ok.mpr ?_
  refine Extent.ext (map_congr_left fun k hk => ?_) rfl rfl
  have hk' : k < source.pathLength := mem_range.mp hk
  have := hpath.1 k (by simpa using hk')
  simpa [File.name] using this

variable {files : FixedArray File fileMaxCount} {s : Store}

theorem shiftUp_returns {count insertion : ℕ}
    (hins : insertion ≤ count) (hcount : count < fileMaxCount)
    (hpath : ∀ i < count, (files.get i).pathLength ≤ fileMaxPathLength) :
    Returns (forDown count insertion (fun index files => do
        let moved ← copyFile (← files.read index) (← files.read (← subU32 index 1))
        files.write index moved) files) fun files' =>
      (∀ i ≤ insertion, files'.get i = files.get i) ∧
        ∀ i, insertion < i → i ≤ count →
          (files'.get i).extent = (files.get (i - 1)).extent := by
  refine forDown_returns (fun j (files' : FixedArray File fileMaxCount) =>
    (∀ i ≤ j, files'.get i = files.get i) ∧
      ∀ i, j < i → i ≤ count → (files'.get i).extent = (files.get (i - 1)).extent) hins
    ⟨fun _ _ => rfl, fun i h h' => absurd h' (by omega)⟩ ?_
  intro j files' hj hjc ⟨hkeep, hmoved⟩
  rw [read_eq _ (by omega), ok_bind, subU32_eq (by omega), ok_bind,
    read_eq _ (by omega), ok_bind, hkeep (j - 1) (by omega)]
  refine (copyFile_returns _ (hpath (j - 1) (by omega))).bind fun moved hmove => ?_
  rw [FixedArray.write_eq _ (by omega), returns_ok]
  constructor
  · intro i hi
    rw [get_set _ (by omega), if_neg (by omega), hkeep i (by omega)]
  · intro i hi hic
    rw [get_set _ (by omega)]
    split_ifs with hij
    · rw [hij, hmove]
    · exact hmoved i (by omega) hic

theorem shiftDown_returns {count removal : ℕ}
    (hrem : removal < count) (hcount : count ≤ fileMaxCount)
    (hpath : ∀ i < count, (files.get i).pathLength ≤ fileMaxPathLength) :
    Returns (forRange removal (count - 1) (fun index files => do
        let moved ← copyFile (← files.read index) (← files.read (← addU32 index 1))
        files.write index moved) files) fun files' =>
      (∀ i < removal, files'.get i = files.get i) ∧
        ∀ i, removal ≤ i → i < count - 1 →
          (files'.get i).extent = (files.get (i + 1)).extent := by
  refine (forRange_returns (fun j (files' : FixedArray File fileMaxCount) =>
    (∀ i, i < removal ∨ j ≤ i → files'.get i = files.get i) ∧
      ∀ i, removal ≤ i → i < j → (files'.get i).extent = (files.get (i + 1)).extent) (by omega)
    ⟨fun _ _ => rfl, fun i h h' => absurd h' (by omega)⟩ ?_).mono
    fun files' h => ⟨fun i hi => h.1 i (.inl hi), h.2⟩
  intro j files' hj hjc ⟨hkeep, hmoved⟩
  have hmax : fileMaxCount < 2 ^ 32 := by decide
  rw [read_eq _ (by omega), ok_bind, addU32_eq (by omega), ok_bind,
    read_eq _ (by omega), ok_bind, hkeep (j + 1) (by omega)]
  refine (copyFile_returns _ (hpath (j + 1) (by omega))).bind fun moved hmove => ?_
  rw [FixedArray.write_eq _ (by omega), returns_ok]
  constructor
  · intro i hi
    rw [get_set _ (by omega), if_neg (by omega), hkeep i (by omega)]
  · intro i hi hij
    rw [get_set _ (by omega)]
    split_ifs with h
    · rw [h, hmove]
    · exact hmoved i hi (by omega)

/-- The re-basing loop moves exactly the offsets of other rows from `bound` on. -/
theorem rebaseFiles_returns {file bound count : ℕ}
    {move : ℕ → Checked ℕ} {m : ℕ → ℕ} (hcount : count ≤ fileMaxCount)
    (hmove : ∀ i < count, i ≠ file → bound ≤ (files.get i).contentOffset →
      move (files.get i).contentOffset = .ok (m (files.get i).contentOffset)) :
    Returns (rebaseFiles file bound move count files) fun files' =>
      ∀ i < count, (files'.get i).extent =
        if i ≠ file ∧ bound ≤ (files.get i).contentOffset then
          { (files.get i).extent with offset := m (files.get i).contentOffset }
        else (files.get i).extent := by
  refine (forRange_returns (fun j (files' : FixedArray File fileMaxCount) =>
    (∀ i, j ≤ i → files'.get i = files.get i) ∧ ∀ i < j, (files'.get i).extent =
      if i ≠ file ∧ bound ≤ (files.get i).contentOffset then
        { (files.get i).extent with offset := m (files.get i).contentOffset }
      else (files.get i).extent) (Nat.zero_le _)
    ⟨fun _ _ => rfl, fun _ h => absurd h (Nat.not_lt_zero _)⟩ ?_).mono fun _ h => h.2
  intro j files' _ hj ⟨hkeep, hmoved⟩
  rw [read_eq _ (by omega), ok_bind, hkeep j le_rfl]
  by_cases hif : j ≠ file ∧ bound ≤ (files.get j).contentOffset
  · rw [if_pos hif, hmove j hj hif.1 hif.2, ok_bind, FixedArray.write_eq _ (by omega), returns_ok]
    constructor
    · intro i hi
      rw [get_set _ (by omega), if_neg (by omega), hkeep i (by omega)]
    · intro i hi
      rw [get_set _ (by omega)]
      rcases Nat.lt_succ_iff_lt_or_eq.mp hi with hlt | rfl
      · rw [if_neg (by omega), hmoved i hlt]
      · rw [if_pos rfl, if_pos hif]
        rfl
  · rw [if_neg hif, returns_pure]
    refine ⟨fun i hi => hkeep i (by omega), fun i hi => ?_⟩
    rcases Nat.lt_succ_iff_lt_or_eq.mp hi with hlt | rfl
    · exact hmoved i hlt
    · rw [if_neg hif, hkeep i le_rfl]

/-! ### Bytes -/

/-- The bytes from `oldEnd` on move up by `growth`; moving from the end downwards reads every byte
before it is overwritten. -/
theorem moveUp_returns (contents : FixedArray UInt8 fileContentCapacity)
    {used oldEnd growth : ℕ} (hend : oldEnd ≤ used) (hfit : used + growth ≤ fileContentCapacity) :
    Returns (moveUp contents used oldEnd growth) fun contents' =>
      ∀ k, contents'.get k =
        if oldEnd + growth ≤ k ∧ k < used + growth then contents.get (k - growth)
        else contents.get k := by
  have hcap : fileContentCapacity < 2 ^ 32 := by decide
  refine forDown_returns (fun j (contents' : FixedArray UInt8 fileContentCapacity) =>
    ∀ k, contents'.get k = if j + growth ≤ k ∧ k < used + growth then contents.get (k - growth)
      else contents.get k) hend (fun k => ?_) ?_
  · rw [if_neg (by omega)]
  · intro j contents' hj hju hinv
    rw [subU32_eq (by omega), ok_bind, read_eq _ (by omega), ok_bind,
      addU32_eq (by omega), ok_bind, subU32_eq (by omega), ok_bind,
      FixedArray.write_eq _ (by omega), returns_ok, hinv (j - 1), if_neg (by omega)]
    intro k
    rw [get_set _ (by omega), hinv k]
    rcases eq_or_ne k (j + growth - 1) with rfl | hk
    · rw [if_pos rfl, if_pos (by omega)]
      congr 1
      omega
    · rw [if_neg hk]
      exact if_congr (by omega) rfl rfl

theorem moveDown_returns (contents : FixedArray UInt8 fileContentCapacity)
    {used oldEnd shrinkage : ℕ} (hend : oldEnd ≤ used) (hused : used ≤ fileContentCapacity)
    (hshrink : shrinkage ≤ oldEnd) :
    Returns (moveDown contents oldEnd used shrinkage) fun contents' =>
      ∀ k, contents'.get k =
        if oldEnd - shrinkage ≤ k ∧ k < used - shrinkage then contents.get (k + shrinkage)
        else contents.get k := by
  refine forRange_returns (fun j (contents' : FixedArray UInt8 fileContentCapacity) =>
    ∀ k, contents'.get k =
      if oldEnd - shrinkage ≤ k ∧ k < j - shrinkage then contents.get (k + shrinkage)
      else contents.get k) hend (fun k => ?_) ?_
  · rw [if_neg (by omega)]
  · intro j contents' hj hju hinv
    rw [read_eq _ (by omega), ok_bind, subU32_eq (by omega), ok_bind,
      FixedArray.write_eq _ (by omega), returns_ok, hinv j, if_neg (by omega)]
    intro k
    rw [get_set _ (by omega), hinv k]
    rcases eq_or_ne k (j - shrinkage) with rfl | hk
    · rw [if_pos rfl, if_pos (by omega)]
      congr 1
      omega
    · rw [if_neg hk]
      exact if_congr (by omega) rfl rfl

/-! ### Creating a file -/

/-- **What a successful `create_file` leaves**: a row at the place that keeps the table sorted, and
its content behind the content in use. -/
structure Created (s s' : Store) (path data : List UInt8) : Prop where
  path_valid : ValidPath path
  count_lt : s.fileCount < fileMaxCount
  fits : s.contentUsed + data.length ≤ fileContentCapacity
  table : ∃ i, Insertion s path (some i) ∧
    s'.table = s.table.insertIdx i ⟨path, s.contentUsed, data.length⟩
  used : s'.contentUsed = s.contentUsed + data.length
  count : s'.fileCount = s.fileCount + 1
  keeps : ∀ k < s.contentUsed, s'.contents.get k = s.contents.get k
  holds : ∀ k (hk : k < data.length), s'.contents.get (s.contentUsed + k) = data[k]

/-- Why `create_file` refuses. -/
def CreateRefused (s : Store) (path data : List UInt8) : Prop :=
  ¬ValidPath path ∨ fileMaxCount ≤ s.fileCount ∨
    fileContentCapacity < s.contentUsed + data.length ∨ ∃ e ∈ s.table, e.key = path

/-- The rows after `create_file` opened one and filled it are the rows before, with one
inserted. -/
theorem table_inserted {s s' : Store} {i : ℕ} {new} (hi : i ≤ s.fileCount)
    (hcount : s'.fileCount = s.fileCount + 1) (hmax : s.fileCount < fileMaxCount)
    (hfiles : s'.files = files.set i new) (hkeep : ∀ j ≤ i, files.get j = s.files.get j)
    (hmoved : ∀ j, i < j → j ≤ s.fileCount → (files.get j).extent = (s.files.get (j - 1)).extent) :
    s'.table = s.table.insertIdx i new.extent := by
  have hget : ∀ j, s'.files.get j = if j = i then new else files.get j := by
    intro j
    rw [hfiles, get_set _ (by omega)]
  refine ext_getElem (by simp [hcount, length_insertIdx, hi]) fun j hj hj' => ?_
  rw [Store.length_table, hcount] at hj
  rw [getElem_insertIdx]
  simp only [Store.table, getElem_map, getElem_range, hget]
  rcases Nat.lt_trichotomy j i with hlt | rfl | hgt
  · rw [if_neg (by omega), dif_pos hlt, hkeep j hlt.le]
  · rw [if_pos rfl, dif_neg (lt_irrefl _), dif_pos rfl]
  · rw [if_neg (by omega), dif_neg (by omega), dif_neg (by omega), hmoved j hgt (by omega)]

theorem createFile_returns (hs : s.WellFormed) {path data} {p d : List UInt8} (hp : Points path p)
    (hd : Points data d) {dataLength : ℕ} (hlength : dataLength = d.length) :
    Returns (createFile path p.length data dataLength s) fun r =>
      r.1 = true ∧ Created s r.2 p d ∨ r = (false, s) ∧ CreateRefused s p d := by
  subst hlength
  have hcap : fileContentCapacity < 2 ^ 32 := by decide
  have hmax : fileMaxCount < 2 ^ 32 := by decide
  unfold createFile
  split_ifs with hbad
  · refine returns_pure.mpr (.inr ⟨rfl, ?_⟩)
    rcases hbad with h | h | h
    · exact .inl fun hv => hv.1 (length_eq_zero_iff.mp h)
    · exact .inl fun hv => absurd hv.2 (by omega)
    · exact .inr (.inl h)
  simp only [not_or, Nat.not_lt, Nat.not_le] at hbad
  obtain ⟨hnil, hlong, hcount⟩ := hbad
  have hvalid : ValidPath p := ⟨fun h => hnil (by simp [h]), hlong⟩
  have hused := hs.used_le
  rw [subU32_eq hused, ok_bind]
  split_ifs with hbig
  · exact returns_pure.mpr (.inr ⟨rfl, .inr (.inr (.inl (by omega)))⟩)
  refine (insertionPoint_returns hs hp).bind fun found hfound => ?_
  rcases found with _ | i
  · exact returns_pure.mpr (.inr ⟨rfl, .inr (.inr (.inr hfound))⟩)
  obtain ⟨hi, -, -⟩ := id hfound
  refine (shiftUp_returns hi hcount fun j hj => hs.pathLength_le hj).bind
    fun files ⟨hkeep, hmoved⟩ => ?_
  rw [read_eq _ (by omega), ok_bind]
  refine (copyBytes_returns _ hp rfl (by omega)).bind fun newPath hpath => ?_
  rw [FixedArray.write_eq _ (by omega), ok_bind]
  refine (copyBytes_returns _ hd rfl (by omega)).bind fun contents hcontents => ?_
  rw [addU32_eq (by omega), ok_bind, addU32_eq (by omega), ok_bind, returns_pure]
  -- the name written into the row is the path
  have hextent : File.extent ⟨newPath, p.length % 2 ^ 16, s.contentUsed, d.length⟩ =
      ⟨p, s.contentUsed, d.length⟩ := by
    have hmod : p.length % 2 ^ 16 = p.length := by
      have : fileMaxPathLength < 2 ^ 16 := by decide
      exact Nat.mod_eq_of_lt (by omega)
    refine Extent.ext ?_ rfl rfl
    refine ext_getElem (by simp only [File.extent_key, File.length_name, hmod])
      fun k hk hk' => ?_
    have := hpath.1 k hk'
    rw [Nat.zero_add] at this
    simpa [File.name] using this
  refine .inl ⟨rfl, hvalid, hcount, by omega, ⟨i, hfound, ?_⟩, rfl, rfl,
    fun k hk => hcontents.2 k (.inl hk), hcontents.1⟩
  rw [table_inserted hi rfl hcount rfl hkeep hmoved, hextent]

/-! ### Resizing a file -/

/-- **What a successful `resize_file` leaves**: the row has the new length, the content behind it
moved with its end, and the bytes that fit both lengths are kept. -/
structure Resized (s s' : Store) (file : ℕ) (e : Extent (List UInt8)) (size : ℕ) : Prop where
  fits : s.contentUsed - e.length + size ≤ fileContentCapacity
  table : s'.table = resizeAt s.table file size
  used : s'.contentUsed = s.contentUsed - e.length + size
  count : s'.fileCount = s.fileCount
  reflow : Reflow s.contents.get s'.contents.get e size s.contentUsed
  keeps : ∀ k < min e.length size, s'.contents.get (e.offset + k) = s.contents.get (e.offset + k)

/-- The rows after `resize_file` moved their offsets and wrote the length are the resized
table. -/
theorem table_resized {s s' : Store} (files : FixedArray File fileMaxCount) {file size : ℕ}
    (m : ℕ → ℕ) (hfile : file < s.fileCount) (hmax : s.fileCount ≤ fileMaxCount)
    (hcount : s'.fileCount = s.fileCount)
    (hfiles : s'.files = files.set file { files.get file with contentLength := size })
    (hrows : ∀ i < s.fileCount, (files.get i).extent =
      if i ≠ file ∧ (s.files.get file).extent.stop ≤ (s.files.get i).contentOffset then
        { (s.files.get i).extent with offset := m (s.files.get i).contentOffset }
      else (s.files.get i).extent) (hm : ∀ o, (s.files.get file).extent.stop ≤ o →
      m o = o - (s.files.get file).contentLength + size) :
    s'.table = resizeAt s.table file size := by
  have he := s.getElem?_table hfile
  refine ext_getElem? fun i => ?_
  by_cases hi : i < s.fileCount
  · rw [s'.getElem?_table (hcount ▸ hi), hfiles, get_set _ (by omega)]
    have hrow := hrows i hi
    by_cases hif : i = file
    · rw [if_neg (by simp [hif])] at hrow
      subst hif
      rw [if_pos rfl, getElem?_resizeAt_self he, ← hrow]
      rfl
    rw [if_neg hif, getElem?_resizeAt_of_ne he hif, s.getElem?_table hi, hrow,
      Option.map_some]
    by_cases h : (s.files.get file).extent.stop ≤ (s.files.get i).contentOffset
    · rw [if_pos ⟨hif, h⟩, rebase_of_le size (by exact h), hm _ h]
      rfl
    · rw [if_neg fun hc => h hc.2, rebase_of_not_le size (by exact h)]
  · rw [getElem?_eq_none (by simp [hcount]; omega),
      getElem?_eq_none (by simp; omega)]

theorem Resized.refl (hs : s.WellFormed) {file : ℕ} {e : Extent (List UInt8)}
    (he : s.table[file]? = some e) : Resized s s file e e.length := by
  have hstop := hs.layout.stop_le he
  have hused := hs.used_le
  simp only [Extent.stop] at hstop
  exact {
    fits := by omega
    table := (resizeAt_length_self he).symm
    used := by omega
    count := rfl
    reflow := ⟨fun _ _ => rfl, fun k hk _ => by
      simp only [Extent.stop] at hk
      rw [Nat.sub_add_cancel (by omega)]⟩
    keeps := fun _ _ => rfl }

theorem clearGrowth_returns (zero : Bool) (contents : FixedArray UInt8 fileContentCapacity)
    {offset oldSize newSize : ℕ} (hle : oldSize ≤ newSize)
    (hfit : offset + newSize ≤ fileContentCapacity) :
    Returns (clearGrowth zero offset oldSize newSize contents) fun contents' =>
      (zero = true → ∀ k, oldSize ≤ k → k < newSize → contents'.get (offset + k) = 0) ∧
        ∀ k, k < offset + oldSize ∨ offset + newSize ≤ k →
          contents'.get k = contents.get k := by
  unfold clearGrowth
  split_ifs with hzero
  · have hcap : fileContentCapacity < 2 ^ 32 := by decide
    refine (forRange_returns (fun j (contents' : FixedArray UInt8 fileContentCapacity) =>
      (∀ k, oldSize ≤ k → k < j → contents'.get (offset + k) = 0) ∧
        ∀ k, k < offset + oldSize ∨ offset + j ≤ k → contents'.get k = contents.get k) hle
      ⟨fun k h h' => absurd h' (by omega), fun _ _ => rfl⟩ ?_).mono fun _ h => ⟨fun _ => h.1, h.2⟩
    intro j contents' hj hjn ⟨hzero, hkeep⟩
    rw [addU32_eq (by omega), ok_bind, FixedArray.write_eq _ (by omega), returns_ok]
    constructor
    · intro k hk hkj
      rw [get_set _ (by omega)]
      split_ifs with h
      · rfl
      · exact hzero k hk (by omega)
    · intro k hk
      rw [get_set _ (by omega), if_neg (by omega), hkeep k (by omega)]
  · exact returns_pure.mpr ⟨fun h => absurd h hzero, fun _ _ => rfl⟩

section Resize

variable {s : Store} (hs : s.WellFormed) {file : ℕ} (hfile : file < s.fileCount)
include hs hfile

theorem stop_le_used :
    (s.files.get file).contentOffset + (s.files.get file).contentLength ≤ s.contentUsed :=
  hs.layout.stop_le (s.getElem?_table hfile)

/-- A larger file: the bytes behind it move up, and then the offsets do. -/
theorem growFile_returns {size : ℕ} (hgrow : (s.files.get file).contentLength < size)
    (zero : Bool) :
    Returns (growFile file (s.files.get file).contentLength
        ((s.files.get file).contentOffset + (s.files.get file).contentLength) size zero s) fun r =>
      (r.1 = true ∧ Resized s r.2 file (s.files.get file).extent size ∧
        (zero = true → ∀ k, (s.files.get file).contentLength ≤ k → k < size →
          r.2.contents.get ((s.files.get file).contentOffset + k) = 0)) ∨
      r = (false, s) ∧
        fileContentCapacity < s.contentUsed - (s.files.get file).contentLength + size := by
  have hcap : fileContentCapacity < 2 ^ 32 := by decide
  have hmax := hs.count_le
  have hused := hs.used_le
  have hstop := stop_le_used hs hfile
  set row := s.files.get file with hrow
  unfold growFile
  rw [subU32_eq hgrow.le, ok_bind, subU32_eq hused, ok_bind]
  split_ifs with hbig
  · exact returns_pure.mpr (.inr ⟨rfl, by omega⟩)
  refine (moveUp_returns s.contents hstop (by omega)).bind fun moved hmoved => ?_
  refine (rebaseFiles_returns (m := (· + (size - row.contentLength))) hmax fun i hi _ _ =>
    addU32_eq (by have := stop_le_used hs hi; omega)).bind fun files hfiles => ?_
  have hkept := hfiles file hfile
  rw [if_neg (by simp), ← hrow] at hkept
  have hoffset : (files.get file).contentOffset = row.contentOffset :=
    congrArg Extent.offset hkept
  rw [read_eq _ (by omega), ok_bind, hoffset]
  refine (clearGrowth_returns zero moved hgrow.le (by omega)).bind fun contents hcontents => ?_
  rw [addU32_eq (by omega), ok_bind, FixedArray.write_eq _ (by omega), ok_bind, returns_pure]
  refine .inl ⟨rfl, ⟨?_, ?_, ?_, rfl, ⟨?_, ?_⟩, ?_⟩, hcontents.1⟩ <;>
    simp only [Extent.stop, File.extent_offset, File.extent_length]
  · omega
  · refine table_resized files (· + (size - row.contentLength)) hfile hmax rfl
      (by rw [← hoffset]) hfiles fun o ho => ?_
    simp only [Extent.stop, File.extent_offset, File.extent_length, ← hrow] at ho ⊢
    omega
  · omega
  · intro k hk
    rw [hcontents.2 k (by omega), hmoved k, if_neg (by omega)]
  · intro k hk hku
    rw [hcontents.2 _ (by omega), hmoved, if_pos (by omega)]
    congr 1
    omega
  · intro k hk
    rw [hcontents.2 _ (by omega), hmoved, if_neg (by omega)]

/-- A smaller file: the bytes behind it move down, and then the offsets do. -/
theorem shrinkFile_returns {size : ℕ} (hshrink : size < (s.files.get file).contentLength) :
    Returns (shrinkFile file (s.files.get file).contentLength
        ((s.files.get file).contentOffset + (s.files.get file).contentLength) size s) fun r =>
      r.1 = true ∧ Resized s r.2 file (s.files.get file).extent size := by
  have hmax := hs.count_le
  have hused := hs.used_le
  have hstop := stop_le_used hs hfile
  set row := s.files.get file with hrow
  unfold shrinkFile
  rw [subU32_eq hshrink.le, ok_bind]
  refine (moveDown_returns s.contents hstop hused (by omega)).bind fun moved hmoved => ?_
  refine (rebaseFiles_returns (m := (· - (row.contentLength - size))) hmax
    fun i hi _ hbound => subU32_eq (by omega)).bind fun files hfiles => ?_
  rw [subU32_eq (by omega), ok_bind, read_eq _ (by omega), ok_bind,
    FixedArray.write_eq _ (by omega), ok_bind, returns_pure]
  refine ⟨rfl, ?_, ?_, ?_, rfl, ⟨?_, ?_⟩, ?_⟩ <;>
    simp only [Extent.stop, File.extent_offset, File.extent_length]
  · omega
  · refine table_resized files (· - (row.contentLength - size)) hfile hmax rfl rfl
      hfiles fun o ho => ?_
    simp only [Extent.stop, File.extent_offset, File.extent_length, ← hrow] at ho ⊢
    omega
  · omega
  · intro k hk
    rw [hmoved k, if_neg (by omega)]
  · intro k hk hku
    rw [hmoved, if_pos (by omega)]
    congr 1
    omega
  · intro k hk
    rw [hmoved, if_neg (by omega)]

end Resize

/-- **The effect of `resize_file`**, or why it refuses. -/
theorem resizeFile_returns (hs : s.WellFormed) {file : ℕ} {e : Extent (List UInt8)}
    (he : s.table[file]? = some e) (size : ℕ) (zero : Bool) :
    Returns (resizeFile file size zero s) fun r =>
      (r.1 = true ∧ Resized s r.2 file e size ∧
        (zero = true → ∀ k, e.length ≤ k → k < size → r.2.contents.get (e.offset + k) = 0)) ∨
      r = (false, s) ∧ fileContentCapacity < s.contentUsed - e.length + size := by
  obtain ⟨hfile, rfl⟩ := Store.extent_of_getElem? he
  have hcap : fileContentCapacity < 2 ^ 32 := by decide
  have hused := hs.used_le
  have hstop := stop_le_used hs hfile
  unfold resizeFile
  rw [hs.read_files hfile, ok_bind, addU32_eq (by omega), ok_bind]
  split_ifs with heq hgrow
  · subst heq
    exact returns_pure.mpr
      (.inl ⟨rfl, Resized.refl hs he, fun _ k h h' => absurd h' (Nat.not_lt.mpr h)⟩)
  · exact growFile_returns hs hfile hgrow zero
  · refine (shrinkFile_returns hs hfile (by omega)).mono fun r hr => ?_
    exact .inl ⟨hr.1, hr.2, fun _ k h h' => absurd (h.trans_lt h') hgrow⟩

end Carcer.Seed
