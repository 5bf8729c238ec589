import Carcer.Packed.Extents
import Carcer.Seed.Files

/-!
# The table of the file store

The rows of the store's table read as extents: a path, and where its content lies in the shared
array. On a well-formed store every function of the source returns, and its effect on the table is
one operation on extents.

## Main definitions

* `File.extent`, `Store.table`: the rows of the table as extents
* `Store.WellFormed`: the table is sorted by path, and its extents fill the used content

## Main results

* `comparePaths_returns`: the comparison is the lexicographic order of the bytes
* `fileFind_returns`, `insertionPoint_returns`: what the searches find
-/

namespace Carcer.Seed

open Carcer.Machine Carcer.Packed List

/-- The path a row holds. -/
def File.name (file : File) : List UInt8 := (List.range file.pathLength).map file.path.get

/-- A row as an extent of the shared content array. -/
def File.extent (file : File) : Extent (List UInt8) :=
  ⟨file.name, file.contentOffset, file.contentLength⟩

/-- The rows in use, as extents. -/
def Store.table (s : Store) : List (Extent (List UInt8)) :=
  (List.range s.fileCount).map fun i => (s.files.get i).extent

/-- The paths the store can hold. -/
def ValidPath (path : List UInt8) : Prop := path ≠ [] ∧ path.length ≤ fileMaxPathLength

instance (path : List UInt8) : Decidable (ValidPath path) :=
  inferInstanceAs (Decidable (_ ∧ _))

/-- **The invariant of the store.** -/
structure Store.WellFormed (s : Store) : Prop where
  count_le : s.fileCount ≤ fileMaxCount
  sorted : (s.table.map Extent.key).Pairwise (· < ·)
  path_valid : ∀ e ∈ s.table, ValidPath e.key
  layout : Layout s.table s.contentUsed
  used_le : s.contentUsed ≤ fileContentCapacity

@[simp] theorem File.length_name (file : File) : file.name.length = file.pathLength := by
  simp [File.name]

@[simp] theorem File.extent_key (file : File) : file.extent.key = file.name := rfl

@[simp] theorem File.extent_offset (file : File) : file.extent.offset = file.contentOffset := rfl

@[simp] theorem File.extent_length (file : File) : file.extent.length = file.contentLength := rfl

@[simp] theorem Store.length_table (s : Store) : s.table.length = s.fileCount := by
  simp [Store.table]

variable {i : ℕ} {s : Store} {left right : List UInt8}

theorem Store.getElem?_table (s : Store) (hi : i < s.fileCount) :
    s.table[i]? = some (s.files.get i).extent := by
  simp [Store.table, hi]

theorem Store.extent_of_getElem? {e : Extent (List UInt8)}
    (he : s.table[i]? = some e) : i < s.fileCount ∧ (s.files.get i).extent = e := by
  have hi := (List.getElem?_eq_some_iff.mp he).1
  rw [Store.length_table] at hi
  rw [s.getElem?_table hi] at he
  exact ⟨hi, Option.some.inj he⟩

theorem File.points_pathSource {file : File} (h : file.pathLength ≤ fileMaxPathLength) :
    Points file.pathSource file.name := by
  intro i hi
  rw [File.length_name] at hi
  rw [File.pathSource, FixedArray.read_eq _ (by omega)]
  simp [File.name]

theorem ne_of_path_lt (h : left < right) : left ≠ right := by
  rintro rfl
  exact List.lt_irrefl _ h

namespace Store.WellFormed

variable {s : Store} (hs : s.WellFormed)
include hs

theorem nodup_keys : (s.table.map Extent.key).Nodup :=
  hs.sorted.imp ne_of_path_lt

theorem read_files {i : ℕ} (hi : i < s.fileCount) : s.files.read i = .ok (s.files.get i) :=
  s.files.read_eq (hi.trans_le hs.count_le)

theorem pathLength_le {i : ℕ} (hi : i < s.fileCount) :
    (s.files.get i).pathLength ≤ fileMaxPathLength := by
  have h := hs.path_valid _ (mem_of_getElem? (s.getElem?_table hi))
  simpa using h.2

theorem points_path {i : ℕ} (hi : i < s.fileCount) :
    Points (s.files.get i).pathSource (s.files.get i).name :=
  File.points_pathSource (hs.pathLength_le hi)

theorem name_lt {i j : ℕ} (hij : i < j) (hj : j < s.fileCount) :
    (s.files.get i).name < (s.files.get j).name := by
  have h := pairwise_iff_getElem.mp hs.sorted i j (by simpa using hij.trans hj)
    (by simpa using hj) hij
  simpa [Store.table] using h

end Store.WellFormed

/-! ### The files as paths and contents -/

/-- The path and the content of a row. -/
def Store.entry (s : Store) (i : ℕ) : List UInt8 × List UInt8 :=
  ((s.files.get i).name, slice s.contents.get (s.files.get i).extent)

@[simp] theorem Store.length_entry_path (s : Store) (i : ℕ) :
    (s.entry i).1.length = (s.files.get i).pathLength :=
  File.length_name _

@[simp] theorem Store.length_entry_content (s : Store) (i : ℕ) :
    (s.entry i).2.length = fileSize (s.files.get i) :=
  length_slice _ _

/-- The files of the store, in the order of the table. -/
def Store.entries (s : Store) : List (List UInt8 × List UInt8) :=
  (List.range s.fileCount).map s.entry

theorem Store.entries_eq_map_table (s : Store) :
    s.entries = s.table.map fun e => (e.key, slice s.contents.get e) := by
  rw [Store.entries, Store.table, map_map]
  rfl

theorem Store.map_fst_entries (s : Store) : s.entries.map Prod.fst = s.table.map Extent.key := by
  rw [s.entries_eq_map_table, map_map]
  rfl

/-! ### Comparing and searching -/

/-- `compare_paths` on the bytes: the sign of the lexicographic order. -/
def pathOrder (left right : List UInt8) : ℤ :=
  if left < right then -1 else if right < left then 1 else 0

theorem pathOrder_eq_zero : pathOrder left right = 0 ↔ left = right := by
  unfold pathOrder
  rcases Std.lt_trichotomy left right with h | rfl | h
  · simp [h, ne_of_path_lt h]
  · simp [List.lt_irrefl]
  · simp [h, List.lt_asymm h, (ne_of_path_lt h).symm]

theorem pathOrder_pos : 0 < pathOrder left right ↔ right < left := by
  unfold pathOrder
  by_cases h : left < right
  · simp [h, List.lt_asymm h]
  · by_cases h' : right < left <;> simp [h, h']

theorem pathOrder_neg : pathOrder left right = -1 ↔ left < right := by
  unfold pathOrder
  by_cases h : left < right
  · simp [h]
  · by_cases h' : right < left <;> simp [h, h']

/-- Lists with a common beginning are ordered by the first byte they differ in. -/
theorem lt_of_take_eq (hl : i < left.length) (hr : i < right.length)
    (htake : left.take i = right.take i) (hlt : left[i] < right[i]) : left < right := by
  refine List.lt_iff_exists.mpr (.inr ⟨i, hl, hr, fun j hj => ?_, hlt⟩)
  have h := congrArg (·[j]?) htake
  simpa [hj, getElem?_eq_getElem (hj.trans hl), getElem?_eq_getElem (hj.trans hr)] using h

/-- **The comparison is the lexicographic order of the bytes.** -/
theorem comparePaths_returns {left right} {l r : List UInt8} (hl : Points left l)
    (hr : Points right r) :
    Returns (comparePaths left l.length right r.length) (· = pathOrder l r) := by
  set shared := if l.length < r.length then l.length else r.length with hshared
  have hle : shared ≤ l.length ∧ shared ≤ r.length := by
    rw [hshared]
    split <;> omega
  unfold comparePaths
  refine (scanRange_returns (fun i _ => l.take i = r.take i) (· = pathOrder l r)
    (Nat.zero_le _) (by simp) ?_).bind ?_
  · intro i _ _ hi htake
    have hil : i < l.length := by omega
    have hir : i < r.length := by omega
    rw [hl i hil, hr i hir, ok_bind, ok_bind]
    split_ifs with hlt hgt
    · exact returns_ok.mpr (pathOrder_neg.mpr (lt_of_take_eq hil hir htake hlt)).symm
    · have h := lt_of_take_eq hir hil htake.symm hgt
      refine returns_ok.mpr (show 1 = pathOrder l r from ?_)
      simp [pathOrder, h, List.lt_asymm h]
    refine returns_ok.mpr (show l.take (i + 1) = r.take (i + 1) from ?_)
    have heq : l[i] = r[i] := by
      rcases Std.lt_trichotomy l[i] r[i] with h | h | h
      · exact absurd h hlt
      · exact h
      · exact absurd h hgt
    rw [take_add_one, take_add_one, htake, getElem?_eq_getElem hil,
      getElem?_eq_getElem hir, heq]
  · intro round hround
    cases round with
    | stop order => exact returns_ok.mpr hround
    | next _ =>
      -- one list is the beginning of the other, so the lengths decide
      have htake : l.take shared = r.take shared := hround
      simp only
      split_ifs with hlt hgt
      · have hl' : l = r.take l.length := by
          rwa [hshared, if_pos hlt, take_length] at htake
        exact returns_ok.mpr
          (pathOrder_neg.mpr (List.lt_iff_exists.mpr (.inl ⟨hl', hlt⟩))).symm
      · rw [hshared, if_neg hlt, take_length] at htake
        have h : r < l := List.lt_iff_exists.mpr (.inl ⟨htake.symm, hgt⟩)
        exact returns_ok.mpr (by simp [pathOrder, h, List.lt_asymm h])
      · rw [hshared, if_neg hlt, take_length, take_of_length_le (by omega)] at htake
        exact returns_ok.mpr (pathOrder_eq_zero.mpr htake).symm

theorem bytesEqual_returns {left right} {l r : List UInt8} (hl : Points left l)
    (hr : Points right r) :
    Returns (bytesEqual left l.length right r.length) (· = decide (l = r)) := by
  unfold bytesEqual
  split_ifs with hlen
  · refine returns_ok.mpr ?_
    have hne : l ≠ r := fun h => hlen (h ▸ rfl)
    simp [hne]
  rw [not_not] at hlen
  refine (scanRange_returns (fun i _ => l.take i = r.take i) (· = decide (l = r))
    (Nat.zero_le _) (by simp) ?_).bind ?_
  · intro i _ _ hi htake
    have hir : i < r.length := by omega
    rw [hl i hi, hr i hir, ok_bind, ok_bind]
    split_ifs with hne
    · refine returns_ok.mpr ?_
      have : l ≠ r := by
        rintro rfl
        exact hne rfl
      simp [Round.Ends, this]
    rw [not_not] at hne
    refine returns_ok.mpr (show l.take (i + 1) = r.take (i + 1) from ?_)
    rw [take_add_one, take_add_one, htake, getElem?_eq_getElem hi,
      getElem?_eq_getElem hir, hne]
  · intro round hround
    cases round with
    | stop result => exact returns_ok.mpr hround
    | next _ =>
      have htake : l.take l.length = r.take l.length := hround
      rw [take_length, hlen, take_length] at htake
      exact returns_ok.mpr (by simp [htake])

/-- What `file_find` finds: the row of the path, or that no row has it. -/
def Found (s : Store) (path : List UInt8) : Option ℕ → Prop
  | some file => ∃ e, s.table[file]? = some e ∧ e.key = path
  | none => ∀ e ∈ s.table, e.key ≠ path

theorem fileFind_returns (hs : s.WellFormed) {path} {p : List UInt8}
    (hp : Points path p) : Returns (fileFind path p.length s) (Found s p) := by
  unfold fileFind
  refine (scanRange_returns (fun i _ => ∀ j < i, (s.files.get j).name ≠ p)
    (fun i => Found s p (some i)) (Nat.zero_le _) (fun _ h => absurd h (Nat.not_lt_zero _))
    ?_).bind ?_
  · intro i _ _ hi hbefore
    rw [hs.read_files hi, ok_bind]
    have heq := bytesEqual_returns hp (hs.points_path hi)
    rw [File.length_name] at heq
    refine heq.bind fun equal hequal => ?_
    rw [hequal]
    split_ifs with h
    · exact returns_ok.mpr ⟨_, s.getElem?_table hi, (by simpa using h : p = _).symm⟩
    refine returns_ok.mpr fun j hj => ?_
    rcases Nat.lt_succ_iff_lt_or_eq.mp hj with hj | rfl
    · exact hbefore j hj
    · exact fun he => h (by simp [he])
  · intro round hround
    cases round with
    | stop index => exact returns_ok.mpr hround
    | next _ =>
      refine returns_ok.mpr fun e he => ?_
      obtain ⟨i, hi⟩ := getElem?_of_mem he
      obtain ⟨hlt, rfl⟩ := Store.extent_of_getElem? hi
      exact hround i hlt

/-- What the search of `create_file` finds: the place that keeps the table sorted, or that the
path is in the table. -/
def Insertion (s : Store) (path : List UInt8) : Option ℕ → Prop
  | some i => i ≤ s.fileCount ∧ (∀ j < i, (s.files.get j).name < path) ∧
      ∀ j, i ≤ j → j < s.fileCount → path < (s.files.get j).name
  | none => ∃ e ∈ s.table, e.key = path

theorem insertionPoint_returns (hs : s.WellFormed) {path} {p : List UInt8} (hp : Points path p) :
    Returns (insertionPoint path p.length s) (Insertion s p) := by
  unfold insertionPoint
  refine (scanRange_returns (fun i _ => ∀ j < i, (s.files.get j).name < p) (Insertion s p)
    (Nat.zero_le _) (fun _ h => absurd h (Nat.not_lt_zero _)) ?_).bind ?_
  · intro i _ _ hi hbefore
    rw [hs.read_files hi, ok_bind]
    have hcompare := comparePaths_returns (hs.points_path hi) hp
    rw [File.length_name] at hcompare
    refine hcompare.bind fun order horder => ?_
    subst horder
    split_ifs with hzero hpos
    · exact returns_ok.mpr
        ⟨_, mem_of_getElem? (s.getElem?_table hi), pathOrder_eq_zero.mp hzero⟩
    · -- the rows from here on are larger, by the order of the table
      have hgt := pathOrder_pos.mp hpos
      refine returns_ok.mpr ⟨hi.le, hbefore, fun j hij hj => ?_⟩
      rcases hij.eq_or_lt with rfl | hij
      · exact hgt
      · exact List.lt_trans hgt (hs.name_lt hij hj)
    · refine returns_ok.mpr fun j hj => ?_
      rcases Nat.lt_succ_iff_lt_or_eq.mp hj with hj | rfl
      · exact hbefore j hj
      rcases Std.lt_trichotomy (s.files.get j).name p with h | h | h
      · exact h
      · exact absurd (pathOrder_eq_zero.mpr h) hzero
      · exact absurd (pathOrder_pos.mpr h) hpos
  · intro round hround
    cases round with
    | stop found => exact returns_ok.mpr hround
    | next _ => exact returns_ok.mpr ⟨le_rfl, hround, fun j h h' => absurd h' (by omega)⟩

end Carcer.Seed
