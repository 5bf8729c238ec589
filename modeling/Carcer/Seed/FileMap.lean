import Carcer.Seed.FileInvariant

/-!
# The file store as a finite map

What the store is for: a finite map from paths to byte strings. The calls of the interface are
stated on the map, with the conditions under which they fail, and the packed store refines it.

## Main definitions

* `FileMap`, `FileMap.update`, `FileMap.Refuses`, `FileMap.call`, `FileMap.calls`: the abstract
  store and its calls
* `Represents s m`: the packed store `s` holds the map `m`

## Main results

* `call_represents`: a call on the packed store is the call on the map
* `calls_refine_fileMap`: so is every sequence of calls, from any store that `files_init` built
-/

namespace Carcer.Seed

open Carcer.Machine Carcer.Packed List Finmap

/-- A path that a file can have: not empty, and at most 255 bytes. -/
abbrev Path : Type := { p : List UInt8 // ValidPath p }

/-- **The abstract file store**: the content of each file by its path. -/
abbrev FileMap : Type := Finmap fun _ : Path => List UInt8

/-- The path that a call names. -/
def Call.path : Call → Buffer
  | .write path _ _ => path
  | .truncate path _ => path
  | .remove path => path

/-- `old` with `data` at `offset` in place of what stood there. -/
def splice (old : List UInt8) (offset : ℕ) (data : List UInt8) : List UInt8 :=
  old.take offset ++ data ++ old.drop (offset + data.length)

/-- `old` cut to `size` bytes, or extended to them with zero bytes. -/
def cutOrExtend (old : List UInt8) (size : ℕ) : List UInt8 :=
  old.take size ++ List.replicate (size - old.length) 0

theorem length_splice {old : List UInt8} {offset : ℕ} (h : offset ≤ old.length)
    (data : List UInt8) :
    (splice old offset data).length = writtenSize old.length offset data.length := by
  simp only [splice, length_append, length_take, length_drop, writtenSize]
  omega

theorem length_cutOrExtend (old : List UInt8) (size : ℕ) :
    (cutOrExtend old size).length = size := by
  simp only [cutOrExtend, length_append, length_take, length_replicate]
  omega

namespace FileMap

/-- The bytes of all files together. -/
def total (m : FileMap) : ℕ := (m.entries.map fun entry => entry.2.length).sum

/-- The content of a file, where a missing file has none. -/
def content (m : FileMap) (p : Path) : List UInt8 := (m.lookup p).getD []

/-- What a call that succeeds makes of the map. -/
def update (m : FileMap) (p : Path) : Call → FileMap
  | .write _ offset data => m.insert p (splice (m.content p) offset.toNat data.bytes)
  | .truncate _ size => m.insert p (cutOrExtend (m.content p) size.toNat)
  | .remove _ => m.erase p

/-- When a call with a valid path fails. -/
def Refuses (m : FileMap) (p : Path) (c : Call) : Prop :=
  match c with
  | .write _ offset _ =>
    p ∉ m ∧ fileMaxCount ≤ m.keys.card ∨ (m.content p).length < offset.toNat ∨
      fileContentCapacity < (m.update p c).total
  | .truncate _ _ => p ∉ m ∨ fileContentCapacity < (m.update p c).total
  | .remove _ => p ∉ m

instance (m : FileMap) (p : Path) (c : Call) : Decidable (m.Refuses p c) :=
  match c with
  | .write _ _ _ => inferInstanceAs (Decidable (_ ∨ _))
  | .truncate _ _ => inferInstanceAs (Decidable (_ ∨ _))
  | .remove _ => inferInstanceAs (Decidable (¬_))

/-- A call on the map: its result, and the map it leaves. -/
def call (m : FileMap) (c : Call) : Bool × FileMap :=
  if h : ValidPath c.path.bytes then
    if m.Refuses ⟨c.path.bytes, h⟩ c then (false, m) else (true, m.update ⟨c.path.bytes, h⟩ c)
  else (false, m)

/-- A sequence of calls on the map. -/
def calls (m : FileMap) : List Call → List Bool × FileMap
  | [] => ([], m)
  | c :: cs => ((m.call c).1 :: ((m.call c).2.calls cs).1, ((m.call c).2.calls cs).2)

variable {m : FileMap} {p : Path} {c : Call}

theorem call_eq_update (hp : c.path.bytes = p.1) (h : ¬m.Refuses p c) :
    m.call c = (true, m.update p c) := by
  obtain ⟨p, hvalid⟩ := p
  subst hp
  rw [call, dif_pos hvalid, if_neg h]

theorem call_eq_refused (h : ∀ p : Path, c.path.bytes = p.1 → m.Refuses p c) :
    m.call c = (false, m) := by
  unfold call
  split_ifs with hvalid hrefuses
  · rfl
  · exact absurd (h _ rfl) hrefuses
  · rfl

theorem total_insert_of_notMem (h : p ∉ m) (v : List UInt8) :
    total (m.insert p v) = m.total + v.length := by
  rw [total, entries_insert_of_notMem h, Multiset.map_cons, Multiset.sum_cons, total,
    Nat.add_comm]

theorem total_insert_of_mem {old : List UInt8} (h : m.lookup p = some old) (v : List UInt8) :
    total (m.insert p v) = m.total - old.length + v.length := by
  have hp : p ∉ m.erase p := notMem_erase_self
  -- the map without the file is the common part of the map before and after
  have hm : (m.erase p).insert p old = m := by
    refine ext_lookup fun q => ?_
    by_cases hq : q = p
    · rw [hq, lookup_insert, h]
    · rw [lookup_insert_of_ne _ hq, lookup_erase_ne hq]
  have htotal := total_insert_of_notMem hp old
  rw [hm] at htotal
  rw [← hm, insert_insert, hm, total_insert_of_notMem hp, htotal]
  omega

theorem content_of_notMem (h : p ∉ m) : m.content p = [] := by
  rw [content, lookup_eq_none.mpr h, Option.getD_none]

theorem content_of_lookup {v : List UInt8} (h : m.lookup p = some v) : m.content p = v := by
  rw [content, h, Option.getD_some]

end FileMap

/-! ### The packed store represents a map -/

/-- The map that a well-formed store holds. -/
def Store.fileMap (s : Store) (hs : s.WellFormed) : FileMap :=
  toMap s.table hs.path_valid s.contents.get

/-- The packed store `s` holds the map `m`. -/
def Represents (s : Store) (m : FileMap) : Prop := ∃ hs : s.WellFormed, s.fileMap hs = m

namespace Represents

variable {s s' : Store} {m : FileMap} {p : Path} {file : ℕ} {e : Extent (List UInt8)}

section

variable (h : Represents s m)
include h

theorem total_eq : m.total = s.contentUsed := by
  obtain ⟨hs, rfl⟩ := h
  rw [FileMap.total, Store.fileMap, sum_length_toMap hs.nodup_keys, hs.layout.total]

theorem card_eq : m.keys.card = s.fileCount := by
  obtain ⟨hs, rfl⟩ := h
  rw [Store.fileMap, card_keys_toMap hs.nodup_keys, Store.length_table]

theorem lookup_eq (he : e ∈ s.table) (hp : e.key = p.1) :
    m.lookup p = some (slice s.contents.get e) := by
  obtain ⟨hs, rfl⟩ := h
  exact (lookup_toMap_eq_some hs.nodup_keys).mpr ⟨e, he, hp, rfl⟩

theorem notMem (hmissing : ∀ e ∈ s.table, e.key ≠ p.1) : p ∉ m := by
  obtain ⟨hs, rfl⟩ := h
  rw [Store.fileMap, mem_toMap hs.nodup_keys]
  rintro ⟨e, he, hkey⟩
  exact hmissing e he hkey

theorem path_eq (he : e ∈ s.table) : ∃ p : Path, e.key = p.1 := by
  obtain ⟨hs, rfl⟩ := h
  exact ⟨⟨e.key, hs.path_valid e he⟩, rfl⟩

/-- A file that is created is a new entry of the map. -/
theorem created {data : List UInt8} (hmissing : ∀ e ∈ s.table, e.key ≠ p.1)
    (hc : Created s s' p.1 data) : Represents s' (m.insert p data) := by
  obtain ⟨hs, rfl⟩ := h
  have hs' := hc.wellFormed hs
  obtain ⟨i, hi, htable⟩ := hc.table
  refine ⟨hs', ?_⟩
  have hvalid : ∀ e ∈ s.table.insertIdx i ⟨p.1, s.contentUsed, data.length⟩, ValidPath e.key :=
    htable ▸ hs'.path_valid
  have hmap : s'.fileMap hs' = toMap _ hvalid s'.contents.get := by
    simp only [Store.fileMap, htable]
  rw [hmap]
  refine toMap_insertIdx hs.nodup_keys ?_ hmissing p.2 (fun e he => hc.slice_eq hs he)
    hc.slice_new
  rw [Store.length_table]
  exact hi.1

/-- A file that is resized and filled is an entry of the map that is replaced. -/
theorem replaced (hs' : s'.WellFormed) (he : s.table[file]? = some e)
    (hp : e.key = p.1) {size : ℕ} (htable : s'.table = resizeAt s.table file size)
    (hr : Reflow s.contents.get s'.contents.get e size s.contentUsed) {v : List UInt8}
    (hv : slice s'.contents.get { e with length := size } = v) : Represents s' (m.insert p v) := by
  obtain ⟨hs, rfl⟩ := h
  refine ⟨hs', ?_⟩
  have hvalid : ∀ e ∈ resizeAt s.table file size, ValidPath e.key := htable ▸ hs'.path_valid
  have hmap : s'.fileMap hs' = toMap _ hvalid s'.contents.get := by
    simp only [Store.fileMap, htable]
  obtain rfl : p = ⟨e.key, hs.path_valid e (mem_of_getElem? he)⟩ := Subtype.ext hp.symm
  rw [hmap]
  exact toMap_resizeAt hs.nodup_keys hs.layout he hr hv

/-- A file that is removed is an entry of the map that is erased. -/
theorem removed (he : s.table[file]? = some e) (hp : e.key = p.1)
    (hr : Removed s s' file e) : Represents s' (m.erase p) := by
  obtain ⟨hs, rfl⟩ := h
  have hs' := hr.wellFormed hs he
  refine ⟨hs', ?_⟩
  have hresized : ∀ e ∈ resizeAt s.table file 0, ValidPath e.key :=
    path_valid_of_keys map_key_resizeAt hs.path_valid
  have hvalid : ∀ e ∈ (resizeAt s.table file 0).eraseIdx file, ValidPath e.key :=
    fun e he => hresized e (mem_of_mem_eraseIdx he)
  obtain rfl : p = ⟨e.key, hs.path_valid e (mem_of_getElem? he)⟩ := Subtype.ext hp.symm
  have hnd : ((resizeAt s.table file 0).map Extent.key).Nodup := by
    rw [map_key_resizeAt]
    exact hs.nodup_keys
  -- the code empties the file and drops its row, so the map is emptied at `p` and erased there
  have hempty : slice s'.contents.get { e with length := 0 } = [] := by simp [slice]
  have hemptied : toMap _ hresized s'.contents.get = Finmap.insert _ _ (s.fileMap hs) :=
    toMap_resizeAt hs.nodup_keys hs.layout he hr.reflow hempty
  have herased : toMap _ hvalid s'.contents.get = (toMap _ hresized s'.contents.get).erase _ :=
    toMap_eraseIdx hnd (getElem?_resizeAt_self he)
  have hmap : s'.fileMap hs' = toMap _ hvalid s'.contents.get := by
    simp only [Store.fileMap, hr.table]
  rw [hmap, herased, hemptied]
  refine ext_lookup fun q => ?_
  by_cases hq : q = ⟨e.key, hs.path_valid e (mem_of_getElem? he)⟩
  · rw [hq, lookup_erase, lookup_erase]
  · rw [lookup_erase_ne hq, lookup_insert_of_ne _ hq, lookup_erase_ne hq]

end

end Represents

/-! ### The bytes of a file after a call -/

variable {s s' : Store} {file : ℕ} {e : Extent (List UInt8)} {m : FileMap}

theorem Written.slice_eq {offset : ℕ} {data : List UInt8} (hw : Written s s' file e offset data) :
    slice s'.contents.get { e with length := writtenSize e.length offset data.length } =
      splice (slice s.contents.get e) offset data := by
  have hoffset := hw.offset_le
  have hle : offset ≤ (slice s.contents.get e).length := by simpa using hoffset
  have hlength := length_splice hle data
  refine ext_getElem (by simp [hlength]) fun k hk hk' => ?_
  rw [length_slice, writtenSize] at hk
  simp only at hk
  rw [getElem_slice]
  simp only [splice, getElem_append]
  split_ifs with h₁ h₂ <;> simp only [length_append, length_take, length_slice] at h₁
  · rw [length_take, length_slice] at h₂
    rw [getElem_take, getElem_slice, hw.keeps k (by omega) (by omega)]
  · simp only [length_take, length_slice] at h₂ ⊢
    rw [← hw.holds (k - min offset e.length) (by omega)]
    congr 1
    omega
  · simp only [getElem_drop, getElem_slice, length_append, length_take, length_slice]
    rw [hw.keeps k (by omega) (by omega)]
    congr 1
    omega

theorem Resized.slice_eq {size : ℕ} (hr : Resized s s' file e size)
    (hzero : ∀ k, e.length ≤ k → k < size → s'.contents.get (e.offset + k) = 0) :
    slice s'.contents.get { e with length := size } =
      cutOrExtend (slice s.contents.get e) size := by
  refine ext_getElem (by simp [length_cutOrExtend]) fun k hk hk' => ?_
  rw [length_slice] at hk
  simp only at hk
  rw [getElem_slice]
  simp only [cutOrExtend, getElem_append]
  split_ifs with h <;> simp only [length_take, length_slice] at h
  · rw [getElem_take, getElem_slice, hr.keeps k (by omega)]
  · rw [getElem_replicate, hzero k (by omega) hk]

/-! ### The calls refine the calls on the map -/

theorem fileWrite_represents (h : Represents s m) (path : Buffer) (offset : UInt32)
    (data : Buffer) :
    ∃ result s', fileWrite path offset data s = .ok (result, s') ∧
      ∃ m', m.call (.write path offset data) = (result, m') ∧ Represents s' m' := by
  obtain ⟨⟨result, s'⟩, hcall, hr⟩ := fileWrite_returns h.1 path offset data
  refine ⟨result, s', hcall, ?_⟩
  rcases hr with ⟨rfl, hmissing, hzero, hc⟩ | ⟨rfl, file, e, he, hkey, hw⟩ | ⟨hr, hreason⟩
  · -- the file is created
    let p : Path := ⟨path.bytes, hc.path_valid⟩
    have hp : p ∉ m := h.notMem hmissing
    have hupdate : m.update p (.write path offset data) = m.insert p data.bytes := by
      simp [FileMap.update, FileMap.content_of_notMem hp, hzero, splice]
    refine ⟨_, FileMap.call_eq_update (p := p) rfl ?_, hupdate ▸ h.created hmissing hc⟩
    simp only [FileMap.Refuses]
    rw [hupdate, FileMap.total_insert_of_notMem hp, h.total_eq, h.card_eq]
    have := hc.count_lt
    have := hc.fits
    omega
  · -- the file is there, and takes the data
    obtain ⟨p, hp⟩ := h.path_eq (mem_of_getElem? he)
    have hlookup := h.lookup_eq (mem_of_getElem? he) hp
    have hcontent := FileMap.content_of_lookup hlookup
    have hupdate : m.update p (.write path offset data) =
        m.insert p (splice (slice s.contents.get e) offset.toNat data.bytes) := by
      rw [FileMap.update, hcontent]
    refine ⟨_, FileMap.call_eq_update (p := p) (hkey.symm.trans hp) ?_,
      hupdate ▸ h.replaced hw.wellFormed he hp hw.table hw.reflow hw.slice_eq⟩
    simp only [FileMap.Refuses]
    rw [hupdate, FileMap.total_insert_of_mem hlookup, h.total_eq, hcontent, length_slice,
      length_splice (by simpa using hw.offset_le), length_slice]
    have hmem : p ∈ m := mem_iff.mpr ⟨_, hlookup⟩
    have := hw.fits
    have := hw.offset_le
    simp only [hmem, not_true, false_and, false_or]
    omega
  · -- the call is refused
    cases hr
    refine ⟨m, FileMap.call_eq_refused fun p hp => ?_, h⟩
    simp only [FileMap.Refuses, FileMap.update]
    rcases hreason with ⟨hmissing, hreason⟩ | ⟨e, he, hkey, hreason⟩
    · have hpm : p ∉ m := h.notMem (by rw [← hp]; exact hmissing)
      rw [FileMap.content_of_notMem hpm]
      rcases hreason with hoffset | hinvalid | hcount | hbig | ⟨e, he, hkey⟩
      · exact .inr (.inl (by simpa [Nat.pos_iff_ne_zero] using hoffset))
      · exact absurd (by rw [show path.bytes = p.1 from hp]; exact p.2) hinvalid
      · exact .inl ⟨hpm, by rwa [h.card_eq]⟩
      · right; right
        rw [FileMap.total_insert_of_notMem hpm, h.total_eq]
        simp only [splice, length_append]
        omega
      · exact absurd hkey (hmissing e he)
    · have hlookup := h.lookup_eq he (hkey.trans hp)
      rw [FileMap.content_of_lookup hlookup, length_slice]
      by_cases hle : offset.toNat ≤ e.length
      · right; right
        rw [FileMap.total_insert_of_mem hlookup, h.total_eq, length_slice,
          length_splice (by simpa using hle), length_slice]
        rcases hreason with hpast | hbig
        · omega
        · exact hbig
      · exact .inr (.inl (by omega))

theorem fileTruncate_represents (h : Represents s m) (path : Buffer) (size : UInt32) :
    ∃ result s', fileTruncate path size s = .ok (result, s') ∧
      ∃ m', m.call (.truncate path size) = (result, m') ∧ Represents s' m' := by
  obtain ⟨⟨result, s'⟩, hcall, hr⟩ := fileTruncate_returns h.1 path size
  refine ⟨result, s', hcall, ?_⟩
  rcases hr with ⟨rfl, file, e, he, hkey, hresized, hzero⟩ | ⟨hr, hreason⟩
  · obtain ⟨p, hp⟩ := h.path_eq (mem_of_getElem? he)
    have hlookup := h.lookup_eq (mem_of_getElem? he) hp
    have hupdate : m.update p (.truncate path size) =
        m.insert p (cutOrExtend (slice s.contents.get e) size.toNat) := by
      rw [FileMap.update, FileMap.content_of_lookup hlookup]
    have hs' : s'.WellFormed := hresized.wellFormed h.1 he
    refine ⟨_, FileMap.call_eq_update (p := p) (hkey.symm.trans hp) ?_,
      hupdate ▸ h.replaced hs' he hp hresized.table hresized.reflow (hresized.slice_eq hzero)⟩
    simp only [FileMap.Refuses]
    rw [hupdate, FileMap.total_insert_of_mem hlookup, h.total_eq, length_slice,
      length_cutOrExtend]
    have hmem : p ∈ m := mem_iff.mpr ⟨_, hlookup⟩
    have := hresized.fits
    simp only [hmem, not_true, false_or]
    omega
  · cases hr
    refine ⟨m, FileMap.call_eq_refused fun p hp => ?_, h⟩
    simp only [FileMap.Refuses, FileMap.update]
    rcases hreason with hmissing | ⟨e, he, hkey, hbig⟩
    · exact .inl (h.notMem (by rw [← hp]; exact hmissing))
    have hlookup := h.lookup_eq he (hkey.trans hp)
    right
    rwa [FileMap.total_insert_of_mem hlookup, h.total_eq, length_slice, length_cutOrExtend]

theorem fileRemove_represents (h : Represents s m) (path : Buffer) :
    ∃ result s', fileRemove path s = .ok (result, s') ∧
      ∃ m', m.call (.remove path) = (result, m') ∧ Represents s' m' := by
  obtain ⟨⟨result, s'⟩, hcall, hr⟩ := fileRemove_returns h.1 path
  refine ⟨result, s', hcall, ?_⟩
  rcases hr with ⟨rfl, file, e, he, hkey, hremoved⟩ | ⟨hr, hmissing⟩
  · obtain ⟨p, hp⟩ := h.path_eq (mem_of_getElem? he)
    have hmem : p ∈ m :=
      mem_iff.mpr ⟨_, h.lookup_eq (mem_of_getElem? he) hp⟩
    exact ⟨_, FileMap.call_eq_update (p := p) (hkey.symm.trans hp) (not_not.mpr hmem),
      h.removed he hp hremoved⟩
  · cases hr
    exact ⟨m, FileMap.call_eq_refused fun p hp => h.notMem (by rw [← hp]; exact hmissing), h⟩

/-- **A call on the packed store is the call on the map it represents.** -/
theorem call_represents (h : Represents s m) (c : Call) :
    ∃ result s', s.call c = .ok (result, s') ∧
      ∃ m', m.call c = (result, m') ∧ Represents s' m' := by
  cases c with
  | write path offset data => exact fileWrite_represents h path offset data
  | truncate path size => exact fileTruncate_represents h path size
  | remove path => exact fileRemove_represents h path

theorem calls_represents (h : Represents s m) (cs : List Call) :
    ∃ results s', s.calls cs = .ok (results, s') ∧
      ∃ m', m.calls cs = (results, m') ∧ Represents s' m' := by
  induction cs generalizing s m with
  | nil => exact ⟨[], s, rfl, m, rfl, h⟩
  | cons c cs ih =>
    obtain ⟨result, s₁, hcall, m₁, hm₁, h₁⟩ := call_represents h c
    obtain ⟨results, s', hcalls, m', hm', h'⟩ := ih h₁
    refine ⟨result :: results, s', ?_, m', ?_, h'⟩
    · rw [Store.calls, hcall, ok_bind]
      simp only
      rw [hcalls]
      rfl
    · rw [FileMap.calls, hm₁]
      simp only [hm']

/-- **The packed store refines the file map**: from any store that `files_init` built, every
sequence of calls returns the results that the calls on the map have, and leaves a store that
represents the map they leave. -/
theorem calls_refine_fileMap {initialFiles : List EmbeddedFile} {s₀ s : Store} {built : Bool}
    (h : filesInit initialFiles s₀ = .ok (built, s)) :
    ∃ m, Represents s m ∧ ∀ cs, ∃ results s', s.calls cs = .ok (results, s') ∧
      ∃ m', m.calls cs = (results, m') ∧ Represents s' m' := by
  have hs : s.WellFormed := (filesInit_returns initialFiles s₀).of_eq h
  have hrep : Represents s (s.fileMap hs) := ⟨hs, rfl⟩
  exact ⟨_, hrep, calls_represents hrep⟩

/-- A table of one file. -/
def oneFile : List EmbeddedFile := [⟨[97], 1, [7], 1, by decide, by decide, by decide⟩]

/-- A write that extends the file, a truncation, a write past the end and the removal of a missing
file. -/
def oneFileCalls : List Call :=
  [.write ⟨[97], by decide⟩ 1 ⟨[8, 9], by decide⟩, .truncate ⟨[97], by decide⟩ 2,
    .write ⟨[97], by decide⟩ 3 ⟨[1], by decide⟩, .remove ⟨[98], by decide⟩]

theorem one_file_refines : ∃ s m, filesInit oneFile .zeroed = .ok (true, s) ∧ Represents s m ∧
    ∃ s', s.calls oneFileCalls = .ok ([true, true, false, false], s') ∧
    ∃ m', m.calls oneFileCalls = ([true, true, false, false], m') ∧ Represents s' m' := by
  have hrun : ∃ s s', filesInit oneFile .zeroed = .ok (true, s) ∧
      s.calls oneFileCalls = .ok ([true, true, false, false], s') := ⟨_, _, rfl, rfl⟩
  obtain ⟨s, s', hinit, hcalls⟩ := hrun
  obtain ⟨m, hm, h⟩ := calls_refine_fileMap hinit
  obtain ⟨results, s'', hresults, m', hm', hrep⟩ := h _
  obtain ⟨rfl, rfl⟩ := Prod.mk.inj (Except.ok.inj (hcalls.symm.trans hresults))
  exact ⟨s, m, hinit, hm, s', hcalls, m', hm', hrep⟩

end Carcer.Seed
