import Mathlib

/-!
# Packed extents

A table of extents describes how one array holds many byte strings back to back: each extent has a
key, an offset and a length. Resizing an extent moves every later extent, and the cells of the
array with them. An extent of length zero shares its offset with its neighbours, so extents are
kept apart by their order, end to start, and not only by the cells they cover.

## Main definitions

* `Extent κ`: one extent
* `Layout table used`: the extents fill the first `used` cells, any two of them end to start
* `resizeAt table f size`: the table after the extent `f` got the length `size`
* `Reflow`: how the cells of the array move when an extent is resized
* `slice contents e`: what the array holds at an extent
* `toMap`: the finite map a table and its array stand for

## Main results

* `Layout.resizeAt`, `Layout.insertIdx`, `Layout.eraseIdx`: the operations keep the layout
* `slice_rebase`: a resize moves the other extents with their content
* `toMap_resizeAt`, `toMap_insertIdx`, `toMap_eraseIdx`: the operations on the map
-/

namespace Carcer.Packed

open List Finmap

variable {κ α : Type}

/-- One extent: the cells from `offset` on, `length` of them, under a key. -/
@[ext] structure Extent (κ : Type) where
  key : κ
  offset : ℕ
  length : ℕ
  deriving DecidableEq, Repr

namespace Extent

/-- The cell after the last one. -/
def stop (e : Extent κ) : ℕ := e.offset + e.length

/-- Two extents in order, end to start, either way round. -/
def Apart (a b : Extent κ) : Prop := a.stop ≤ b.offset ∨ b.stop ≤ a.offset

theorem Apart.symm {a b : Extent κ} (h : a.Apart b) : b.Apart a := Or.symm h

end Extent

/-- **The extents fill the first `used` cells**: they lie inside, they are apart, and no cell is
left over. -/
structure Layout (table : List (Extent κ)) (used : ℕ) : Prop where
  within : ∀ e ∈ table, e.stop ≤ used
  apart : table.Pairwise Extent.Apart
  total : (table.map Extent.length).sum = used

/-- What the array holds at an extent. -/
def slice (contents : ℕ → α) (e : Extent κ) : List α :=
  (List.range e.length).map fun k => contents (e.offset + k)

@[simp] theorem length_slice (contents : ℕ → α) (e : Extent κ) :
    (slice contents e).length = e.length := by
  simp [slice]

theorem getElem_slice (contents : ℕ → α) (e : Extent κ) (k : ℕ)
    (hk : k < (slice contents e).length) : (slice contents e)[k] = contents (e.offset + k) := by
  simp [slice]

theorem slice_congr {contents contents' : ℕ → α} {e e' : Extent κ} (hl : e'.length = e.length)
    (h : ∀ k < e.length, contents' (e'.offset + k) = contents (e.offset + k)) :
    slice contents' e' = slice contents e := by
  rw [slice, slice, hl]
  exact map_congr_left fun k hk => h k (mem_range.mp hk)

variable {table : List (Extent κ)} {used : ℕ} {i : ℕ}

/-- The extents of a layout are apart, whichever comes first in the table. -/
theorem Layout.apart_of_ne (hl : Layout table used) {i j : ℕ} {a b : Extent κ}
    (ha : table[i]? = some a) (hb : table[j]? = some b) (hij : i ≠ j) : a.Apart b := by
  obtain ⟨hi, rfl⟩ := List.getElem?_eq_some_iff.mp ha
  obtain ⟨hj, rfl⟩ := List.getElem?_eq_some_iff.mp hb
  rcases Nat.lt_or_gt_of_ne hij with h | h
  · exact pairwise_iff_getElem.mp hl.apart i j hi hj h
  · exact (pairwise_iff_getElem.mp hl.apart j i hj hi h).symm

theorem Layout.stop_le (hl : Layout table used) {e : Extent κ} (he : table[i]? = some e) :
    e.stop ≤ used :=
  hl.within e (mem_of_getElem? he)

/-! ### Resizing -/

/-- An extent's place after the extent `e` got the length `size`: the extents from its end on
move with its end. -/
def rebase (e : Extent κ) (size : ℕ) (other : Extent κ) : Extent κ :=
  if e.stop ≤ other.offset then { other with offset := other.offset - e.length + size } else other

/-- The table after the extent `f` got the length `size`. -/
def resizeAt (table : List (Extent κ)) (f size : ℕ) : List (Extent κ) :=
  match table[f]? with
  | none => table
  | some e => table.mapIdx fun i other =>
      if i = f then { other with length := size } else rebase e size other

@[simp] theorem rebase_key (e : Extent κ) (size : ℕ) (other : Extent κ) :
    (rebase e size other).key = other.key := by
  unfold rebase
  split <;> rfl

@[simp] theorem rebase_length (e : Extent κ) (size : ℕ) (other : Extent κ) :
    (rebase e size other).length = other.length := by
  unfold rebase
  split <;> rfl

theorem rebase_of_le {e other : Extent κ} (size : ℕ) (h : e.stop ≤ other.offset) :
    rebase e size other = { other with offset := other.offset - e.length + size } := if_pos h

theorem rebase_of_not_le {e other : Extent κ} (size : ℕ) (h : ¬e.stop ≤ other.offset) :
    rebase e size other = other := if_neg h

theorem rebase_offset (e : Extent κ) (size : ℕ) (other : Extent κ) :
    (rebase e size other).offset =
      if e.offset + e.length ≤ other.offset then other.offset - e.length + size
      else other.offset := by
  unfold rebase Extent.stop
  split <;> rfl

section Resize

variable {table : List (Extent κ)} {f size : ℕ} {e : Extent κ}

theorem resizeAt_eq (he : table[f]? = some e) :
    resizeAt table f size = table.mapIdx fun i other =>
      if i = f then { other with length := size } else rebase e size other := by
  simp [resizeAt, he]

@[simp] theorem length_resizeAt : (resizeAt table f size).length = table.length := by
  unfold resizeAt
  split <;> simp

theorem getElem?_resizeAt_self (he : table[f]? = some e) :
    (resizeAt table f size)[f]? = some { e with length := size } := by
  simp [resizeAt_eq he, he]

theorem getElem?_resizeAt_of_ne (he : table[f]? = some e) {i : ℕ} (hi : i ≠ f) :
    (resizeAt table f size)[i]? = table[i]?.map (rebase e size) := by
  simp [resizeAt_eq he, hi]

theorem resizeAt_length_self (he : table[f]? = some e) : resizeAt table f e.length = table := by
  refine ext_getElem? fun i => ?_
  by_cases hi : i = f
  · rw [hi, getElem?_resizeAt_self he, he]
  rw [getElem?_resizeAt_of_ne he hi]
  cases table[i]? with
  | none => rfl
  | some o =>
    refine congrArg some (Extent.ext (rebase_key _ _ _) ?_ (rebase_length _ _ _))
    rw [rebase_offset]
    split_ifs <;> omega

@[simp] theorem map_key_resizeAt :
    (resizeAt table f size).map Extent.key = table.map Extent.key := by
  cases he : table[f]? with
  | none => simp [resizeAt, he]
  | some e =>
    refine ext_getElem? fun i => ?_
    rw [getElem?_map, getElem?_map]
    by_cases hi : i = f
    · rw [hi, getElem?_resizeAt_self he, he]
      rfl
    rw [getElem?_resizeAt_of_ne he hi, Option.map_map]
    congr 1
    exact funext fun other => rebase_key e size other

theorem map_length_resizeAt (he : table[f]? = some e) :
    (resizeAt table f size).map Extent.length = (table.map Extent.length).set f size := by
  refine ext_getElem? fun i => ?_
  by_cases hi : i = f
  · have hf := (List.getElem?_eq_some_iff.mp he).1
    subst hi
    rw [getElem?_map, getElem?_resizeAt_self he]
    simp [hf]
  rw [getElem?_map, getElem?_resizeAt_of_ne he hi, getElem?_set_ne (Ne.symm hi),
    getElem?_map, Option.map_map]
  congr 1
  exact funext fun other => rebase_length e size other

theorem sum_set_add {l : List ℕ} {i n : ℕ} (hn : l[i]? = some n) (m : ℕ) :
    (l.set i m).sum + n = l.sum + m := by
  obtain ⟨hi, rfl⟩ := List.getElem?_eq_some_iff.mp hn
  have h := sum_take_add_sum_drop l i
  rw [drop_eq_getElem_cons hi, sum_cons] at h
  rw [sum_set, if_pos hi]
  omega

/-- Rebasing by the extent `e` keeps the order of two other extents. -/
theorem rebase_apart {a b : Extent κ} (hab : a.stop ≤ b.offset) (ha : a.Apart e) (hb : b.Apart e) :
    (rebase e size a).stop ≤ (rebase e size b).offset := by
  simp only [Extent.Apart, Extent.stop] at hab ha hb
  simp only [Extent.stop, rebase_offset, rebase_length]
  split_ifs <;> omega

/-- **Resizing keeps the layout.** -/
theorem Layout.resizeAt {used : ℕ} (hl : Layout table used) (he : table[f]? = some e) (size : ℕ) :
    Layout (Packed.resizeAt table f size) (used - e.length + size) := by
  have hused := hl.stop_le he
  -- where the extent at `i` is after the move
  have moved : ∀ i o, (Packed.resizeAt table f size)[i]? = some o →
      i = f ∧ o = { e with length := size } ∨
        i ≠ f ∧ ∃ o', table[i]? = some o' ∧ o = rebase e size o' ∧ o'.Apart e := by
    intro i o ho
    by_cases hi : i = f
    · subst hi
      rw [getElem?_resizeAt_self he] at ho
      exact .inl ⟨rfl, (Option.some.inj ho).symm⟩
    rw [getElem?_resizeAt_of_ne he hi] at ho
    obtain ⟨o', ho', rfl⟩ := Option.map_eq_some_iff.mp ho
    exact .inr ⟨hi, o', ho', rfl, hl.apart_of_ne ho' he hi⟩
  constructor
  · intro o ho
    obtain ⟨i, hi⟩ := getElem?_of_mem ho
    rcases moved i o hi with ⟨-, rfl⟩ | ⟨-, o', ho', rfl, happ⟩
    · simp only [Extent.stop] at hused ⊢
      omega
    have := hl.stop_le ho'
    simp only [Extent.Apart, Extent.stop] at hused happ this
    simp only [Extent.stop, rebase_offset, rebase_length]
    split_ifs <;> omega
  · rw [pairwise_iff_getElem]
    intro i j hi hj hij
    rcases moved i _ (getElem?_eq_getElem hi) with ⟨rfl, ha⟩ | ⟨hif, a, ha, ha', haa⟩
    · rcases moved j _ (getElem?_eq_getElem hj) with ⟨rfl, -⟩ | ⟨-, b, -, hb', hba⟩
      · omega
      · rw [ha, hb']
        simp only [Extent.Apart, Extent.stop] at hba
        simp only [Extent.Apart, Extent.stop, rebase_offset, rebase_length]
        split_ifs <;> omega
    · rcases moved j _ (getElem?_eq_getElem hj) with ⟨rfl, hb⟩ | ⟨hjf, b, hb, hb', hbb⟩
      · rw [ha', hb]
        simp only [Extent.Apart, Extent.stop] at haa
        simp only [Extent.Apart, Extent.stop, rebase_offset, rebase_length]
        split_ifs <;> omega
      · rw [ha', hb']
        rcases hl.apart_of_ne ha hb (by omega) with h | h
        · exact .inl (rebase_apart h haa hbb)
        · exact .inr (rebase_apart h hbb haa)
  · have hlen : (table.map Extent.length)[f]? = some e.length := by simp [he]
    have hsum := sum_set_add hlen size
    rw [map_length_resizeAt he]
    rw [hl.total] at hsum
    unfold Extent.stop at hused
    omega

end Resize

/-! ### The cells of a resized extent -/

/-- **The cells move with the extents**: when the extent `e` gets the length `size`, the cells
before it stay and the used cells from its end on move with its end. The cells of `e` itself are
left open. -/
structure Reflow (contents contents' : ℕ → α) (e : Extent κ) (size used : ℕ) : Prop where
  keeps : ∀ k < e.offset, contents' k = contents k
  moves : ∀ k, e.stop ≤ k → k < used → contents' (k - e.length + size) = contents k

/-- Another extent holds after the move what it held before. -/
theorem slice_rebase {contents contents' : ℕ → α} {e o : Extent κ} {size used : ℕ}
    (hr : Reflow contents contents' e size used) (happ : o.Apart e) (ho : o.stop ≤ used) :
    slice contents' (rebase e size o) = slice contents o := by
  refine slice_congr (rebase_length e size o) fun k hk => ?_
  simp only [Extent.Apart, Extent.stop] at happ ho
  rw [rebase_offset]
  split_ifs with h
  · rw [← hr.moves (o.offset + k) (by simp only [Extent.stop]; omega) (by omega)]
    congr 1
    omega
  · exact hr.keeps _ (by omega)

/-! ### Inserting and erasing -/

/-- A list in order stays in order when an element is inserted at its place. -/
theorem pairwise_insertIdx {β : Type} {R : β → β → Prop} {l : List β} (h : l.Pairwise R)
    (hi : i ≤ l.length) {x : β} (hbefore : ∀ j (hj : j < l.length), j < i → R l[j] x)
    (hafter : ∀ j (hj : j < l.length), i ≤ j → R x l[j]) : (l.insertIdx i x).Pairwise R := by
  induction l generalizing i with
  | nil =>
    obtain rfl : i = 0 := by simpa using hi
    simp
  | cons a l ih =>
    rcases i with _ | i
    · rw [insertIdx_zero, pairwise_cons]
      refine ⟨fun b hb => ?_, h⟩
      obtain ⟨j, hj, rfl⟩ := getElem_of_mem hb
      exact hafter j hj (Nat.zero_le j)
    obtain ⟨ha, hl⟩ := pairwise_cons.mp h
    have hi' : i ≤ l.length := by simpa using hi
    rw [insertIdx_succ_cons, pairwise_cons]
    constructor
    · intro b hb
      rcases (mem_insertIdx hi').mp hb with rfl | hb
      · exact hbefore 0 (by simp) (by omega)
      · exact ha b hb
    · exact ih hl hi'
        (fun j hj hji => hbefore (j + 1) (by simpa using hj) (by omega))
        (fun j hj hij => hafter (j + 1) (by simpa using hj) (by omega))

/-- An extent added behind the used cells keeps the layout, wherever its row stands. -/
theorem Layout.insertIdx (hl : Layout table used) (hi : i ≤ table.length) (key : κ) (length : ℕ) :
    Layout (table.insertIdx i ⟨key, used, length⟩) (used + length) := by
  have hperm := perm_insertIdx (⟨key, used, length⟩ : Extent κ) table hi
  constructor
  · intro e he
    rcases (mem_insertIdx hi).mp he with rfl | he
    · exact le_rfl
    · exact (hl.within e he).trans (Nat.le_add_right _ _)
  · refine (hperm.pairwise_iff fun h => h.symm).mpr (pairwise_cons.mpr ⟨?_, hl.apart⟩)
    exact fun e he => .inr (hl.within e he)
  · rw [(hperm.map Extent.length).sum_eq, map_cons, sum_cons, hl.total, Nat.add_comm]

theorem Layout.eraseIdx (hl : Layout table used) {f : ℕ} {e : Extent κ} (he : table[f]? = some e)
    (hlen : e.length = 0) : Layout (table.eraseIdx f) used := by
  obtain ⟨hf, rfl⟩ := List.getElem?_eq_some_iff.mp he
  have hsub := eraseIdx_sublist table f
  refine ⟨fun e he => hl.within e (hsub.subset he), hl.apart.sublist hsub, ?_⟩
  have hperm := (getElem_cons_eraseIdx_perm hf).map Extent.length
  have hsum := hperm.sum_eq
  rw [map_cons, sum_cons, hlen, Nat.zero_add, hl.total] at hsum
  exact hsum

/-! ### The map of a packed table -/

section Map

variable {P : κ → Prop} [DecidableEq κ] {table : List (Extent κ)} {hP : ∀ e ∈ table, P e.key}
  {contents : ℕ → α} {v : List α} {table' : List (Extent κ)} {hP' : ∀ e ∈ table', P e.key}
  {contents' : ℕ → α} {e : Extent κ}

/-- The finite map a packed table stands for: the content of every extent, under its key. -/
def toMap (table : List (Extent κ)) (hP : ∀ e ∈ table, P e.key) (contents : ℕ → α) :
    Finmap fun _ : { k // P k } => List α :=
  (table.pmap (fun e he => (⟨⟨e.key, he⟩, slice contents e⟩ : Σ _ : { k // P k }, List α))
    hP).toFinmap

omit [DecidableEq κ] in
theorem nodupKeys_pmap (hnd : (table.map Extent.key).Nodup) :
    (table.pmap (fun e he => (⟨⟨e.key, he⟩, slice contents e⟩ : Σ _ : { k // P k }, List α))
      hP).NodupKeys := by
  rw [List.NodupKeys, List.keys, map_pmap]
  refine List.Nodup.of_map Subtype.val ?_
  rw [map_pmap]
  simpa using hnd

/-- What the map holds at a key is what the extent of that key holds. -/
theorem lookup_toMap_eq_some (hnd : (table.map Extent.key).Nodup) {k : { k // P k }} :
    (toMap table hP contents).lookup k = some v ↔
      ∃ e ∈ table, e.key = k.1 ∧ slice contents e = v := by
  rw [toMap, dlookup_list_toFinmap, ← Option.mem_def,
    mem_dlookup_iff (nodupKeys_pmap hnd), mem_pmap]
  constructor
  · rintro ⟨e, he, h⟩
    obtain ⟨hk, hv⟩ := Sigma.mk.inj h
    exact ⟨e, he, congrArg Subtype.val hk, eq_of_heq hv⟩
  · rintro ⟨e, he, hk, rfl⟩
    exact ⟨e, he, by obtain ⟨k, hPk⟩ := k; subst hk; rfl⟩

theorem mem_toMap (hnd : (table.map Extent.key).Nodup) {k : { k // P k }} :
    k ∈ toMap table hP contents ↔ ∃ e ∈ table, e.key = k.1 := by
  rw [mem_iff]
  constructor
  · rintro ⟨v, hv⟩
    obtain ⟨e, he, hk, -⟩ := (lookup_toMap_eq_some hnd).mp hv
    exact ⟨e, he, hk⟩
  · rintro ⟨e, he, hk⟩
    exact ⟨_, (lookup_toMap_eq_some hnd).mpr ⟨e, he, hk, rfl⟩⟩

theorem dedupKeys_eq_self {β : κ → Type} {l : List (Sigma β)} (hl : l.NodupKeys) :
    l.dedupKeys = l := by
  induction l with
  | nil => rfl
  | cons x l ih =>
    obtain ⟨hx, hl⟩ := nodupKeys_cons.mp hl
    rw [dedupKeys_cons, ih hl, kinsert_def, kerase_of_notMem_keys hx]

theorem entries_toMap (hnd : (table.map Extent.key).Nodup) :
    (toMap table hP contents).entries =
      (table.pmap (fun e he => (⟨⟨e.key, he⟩, slice contents e⟩ : Σ _ : { k // P k }, List α))
        hP : List (Σ _ : { k // P k }, List α)) := by
  rw [toMap, List.toFinmap, AList.toFinmap_entries, List.toAList]
  exact congrArg _ (dedupKeys_eq_self (nodupKeys_pmap hnd))

theorem card_keys_toMap (hnd : (table.map Extent.key).Nodup) :
    (toMap table hP contents).keys.card = table.length := by
  change (toMap table hP contents).entries.keys.card = table.length
  rw [entries_toMap hnd]
  simp [Multiset.keys]

/-- The cells the map's values take are the cells of the extents. -/
theorem sum_length_toMap (hnd : (table.map Extent.key).Nodup) :
    ((toMap table hP contents).entries.map fun entry => entry.2.length).sum =
      (table.map Extent.length).sum := by
  rw [entries_toMap hnd, Multiset.map_coe, Multiset.sum_coe, map_pmap]
  simp

omit [DecidableEq κ] in
/-- Tables with the same keys have rows of the same key at the same place. -/
theorem exists_getElem?_of_keys (hkeys : table'.map Extent.key = table.map Extent.key) {i : ℕ}
    {o : Extent κ} (ho : table[i]? = some o) : ∃ o', table'[i]? = some o' ∧ o'.key = o.key := by
  have h := congrArg (·[i]?) hkeys
  simp only [getElem?_map, ho, Option.map_some, Option.map_eq_some_iff] at h
  exact h

/-- **Changing one extent changes one value of the map**: the keys stay, every other extent holds
what it held, and the extent `f` now holds `v`. -/
theorem toMap_eq_insert (hnd : (table.map Extent.key).Nodup)
    (hkeys : table'.map Extent.key = table.map Extent.key) {f : ℕ} (he : table[f]? = some e)
    (hother : ∀ i ≠ f, ∀ o o', table[i]? = some o → table'[i]? = some o' →
      slice contents' o' = slice contents o)
    (hself : ∀ e', table'[f]? = some e' → slice contents' e' = v) :
    toMap table' hP' contents' =
      (toMap table hP contents).insert ⟨e.key, hP e (mem_of_getElem? he)⟩ v := by
  have hnd' : (table'.map Extent.key).Nodup := hkeys ▸ hnd
  refine ext_lookup fun k => ?_
  by_cases hk : k = ⟨e.key, hP e (mem_of_getElem? he)⟩
  · subst hk
    obtain ⟨e', he', hkey⟩ := exists_getElem?_of_keys hkeys he
    rw [lookup_insert, lookup_toMap_eq_some hnd']
    exact ⟨e', mem_of_getElem? he', hkey, hself e' he'⟩
  rw [lookup_insert_of_ne _ hk]
  -- a row of the key `k` is not the row `f`, so it holds the same in both tables
  have hrow : ∀ i o, table[i]? = some o → o.key = k.1 → i ≠ f := by
    rintro i o ho hok rfl
    rw [he] at ho
    cases ho
    exact hk (Subtype.ext hok.symm)
  refine Option.ext fun v' => ?_
  rw [lookup_toMap_eq_some hnd', lookup_toMap_eq_some hnd]
  constructor
  · rintro ⟨o', ho', hok, rfl⟩
    obtain ⟨i, hi⟩ := getElem?_of_mem ho'
    obtain ⟨o, ho, hkey⟩ := exists_getElem?_of_keys hkeys.symm hi
    have hif := hrow i o ho (hkey.trans hok)
    exact ⟨o, mem_of_getElem? ho, hkey.trans hok, (hother i hif o o' ho hi).symm⟩
  · rintro ⟨o, ho, hok, rfl⟩
    obtain ⟨i, hi⟩ := getElem?_of_mem ho
    obtain ⟨o', ho', hkey⟩ := exists_getElem?_of_keys hkeys hi
    exact ⟨o', mem_of_getElem? ho', hkey.trans hok,
      hother i (hrow i o hi hok) o o' hi ho'⟩

/-- Resizing an extent gives one key of the map what the resized extent holds. -/
theorem toMap_resizeAt (hnd : (table.map Extent.key).Nodup) {used f size : ℕ}
    (hl : Layout table used) (he : table[f]? = some e) (hr : Reflow contents contents' e size used)
    (hv : slice contents' { e with length := size } = v)
    {hP' : ∀ e ∈ resizeAt table f size, P e.key} :
    toMap (resizeAt table f size) hP' contents' =
      (toMap table hP contents).insert ⟨e.key, hP e (mem_of_getElem? he)⟩ v := by
  refine toMap_eq_insert hnd map_key_resizeAt he ?_ ?_
  · intro i hi o o' ho ho'
    rw [getElem?_resizeAt_of_ne he hi, ho, Option.map_some] at ho'
    cases ho'
    exact slice_rebase hr (hl.apart_of_ne ho he hi) (hl.stop_le ho)
  · intro e' he'
    rw [getElem?_resizeAt_self he] at he'
    rw [← Option.some.inj he', hv]

omit [DecidableEq κ] in
theorem nodup_keys_insertIdx (hnd : (table.map Extent.key).Nodup) {i : ℕ} (hi : i ≤ table.length)
    {x : Extent κ} (hx : ∀ e ∈ table, e.key ≠ x.key) :
    ((table.insertIdx i x).map Extent.key).Nodup := by
  rw [((perm_insertIdx x table hi).map Extent.key).nodup_iff, map_cons,
    nodup_cons]
  refine ⟨fun hmem => ?_, hnd⟩
  obtain ⟨e, he, hkey⟩ := mem_map.mp hmem
  exact hx e he hkey

theorem toMap_insertIdx (hnd : (table.map Extent.key).Nodup) {i : ℕ} (hi : i ≤ table.length)
    {x : Extent κ} (hx : ∀ e ∈ table, e.key ≠ x.key) (hPx : P x.key)
    (hold : ∀ e ∈ table, slice contents' e = slice contents e)
    (hv : slice contents' x = v) {hP' : ∀ e ∈ table.insertIdx i x, P e.key} :
    toMap (table.insertIdx i x) hP' contents' =
      (toMap table hP contents).insert ⟨x.key, hPx⟩ v := by
  have hnd' := nodup_keys_insertIdx hnd hi hx
  refine ext_lookup fun k => ?_
  by_cases hk : k = ⟨x.key, hPx⟩
  · subst hk
    rw [lookup_insert, lookup_toMap_eq_some hnd']
    exact ⟨x, (mem_insertIdx hi).mpr (.inl rfl), rfl, hv⟩
  rw [lookup_insert_of_ne _ hk]
  refine Option.ext fun v => ?_
  rw [lookup_toMap_eq_some hnd', lookup_toMap_eq_some hnd]
  constructor
  · rintro ⟨e, he, hkey, rfl⟩
    rcases (mem_insertIdx hi).mp he with rfl | he
    · exact absurd (Subtype.ext hkey.symm) hk
    · exact ⟨e, he, hkey, (hold e he).symm⟩
  · rintro ⟨e, he, hkey, rfl⟩
    exact ⟨e, (mem_insertIdx hi).mpr (.inr he), hkey, hold e he⟩

theorem toMap_eraseIdx (hnd : (table.map Extent.key).Nodup) {f : ℕ}
    (he : table[f]? = some e) {hP' : ∀ e ∈ table.eraseIdx f, P e.key} :
    toMap (table.eraseIdx f) hP' contents =
      (toMap table hP contents).erase ⟨e.key, hP e (mem_of_getElem? he)⟩ := by
  have hnd' : ((table.eraseIdx f).map Extent.key).Nodup :=
    hnd.sublist ((eraseIdx_sublist table f).map _)
  have hkeys : ∀ i o, table[i]? = some o → o.key = e.key → i = f := by
    intro i o ho hkey
    have hi : (table.map Extent.key)[i]? = some e.key := by simp [ho, hkey]
    have hf : (table.map Extent.key)[f]? = some e.key := by simp [he]
    obtain ⟨hi', hi⟩ := List.getElem?_eq_some_iff.mp hi
    obtain ⟨hf', hf⟩ := List.getElem?_eq_some_iff.mp hf
    exact (hnd.getElem_inj_iff).mp (hi.trans hf.symm)
  refine ext_lookup fun k => Option.ext fun v => ?_
  by_cases hk : k = ⟨e.key, hP e (mem_of_getElem? he)⟩
  · subst hk
    rw [lookup_erase, lookup_toMap_eq_some hnd']
    simp only [mem_eraseIdx_iff_getElem?, reduceCtorEq, iff_false]
    rintro ⟨o, ⟨i, hif, ho⟩, hkey, -⟩
    exact hif (hkeys i o ho hkey)
  rw [lookup_erase_ne hk, lookup_toMap_eq_some hnd', lookup_toMap_eq_some hnd]
  refine exists_congr fun o => and_congr_left fun ho => ?_
  rw [mem_eraseIdx_iff_getElem?]
  constructor
  · rintro ⟨i, -, ho⟩
    exact mem_of_getElem? ho
  · intro hmem
    obtain ⟨i, hi⟩ := getElem?_of_mem hmem
    refine ⟨i, ?_, hi⟩
    rintro rfl
    rw [he] at hi
    cases hi
    exact hk (Subtype.ext ho.1.symm)

end Map

end Carcer.Packed
