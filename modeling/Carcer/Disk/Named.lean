import Carcer.Wire.Bytes

/-!
# Values by name

Finite maps from names to values, in the order of the names: the entries of a directory, the refs of
a repository.

## Main definitions

* `Named`: values by name
* `Named.entry`, `Named.put`, `Named.erase`: looking up, setting and erasing the value of a name
* `Named.Ordered`: the names are in order

## Main results

* `Named.entry_put`, `Named.entry_put_of_ne`: what setting a value changes
* `Named.mem_put`: the values with a new one
* `Named.ordered_put`: the order is kept
-/

namespace Carcer.Disk

open Carcer.Wire List

/-- Values by name, in the order of the names. -/
abbrev Named (α : Type) : Type := List (Bytes × α)

namespace Named

variable {α : Type} {named : Named α} {name : Bytes} {pair : Bytes × α}

def entry (named : Named α) (name : Bytes) : Option α := named.lookup name

def names (named : Named α) : List Bytes := named.map Prod.fst

/-- An entry in the place of its name, over what the name stood for. -/
def put (name : Bytes) (new : α) : Named α → Named α
  | [] => [(name, new)]
  | (other, old) :: rest =>
    if name = other then (name, new) :: rest
    else if name < other then (name, new) :: (other, old) :: rest
    else (other, old) :: put name new rest

theorem mem_put {new : α} (h : name ∉ named.names) :
    pair ∈ put name new named ↔ pair = (name, new) ∨ pair ∈ named := by
  induction named with
  | nil => simp [put]
  | cons head rest ih =>
    obtain ⟨other, old⟩ := head
    rw [names, map_cons, mem_cons, not_or] at h
    rw [put, if_neg h.1]
    split_ifs
    · simp
    · simp only [mem_cons, ih h.2]
      tauto

@[simp] theorem entry_put (name : Bytes) (new : α) (named : Named α) :
    (put name new named).entry name = some new := by
  induction named with
  | nil => simp [put, entry]
  | cons head rest ih =>
    obtain ⟨other, old⟩ := head
    rw [put]
    split_ifs with hname
    iterate 2 simp [entry]
    · have hne : (name == other) = false := by simpa using hname
      simpa [entry, lookup_cons, hne] using ih

theorem entry_put_of_ne {name other : Bytes} (hne : other ≠ name) (new : α)
    (named : Named α) : (put name new named).entry other = named.entry other := by
  have hne' : (other == name) = false := by simpa using hne
  induction named with
  | nil => simp [put, entry, hne]
  | cons head rest ih =>
    obtain ⟨next, old⟩ := head
    rw [put]
    split_ifs with hname
    · simp [entry, lookup_cons, ← hname, hne']
    · simp [entry, lookup_cons, hne']
    cases hnext : other == next with
    | true => simp [entry, lookup_cons, hnext]
    | false => simpa [entry, lookup_cons, hnext] using ih

@[simp] theorem put_put (name : Bytes) (new old : α) (named : Named α) :
    put name new (put name old named) = put name new named := by
  induction named with
  | nil => simp [put]
  | cons head rest ih =>
    obtain ⟨other, stored⟩ := head
    rw [put]
    split_ifs with hname hlt
    · simp [put, hname]
    · simp [put, hname, hlt]
    · simp [put, hname, hlt, ih]

theorem mem_of_entry {entry : α} (h : named.entry name = some entry) : (name, entry) ∈ named := by
  induction named with
  | nil => cases h
  | cons head rest ih =>
    obtain ⟨other, stored⟩ := head
    rw [Named.entry, lookup_cons] at h
    split at h
    · rename_i hname
      obtain rfl := beq_iff_eq.mp hname
      cases h
      exact mem_cons_self
    · exact mem_cons_of_mem _ (ih h)

theorem entry_eq_none : named.entry name = none ↔ name ∉ named.names := by
  induction named with
  | nil => simp [entry, names]
  | cons head rest ih =>
    obtain ⟨other, old⟩ := head
    cases hname : name == other with
    | true => simp_all [entry, names]
    | false =>
      have hne : name ≠ other := by simpa using hname
      simpa [entry, names, lookup_cons, hname, hne] using ih

/-! ### The order of the names -/

/-- The names are in order, and none stands twice. -/
def Ordered (named : Named α) : Prop := named.names.Pairwise (· < ·)

/-- The entries without a name. -/
def erase (name : Bytes) (named : Named α) : Named α := named.filter fun pair => pair.1 ≠ name

theorem mem_of_mem_put {new : α}
    (h : pair ∈ put name new named) : pair = (name, new) ∨ pair ∈ named := by
  induction named with
  | nil => exact .inl (mem_singleton.mp h)
  | cons head rest ih =>
    obtain ⟨other, old⟩ := head
    rw [put] at h
    split_ifs at h
    · exact (mem_cons.mp h).imp_right (mem_cons_of_mem _)
    · exact mem_cons.mp h
    rcases mem_cons.mp h with rfl | hrest
    · exact .inr mem_cons_self
    · exact (ih hrest).imp_right (mem_cons_of_mem _)

theorem put_of_lt (h : ∀ other ∈ names named, other < name)
    (new : α) : put name new named = named ++ [(name, new)] := by
  induction named with
  | nil => rfl
  | cons head rest ih =>
    obtain ⟨other, old⟩ := head
    rw [names, map_cons] at h
    obtain ⟨hother, hrest⟩ := forall_mem_cons.mp h
    have hne : name ≠ other := fun heq => List.lt_irrefl _ (heq ▸ hother)
    rw [put, if_neg hne, if_neg (List.lt_asymm hother), ih hrest]
    rfl

theorem ordered_cons :
    Ordered (pair :: named) ↔ (∀ other ∈ named, pair.1 < other.1) ∧ Ordered named := by
  simp [Ordered, names]

theorem ordered_put {name : Bytes} {named : Named α} (h : Ordered named) (new : α) :
    Ordered (put name new named) := by
  induction named with
  | nil => simp [put, Ordered, names]
  | cons head rest ih =>
    obtain ⟨other, old⟩ := head
    obtain ⟨hother, hrest⟩ := ordered_cons.mp h
    rw [put]
    split_ifs with hname hlt
    · exact ordered_cons.mpr ⟨hname ▸ hother, hrest⟩
    · refine ordered_cons.mpr ⟨fun pair hpair => ?_, h⟩
      rcases mem_cons.mp hpair with rfl | hpair
      · exact hlt
      · exact List.lt_trans hlt (hother pair hpair)
    refine ordered_cons.mpr ⟨fun pair hpair => ?_, ih hrest⟩
    rcases mem_of_mem_put hpair with rfl | hpair
    · exact Std.lt_of_le_of_ne hlt (Ne.symm hname)
    · exact hother pair hpair

theorem Ordered.nodup (h : Ordered named) : named.names.Nodup := by
  refine List.Pairwise.imp ?_ h
  rintro a _ hlt rfl
  exact List.lt_irrefl a hlt

theorem entry_of_mem (h : Ordered named) (hpair : pair ∈ named) :
    named.entry pair.1 = some pair.2 := by
  induction named with
  | nil => cases hpair
  | cons head rest ih =>
    obtain ⟨hhead, hrest⟩ := ordered_cons.mp h
    rw [entry, lookup_cons]
    rcases mem_cons.mp hpair with rfl | hpair
    · simp
    have hne : (pair.1 == head.1) = false := by
      have hlt := hhead pair hpair
      simp only [beq_eq_false_iff_ne, ne_eq]
      exact fun heq => List.lt_irrefl _ (heq ▸ hlt)
    rw [hne]
    exact ih hrest hpair

theorem mem_iff_entry (h : Ordered named) : pair ∈ named ↔ named.entry pair.1 = some pair.2 :=
  ⟨entry_of_mem h, mem_of_entry⟩

/-- **Values in order are known by their names.** -/
theorem Ordered.ext {first second : Named α} (h : Ordered first) (h' : Ordered second)
    (heq : ∀ name, first.entry name = second.entry name) : first = second := by
  have hperm : first.Perm second := by
    refine (perm_ext_iff_of_nodup (.of_map Prod.fst h.nodup)
      (.of_map Prod.fst h'.nodup)).mpr fun pair => ?_
    rw [mem_iff_entry h, mem_iff_entry h', heq]
  refine hperm.eq_of_pairwise ?_ (pairwise_map.mp h) (pairwise_map.mp h')
  intro a b _ _ hab hba
  exact absurd (List.lt_trans hab hba) (List.lt_irrefl _)

theorem ordered_erase (h : Ordered named) (name : Bytes) : Ordered (erase name named) :=
  List.Pairwise.sublist (List.Sublist.map _ filter_sublist) h

theorem entry_erase (name : Bytes) : (erase name named).entry name = none := by
  refine entry_eq_none.mpr fun hmem => ?_
  obtain ⟨pair, hpair, rfl⟩ := mem_map.mp hmem
  simpa using (mem_filter.mp hpair).2

theorem entry_erase_of_ne {name other : Bytes} (h : other ≠ name) (named : Named α) :
    (erase name named).entry other = named.entry other := by
  induction named with
  | nil => rfl
  | cons head rest ih =>
    obtain ⟨key, stored⟩ := head
    by_cases hkey : key = name
    · have hne : (other == key) = false := by simpa [hkey] using h
      rw [erase, filter_cons_of_neg (by simpa using hkey)]
      refine ih.trans ?_
      simp [entry, lookup_cons, hne]
    rw [erase, filter_cons_of_pos (by simpa using hkey), entry, entry, lookup_cons,
      lookup_cons]
    split
    · rfl
    · exact ih

theorem erase_of_entry (h : named.entry name = none) : erase name named = named := by
  refine filter_eq_self.mpr fun pair hpair => ?_
  have hne : pair.1 ≠ name := fun heq => entry_eq_none.mp h (heq ▸ mem_map_of_mem hpair)
  simpa using hne

/-- What is put under a new name and erased again leaves no trace, whatever was put beside it. -/
theorem erase_put_put {name other : Bytes} (h : Ordered named)
    (hname : named.entry name = none) (hne : name ≠ other) (new new' : α) :
    erase name (put other new' (put name new named)) = put other new' named := by
  refine (ordered_erase (ordered_put (ordered_put h _) _) _).ext (ordered_put h _) fun key => ?_
  by_cases hkey : key = name
  · subst hkey
    rw [entry_erase, entry_put_of_ne hne, hname]
  rw [entry_erase_of_ne hkey]
  by_cases hother : key = other
  · subst hother
    rw [entry_put, entry_put]
  · rw [entry_put_of_ne hother, entry_put_of_ne hother, entry_put_of_ne hkey]

theorem erase_put (h : Ordered named)
    (hname : named.entry name = none) (new : α) : erase name (put name new named) = named := by
  refine (ordered_erase (ordered_put h _) _).ext h fun key => ?_
  by_cases hkey : key = name
  · subst hkey
    rw [entry_erase, hname]
  · rw [entry_erase_of_ne hkey, entry_put_of_ne hkey]

end Named

end Carcer.Disk
