import Carcer.Json.Decode

/-!
# Types as JSON

How `encoding/json` writes the values of a type and reads them again. A structure is a list of
members, each a part of the structure with a codec of its own; a member with `omitempty` is left out
where its value is the zero of its type.

## Main definitions

* `Codec`: the zero of a type, how its values are written and how they are stored
* `Codec.uint64`, `Codec.int`, `Codec.string`, `Codec.bool`, `Codec.omitEmpty`, `Codec.pointer`,
  `Codec.slice`, `Codec.list`, `Codec.struct`: the codecs of the types
* `Codec.Restores`: a value is restored from what it is written as
* `Codec.Prints`: the strings of what a value is written as have a property, and it nests no deeper
  than said

## Main results

* `restores_struct`: a structure is restored when its members are
* `prints_struct`: a structure prints when its members do
-/

namespace Carcer.Json

open Carcer.Wire List

variable {α σ φ : Type}

/-- How the values of a type are written and stored. Nothing is written where a member is left
out. -/
structure Codec (α : Type) where
  zero : α
  write : α → Option Value
  into : Value → α → Option α

namespace Codec

/-! ### The types -/

def uint64 : Codec UInt64 := ⟨0, fun n => some (.number (decimal n.toNat)), intoUint64⟩

/-- An integer as a literal. -/
def integerLiteral : ℤ → Bytes
  | .ofNat n => decimal n
  | .negSucc n => 0x2d :: decimal (n + 1)

def int : Codec ℤ := ⟨0, fun n => some (.number (integerLiteral n)), intoInt⟩

def string : Codec Bytes := ⟨[], fun text => some (.string text), intoString⟩

def bool : Codec Bool := ⟨false, fun b => some (.bool b), intoBool⟩

/-- A member with `omitempty`. -/
def omitEmpty [DecidableEq α] (c : Codec α) : Codec α :=
  { c with write := fun x => if x = c.zero then none else c.write x }

def pointer (c : Codec α) : Codec (Option α) where
  zero := none
  write
    | none => some .null
    | some x => c.write x
  into := intoPointer c.into c.zero

/-- A slice, which may be nil. -/
def slice (c : Codec α) : Codec (Option (List α)) where
  zero := none
  write
    | none => some .null
    | some xs => some (.array (xs.filterMap c.write))
  into := intoSlice c.into c.zero

/-- A slice of which no reader asks whether it is nil; the empty one is written as the nil one. -/
def list (c : Codec α) : Codec (List α) where
  zero := []
  write xs := c.slice.write (if xs.isEmpty then none else some xs)
  into v xs := (c.slice.into v (some xs)).map fun ys => ys.getD []

end Codec

/-- A member of a structure. -/
structure Member (σ : Type) where
  name : Bytes
  write : σ → Option Value
  into : Value → σ → Option σ

/-- The member of a part of the structure. -/
def Member.of (name : Bytes) (c : Codec φ) (get : σ → φ) (set : φ → σ → σ) : Member σ :=
  ⟨name, fun s => c.write (get s), fun v s => (c.into v (get s)).map fun x => set x s⟩

/-- The field that a member is stored in. -/
def Member.field (part : Member σ) : Json.Field σ := ⟨part.name, part.into⟩

/-- What a member stores in `s` when it is written from `source`. -/
def Member.store (source s : σ) (part : Member σ) : Option σ :=
  match part.write source with
  | some v => part.into v s
  | none => some s

/-- The members of a structure that are written. -/
def structMembers (parts : List (Member σ)) (s : σ) : List (Bytes × Value) :=
  parts.filterMap fun part => (part.write s).map fun v => (part.name, v)

/-- A structure; `strict` refuses a member without a field. -/
def Codec.struct (strict : Bool) (parts : List (Member σ)) (zero : σ) : Codec σ where
  zero := zero
  write s := some (.object (structMembers parts s))
  into := intoStruct strict (parts.map Member.field)

/-! ### Restoring -/

namespace Codec

/-- **A value is restored from what it is written as.** -/
def Restores (c : Codec α) (x : α) : Prop :=
  match c.write x with
  | some v => c.into v c.zero = some x
  | none => x = c.zero

theorem restores_uint64 (n : UInt64) : uint64.Restores n := intoUint64_number n 0

theorem restores_int {n : ℕ} (h : n < 2 ^ 63) : int.Restores (n : ℤ) := parseInt_decimal h

theorem restores_string (text : Bytes) : string.Restores text := rfl

theorem restores_bool (b : Bool) : bool.Restores b := rfl

variable {c : Codec α} {xs : List α} {parts : List (Member σ)}

theorem restores_omitEmpty [DecidableEq α] {x : α} (h : c.Restores x) : c.omitEmpty.Restores x := by
  unfold Restores omitEmpty
  by_cases hx : x = c.zero
  · simp [hx]
  · simpa [hx, Restores] using h

theorem restores_nil (c : Codec α) : c.pointer.Restores none := rfl

/-- What a pointer points to must be written, and not as `null`. -/
theorem restores_pointer {x : α} {v} (hwrite : c.write x = some v)
    (hv : v ≠ .null) (h : c.Restores x) : c.pointer.Restores (some x) := by
  rw [Restores, hwrite] at h
  simp only [Restores, pointer, hwrite]
  unfold intoPointer
  split
  · exact absurd rfl hv
  · rw [Option.getD_none, h, Option.map_some]

theorem intoItems_written {old : List α} (hold : old = [])
    (h : ∀ x ∈ xs, c.Restores x) (hwrite : ∀ x ∈ xs, (c.write x).isSome) :
    intoItems c.into c.zero (xs.filterMap c.write) old = some xs := by
  subst hold
  induction xs with
  | nil => rfl
  | cons x xs ih =>
    obtain ⟨hx, hxs⟩ := forall_mem_cons.mp h
    obtain ⟨hwrite, hrest⟩ := forall_mem_cons.mp hwrite
    obtain ⟨v, hv⟩ := Option.isSome_iff_exists.mp hwrite
    rw [Restores, hv] at hx
    have hx : c.into v c.zero = some x := hx
    rw [filterMap_cons_some hv, intoItems, headD_nil, hx]
    simp [ih hxs hrest]

theorem restores_slice (h : ∀ x ∈ xs, c.Restores x)
    (hwrite : ∀ x ∈ xs, (c.write x).isSome) : c.slice.Restores (some xs) := by
  simp only [Restores, slice, intoSlice, Option.getD_none]
  rw [intoItems_written rfl h hwrite, Option.map_some]

theorem restores_list (h : ∀ x ∈ xs, c.Restores x)
    (hwrite : ∀ x ∈ xs, (c.write x).isSome) : c.list.Restores xs := by
  cases xs with
  | nil => rfl
  | cons x xs =>
    simp only [Restores, list, slice, isEmpty_cons, Bool.false_eq_true, if_false, intoSlice,
      Option.getD_some]
    rw [intoItems_written rfl h hwrite]
    rfl

/-- A member stores the part it is written from, where the structure still has the zero of it. -/
theorem store_of {c : Codec φ} {get : σ → φ} {set : φ → σ → σ} {name : Bytes} {source s : σ}
    (h : c.Restores (get source)) (hzero : get s = c.zero) (hset : set (get s) s = s) :
    (Member.of name c get set).store source s = some (set (get source) s) := by
  simp only [Member.store, Member.of]
  cases hwrite : c.write (get source) with
  | none =>
    rw [Restores, hwrite] at h
    have h : get source = c.zero := h
    rw [h, ← hzero, hset]
  | some v =>
    rw [Restores, hwrite] at h
    have h : c.into v c.zero = some (get source) := h
    simp [hzero, h]

theorem foldlM_of {c : Codec φ} {get : σ → φ} {set : φ → σ → σ} {name : Bytes} {source s t : σ}
    (h : c.Restores (get source)) (hzero : get s = c.zero) (hset : set (get s) s = s)
    (hrest : parts.foldlM (Member.store source) (set (get source) s) = some t) :
    (Member.of name c get set :: parts).foldlM (Member.store source) s = some t := by
  rw [foldlM_cons, store_of h hzero hset]
  exact hrest

theorem intoStruct_structMembers (strict : Bool)
    (hnodup : (parts.map Member.name).Nodup) (source s : σ) :
    intoStruct strict (parts.map Member.field) (.object (structMembers parts source)) s =
      parts.foldlM (Member.store source) s := by
  have hmembers : structMembers parts source =
      (parts.filterMap fun part => (part.write source).map fun v => (part.field, v)).map
        fun stored => (stored.1.name, stored.2) := by
    rw [structMembers, map_filterMap]
    congr 1
    funext part
    cases part.write source <;> rfl
  have hfields : ((parts.map Member.field).map Json.Field.name).Nodup := by
    rw [map_map]
    exact hnodup
  rw [hmembers, intoStruct_object strict hfields]
  · clear hmembers hfields hnodup
    induction parts generalizing s with
    | nil => rfl
    | cons part parts ih =>
      rw [foldlM_cons, Member.store]
      cases hwrite : part.write source with
      | none =>
        rw [filterMap_cons_none (by rw [hwrite, Option.map_none]), ih]
        rfl
      | some v =>
        rw [filterMap_cons_some (by rw [hwrite, Option.map_some]), storeAll]
        simp only [Member.field, Option.bind_eq_bind]
        exact Option.bind_congr fun s' _ => ih s'
  · intro stored hstored
    obtain ⟨part, hpart, hsome⟩ := mem_filterMap.mp hstored
    obtain ⟨v, -, rfl⟩ := Option.map_eq_some_iff.mp hsome
    exact mem_map_of_mem hpart

/-- **A structure is restored when its members, one after the other, store it.** -/
theorem restores_struct {strict : Bool} {zero s : σ} (hnodup : (parts.map Member.name).Nodup)
    (h : parts.foldlM (Member.store s) zero = some s) : (struct strict parts zero).Restores s := by
  rw [Restores, struct]
  exact (intoStruct_structMembers strict hnodup s zero).trans h

end Codec

/-! ### Printing -/

theorem membersPrintable_iff {P : Bytes → Prop} {members : List (Bytes × Value)} :
    MembersPrintable P members ↔ ∀ member ∈ members, P member.1 ∧ member.2.Printable P := by
  induction members with
  | nil => simp [MembersPrintable]
  | cons member members ih =>
    rw [forall_mem_cons, ← ih, MembersPrintable, and_assoc]

theorem itemsPrintable_iff {P : Bytes → Prop} {items : List Value} :
    ItemsPrintable P items ↔ ∀ item ∈ items, item.Printable P := by
  induction items with
  | nil => simp [ItemsPrintable]
  | cons item items ih => rw [forall_mem_cons, ← ih, ItemsPrintable]

theorem membersDepth_le {n : ℕ} {members : List (Bytes × Value)} :
    membersDepth members ≤ n ↔ ∀ member ∈ members, member.2.depth ≤ n := by
  induction members with
  | nil => simp [membersDepth]
  | cons member members ih => rw [forall_mem_cons, ← ih, membersDepth, max_le_iff]

theorem itemsDepth_le {n : ℕ} {items : List Value} :
    itemsDepth items ≤ n ↔ ∀ item ∈ items, item.depth ≤ n := by
  induction items with
  | nil => simp [itemsDepth]
  | cons item items ih => rw [forall_mem_cons, ← ih, itemsDepth, max_le_iff]

namespace Codec

/-- The strings of what a value is written as have a property, and it nests at most so deep. -/
def Prints (P : Bytes → Prop) (depth : ℕ) (c : Codec α) (x : α) : Prop :=
  ∀ v ∈ c.write x, v.Printable P ∧ v.depth ≤ depth

variable {P : Bytes → Prop} {depth : ℕ} {c : Codec α}

theorem prints_uint64 (n : UInt64) : uint64.Prints P depth n := by
  intro v hv
  cases hv
  exact ⟨isNumber_decimal _, Nat.zero_le _⟩

theorem prints_int (n : ℕ) : int.Prints P depth (n : ℤ) := by
  intro v hv
  cases hv
  exact ⟨isNumber_decimal _, Nat.zero_le _⟩

theorem prints_string {text : Bytes} (h : P text) : string.Prints P depth text := by
  intro v hv
  cases hv
  exact ⟨h, Nat.zero_le _⟩

theorem prints_bool (b : Bool) : bool.Prints P depth b := by
  intro v hv
  cases hv
  exact ⟨trivial, Nat.zero_le _⟩

theorem prints_omitEmpty [DecidableEq α] {x : α} (h : x ≠ c.zero → c.Prints P depth x) :
    c.omitEmpty.Prints P depth x := by
  intro v hv
  simp only [omitEmpty] at hv
  split at hv
  · cases hv
  · rename_i hx
    exact h hx v hv

theorem prints_pointer {pointer : Option α}
    (h : ∀ x ∈ pointer, c.Prints P depth x) : c.pointer.Prints P depth pointer := by
  intro v hv
  cases pointer with
  | none =>
    cases hv
    exact ⟨trivial, Nat.zero_le _⟩
  | some x => exact h x rfl v hv

theorem prints_slice {xs : List α} (h : ∀ x ∈ xs, c.Prints P depth x) :
    c.slice.Prints P (depth + 1) (some xs) := by
  intro v hv
  cases hv
  refine ⟨itemsPrintable_iff.mpr fun item hitem => ?_,
    Nat.succ_le_succ (itemsDepth_le.mpr fun item hitem => ?_)⟩
  all_goals obtain ⟨x, hx, hwrite⟩ := mem_filterMap.mp hitem
  · exact (h x hx item hwrite).1
  · exact (h x hx item hwrite).2

theorem prints_list {xs : List α} (h : ∀ x ∈ xs, c.Prints P depth x) :
    c.list.Prints P (depth + 1) xs := by
  cases xs with
  | nil =>
    intro v hv
    cases hv
    exact ⟨trivial, Nat.zero_le _⟩
  | cons x xs => exact prints_slice h

/-- **A structure prints when its members do.** -/
theorem prints_struct {strict : Bool} {parts : List (Member σ)} {zero s : σ}
    (hname : ∀ part ∈ parts, P part.name)
    (h : ∀ part ∈ parts, ∀ v ∈ part.write s, v.Printable P ∧ v.depth ≤ depth) :
    (struct strict parts zero).Prints P (depth + 1) s := by
  intro v hv
  cases hv
  refine ⟨membersPrintable_iff.mpr fun member hmember => ?_,
    Nat.succ_le_succ (membersDepth_le.mpr fun member hmember => ?_)⟩
  all_goals
    obtain ⟨part, hpart, hsome⟩ := mem_filterMap.mp hmember
    obtain ⟨value, hwrite, rfl⟩ := Option.map_eq_some_iff.mp hsome
  · exact ⟨hname part hpart, (h part hpart value hwrite).1⟩
  · exact (h part hpart value hwrite).2

end Codec

end Carcer.Json
