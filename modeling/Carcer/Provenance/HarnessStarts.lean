import Carcer.Provenance.HarnessFile

/-!
# Start records

The records of generation starts: one file for each number, written once. A second start of the same
number is accepted for the same identity, and refused for another one.

## Main definitions

* `startRecord`: the text of a record
* `KeepsStarts`: the directory of the records

## Main results

* `recordGenerationStart_eq_ok`: what recording a start leaves
* `exists_recordGenerationStart`: when a start can be recorded
-/

namespace Carcer.Provenance

open Carcer.Wire Carcer.Json Carcer.Disk List

/-- The text of a start record. -/
def startRecord (generation : UInt64) (identity : HarnessIdentity) : Bytes :=
  encodeHarnessJSON (generationRecord generation identity)

variable {identity : HarnessIdentity} {generation : UInt64} {generations : Directory}
  {store store' : HarnessStore} {suffix : Bytes}

/-! ### The text -/

theorem length_print_le_startRecord (generation : UInt64) (identity : HarnessIdentity) {d : ℕ}
    (hd : d ≤ 1) :
    (print (escape false) indented d identity.asJSON).length + 1 ≤
      (startRecord generation identity).length := by
  obtain ⟨members, hrecord, hmem⟩ : ∃ members, generationRecord generation identity =
      .object members ∧ (ascii "harness_identity", identity.asJSON) ∈ members :=
    ⟨_, rfl, by simp⟩
  have hmember := length_print_of_mem (escape false) indented hmem 0
  have hdeeper : (print (escape false) indented d identity.asJSON).length ≤
      (print (escape false) indented 1 identity.asJSON).length := by
    rcases Nat.le_one_iff_eq_zero_or_eq_one.mp hd with rfl | rfl
    · refine length_print_succ (escape false) (fun d => ?_) 0 identity.asJSON
      simp only [indented, length_cons, length_replicate]
      omega
    · exact le_rfl
  rw [startRecord, encodeHarnessJSON, hrecord, length_append]
  exact Nat.add_le_add (hdeeper.trans hmember) le_rfl

/-! ### The directory -/

/-- **The directory of the start records**: every file is the record of its number. -/
structure KeepsStarts (generations : Directory) : Prop where
  ordered : Named.Ordered generations
  files : ∀ pair ∈ generations, ∃ generation identity, HarnessIdentity.Valid identity ∧
    pair = (generationName generation, .file (startRecord generation identity))

theorem keepsStarts_nil : KeepsStarts [] := ⟨List.Pairwise.nil, by simp⟩

theorem generationName_injective : Function.Injective generationName := fun _ _ h =>
  UInt64.toNat_inj.mp (numbered_injective _ _ _ h)

theorem head_generationName (generation : UInt64) :
    (generationName generation).head? = some 0x67 := by
  have hhead : (ascii "generation-").head? = some 0x67 := by decide +kernel
  rw [generationName, numbered, append_assoc, head?_append, hhead]
  rfl

theorem harnessTemporary_ne_generationName (suffix : Bytes) (generation : UInt64) :
    harnessTemporary suffix ≠ generationName generation := by
  intro h
  have hhead : (ascii ".harness-identity-").head? = some 0x2e := by decide +kernel
  have heads := congrArg List.head? h
  rw [head_generationName, harnessTemporary, head?_append, hhead] at heads
  exact absurd (Option.some.inj heads) (by decide)

theorem KeepsStarts.entry_temporary (h : KeepsStarts generations) (suffix : Bytes) :
    Named.entry generations (harnessTemporary suffix) = none := by
  rw [Named.entry_eq_none]
  intro hmem
  obtain ⟨pair, hpair, hname⟩ := mem_map.mp hmem
  obtain ⟨generation, identity, -, rfl⟩ := h.files pair hpair
  exact harnessTemporary_ne_generationName suffix generation hname.symm

/-- **What recording a start leaves**: the record of its number is the one of the identity, and was
so before where there was one. -/
theorem recordGenerationStart_eq_ok (h : KeepsStarts store.generations)
    (hrecord : recordGenerationStart store suffix generation identity = .ok store') :
    identity.Valid ∧
      (Named.entry store.generations (generationName generation) = none ∨
        Named.entry store.generations (generationName generation) =
          some (.file (startRecord generation identity)) ∧
        (startRecord generation identity).length ≤ harnessIdentityLimit) ∧
      KeepsStarts store'.generations ∧
      store' = { store with generations := store'.generations } ∧
      Named.entry store'.generations (generationName generation) =
        some (.file (startRecord generation identity)) ∧
      ∀ other, other ≠ generation → Named.entry store'.generations (generationName other) =
        Named.entry store.generations (generationName other) := by
  obtain ⟨_, hvalid, hrecord⟩ := bind_eq_ok.mp hrecord
  refine ⟨hvalid, ?_⟩
  dsimp only at hrecord
  split at hrecord
  · rename_i existing hread
    obtain ⟨hentry, hlimit⟩ := readHarnessRegular_eq_ok.mp hread
    split at hrecord
    · rename_i hequal
      subst hequal
      cases hrecord
      exact ⟨.inr ⟨hentry, hlimit⟩, h, rfl, hentry, fun _ _ => rfl⟩
    · cases hrecord
  · rename_i hread
    obtain ⟨calls, hcalls, hrecord⟩ := bind_eq_ok.mp hrecord
    cases hrecord
    unfold writeHarnessBytesOnce at hcalls
    split at hcalls
    · cases hcalls
    rename_i hnone
    cases hcalls
    have hnone : Named.entry store.generations (generationName generation) = none := by
      simpa using hnone
    have hput : (linked (harnessTemporary suffix) (generationName generation)
        (startRecord generation identity)).foldl Call.enter store.generations =
          Named.put (generationName generation) (.file (startRecord generation identity))
            store.generations :=
      foldl_linked h.ordered (h.entry_temporary suffix)
        (harnessTemporary_ne_generationName suffix generation)
    have hgoal : ∀ directory : Directory, directory = Named.put (generationName generation)
        (.file (startRecord generation identity)) store.generations →
        KeepsStarts directory ∧
          Named.entry directory (generationName generation) =
            some (.file (startRecord generation identity)) ∧
          ∀ other, other ≠ generation → Named.entry directory (generationName other) =
            Named.entry store.generations (generationName other) := by
      rintro _ rfl
      refine ⟨⟨Named.ordered_put h.ordered _, fun pair hpair => ?_⟩, Named.entry_put _ _ _,
        fun other hother => Named.entry_put_of_ne
          (fun heq => hother (generationName_injective heq)) _ _⟩
      rcases (Named.mem_put (Named.entry_eq_none.mp hnone)).mp hpair with rfl | hold
      · exact ⟨generation, identity, hvalid, rfl⟩
      · exact h.files pair hold
    obtain ⟨hkeeps, hentry, hothers⟩ := hgoal _ hput
    exact ⟨.inl hnone, hkeeps, rfl, hentry, hothers⟩
  · cases hrecord

/-- **When a start can be recorded**: there is no record of the number yet, or it is the same one,
in a file that can be read. -/
theorem exists_recordGenerationStart (hvalid : identity.Valid) (suffix : Bytes)
    (h : Named.entry store.generations (generationName generation) = none ∨
      Named.entry store.generations (generationName generation) =
        some (.file (startRecord generation identity)) ∧
      (startRecord generation identity).length ≤ harnessIdentityLimit) :
    ∃ store', recordGenerationStart store suffix generation identity = .ok store' := by
  rcases h with hnone | ⟨hentry, hlimit⟩
  · have hread : readHarnessRegular (Named.entry store.generations (generationName generation)) =
        .error (.read .notExist) := by rw [hnone]; rfl
    have hwrite : writeHarnessBytesOnce store.generations suffix (generationName generation)
        (startRecord generation identity) = .ok (linked (harnessTemporary suffix)
          (generationName generation) (startRecord generation identity)) := by
      rw [writeHarnessBytesOnce, if_neg (by rw [hnone]; decide)]
    let calls := linked (harnessTemporary suffix) (generationName generation)
      (startRecord generation identity)
    refine ⟨{ store with generations := calls.foldl Call.enter store.generations },
      bind_eq_ok.mpr ⟨(), hvalid, ?_⟩⟩
    dsimp only
    rw [hread]
    exact bind_eq_ok.mpr ⟨_, hwrite, rfl⟩
  · have hread : readHarnessRegular (Named.entry store.generations (generationName generation)) =
        .ok (startRecord generation identity) := readHarnessRegular_eq_ok.mpr ⟨hentry, hlimit⟩
    refine ⟨store, bind_eq_ok.mpr ⟨(), hvalid, ?_⟩⟩
    dsimp only
    rw [hread]
    exact if_pos rfl

end Carcer.Provenance
