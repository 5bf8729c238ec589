import Carcer.Disk.Tree
import Carcer.Json.Codec
import Carcer.Json.Raw

/-!
# Harness identities

The identity of the harness that runs a generation, of `internal/provenance/harness_identity.go`:
the state of the repository it was built from, its executable and what the Go toolchain embeds in
it. Two identities are the same when they are encoded as the same text.

How an identity is captured from a repository and an executable is left out: the store only sees
identities that `ValidateHarnessIdentity` has accepted.

## Main definitions

* `HarnessIdentity`, `validateHarnessIdentity`: an identity
* `encodeHarnessIdentity`, `parseHarnessIdentity`: its text

## Main results

* `parseHarnessIdentity_print`: a valid identity whose text is short enough is read back
* `equal_iff`: identities with the same text are the same
-/

namespace Carcer.Provenance

open Carcer.Wire Carcer.Json List Codec

def harnessIdentitySchemaVersion : UInt64 := 1

def harnessIdentityLimit : ℕ := 256 * 1024

structure FileIdentity where
  sha256 : Bytes
  size : UInt64
  deriving DecidableEq

structure HarnessBuildIdentity where
  goVersion : Bytes
  modulePath : Bytes
  moduleSum : Bytes
  moduleVersion : Bytes
  settingsSHA256 : Bytes
  vcs : Bytes
  vcsModified : Bool
  vcsRevision : Bytes
  vcsTime : Bytes
  deriving DecidableEq

structure HarnessIdentity where
  build : HarnessBuildIdentity
  executable : FileIdentity
  repositoryCommit : Bytes
  repositoryDirty : Bool
  dirtyTreeSHA256 : Option Bytes
  schemaVersion : UInt64
  deriving DecidableEq

/-- The reasons of `HarnessIdentityError`. -/
inductive HarnessError
  /-- "harness identity is malformed" -/
  | malformed
  /-- "dirty harness identity is incomplete" -/
  | dirtyIncomplete
  /-- "clean harness identity contains a dirty-tree identity" -/
  | cleanDirty
  /-- "harness build identity is malformed" -/
  | build
  /-- "harness executable identity is malformed" -/
  | executable
  /-- "run harness identity is unavailable" -/
  | unavailable
  /-- "run harness identity does not match the accepted harness" -/
  | mismatch
  /-- "harness identity changed while the gate transition was pending" -/
  | changed
  /-- "could not create harness transition directory" -/
  | createTransitions
  /-- "generation %d harness identity is immutable" -/
  | immutable (generation : UInt64)
  /-- "harness transition directory is unsafe" -/
  | unsafeDirectory
  /-- "harness transition history is malformed" -/
  | historyMalformed
  /-- "harness transition history is not contiguous" -/
  | notContiguous
  /-- "harness transition history has inconsistent ancestry" -/
  | ancestry
  /-- "harness transition history has inconsistent generation order" -/
  | generationOrder
  /-- "harness transition history does not descend from the run identity" -/
  | descent
  /-- "legacy harness transition unexpectedly names a previous identity" -/
  | legacy
  /-- "harness transition is malformed" -/
  | transition
  /-- "could not persist immutable harness identity" -/
  | persist
  /-- "harness identity path is unsafe", "harness identity exceeds size limit" and what opening a
  file says. -/
  | read (cause : Disk.ReadError)
  deriving DecidableEq

/-! ### Validation -/

def validHarnessDigest (value : Bytes) (git : Bool) : Bool :=
  if (git = false ∧ value.length ≠ 64) ∨ (git = true ∧ value.length ≠ 40 ∧ value.length ≠ 64) then
    false
  else
    value.all fun character =>
      ¬(character < 0x30 ∨ (character > 0x39 ∧ character < 0x61) ∨ character > 0x66)

def validHarnessBuildIdentity (build : HarnessBuildIdentity) : Bool :=
  ([build.goVersion, build.modulePath, build.moduleVersion, build.settingsSHA256].all
    fun value => value ≠ [] && utf8Valid value) &&
  ([build.moduleSum, build.vcs, build.vcsRevision, build.vcsTime].all utf8Valid) &&
  validHarnessDigest build.settingsSHA256 false

def validHarnessFileIdentity (identity : FileIdentity) : Bool :=
  validHarnessDigest identity.sha256 false

/-- The part of `ValidateHarnessIdentity` about the dirty tree. -/
def validateDirtyTree (dirty : Bool) (tree : Option Bytes) : Except HarnessError Unit :=
  if dirty then failIf (tree.all (fun digest => validHarnessDigest digest false) = false ∨
    tree = none) .dirtyIncomplete
  else failIf (tree ≠ none) .cleanDirty

def validateHarnessIdentity (identity : HarnessIdentity) : Except HarnessError Unit := do
  failIf (identity.schemaVersion ≠ harnessIdentitySchemaVersion ∨
    validHarnessDigest identity.repositoryCommit true = false ∨
    validHarnessFileIdentity identity.executable = false ∨
    validHarnessBuildIdentity identity.build = false) .malformed
  validateDirtyTree identity.repositoryDirty identity.dirtyTreeSHA256

/-- An identity that is accepted. -/
def HarnessIdentity.Valid (identity : HarnessIdentity) : Prop :=
  validateHarnessIdentity identity = .ok ()

instance (identity : HarnessIdentity) : Decidable identity.Valid :=
  inferInstanceAs (Decidable (validateHarnessIdentity identity = .ok ()))

/-! ### Texts -/

/-- The members of `FileIdentity`. -/
def fileParts : List (Member FileIdentity) :=
  [.of (ascii "sha256") .string (·.sha256) fun x i => { i with sha256 := x },
    .of (ascii "size") .uint64 (·.size) fun x i => { i with size := x }]

/-- The members of `HarnessBuildIdentity`, in the order in which a map is written. -/
def buildParts : List (Member HarnessBuildIdentity) :=
  [.of (ascii "go_version") .string (·.goVersion) fun x b => { b with goVersion := x },
    .of (ascii "module_path") .string (·.modulePath) fun x b => { b with modulePath := x },
    .of (ascii "module_sum") .string (·.moduleSum) fun x b => { b with moduleSum := x },
    .of (ascii "module_version") .string (·.moduleVersion) fun x b => { b with moduleVersion := x },
    .of (ascii "settings_sha256") .string (·.settingsSHA256)
      fun x b => { b with settingsSHA256 := x },
    .of (ascii "vcs") .string (·.vcs) fun x b => { b with vcs := x },
    .of (ascii "vcs_modified") .bool (·.vcsModified) fun x b => { b with vcsModified := x },
    .of (ascii "vcs_revision") .string (·.vcsRevision) fun x b => { b with vcsRevision := x },
    .of (ascii "vcs_time") .string (·.vcsTime) fun x b => { b with vcsTime := x }]

/-- `FileIdentity` as JSON. -/
def fileCodec : Codec FileIdentity := .struct true fileParts ⟨[], 0⟩

/-- `HarnessBuildIdentity` as JSON. -/
def buildCodec : Codec HarnessBuildIdentity :=
  .struct true buildParts ⟨[], [], [], [], [], [], false, [], []⟩

/-- The members of `HarnessIdentity`, in the order in which a map is written. -/
def identityParts : List (Member HarnessIdentity) :=
  [.of (ascii "build") buildCodec (·.build) fun x i => { i with build := x },
    .of (ascii "dirty_tree_sha256") Codec.string.pointer (·.dirtyTreeSHA256)
      fun x i => { i with dirtyTreeSHA256 := x },
    .of (ascii "executable") fileCodec (·.executable) fun x i => { i with executable := x },
    .of (ascii "repository_commit") .string (·.repositoryCommit)
      fun x i => { i with repositoryCommit := x },
    .of (ascii "repository_dirty") .bool (·.repositoryDirty)
      fun x i => { i with repositoryDirty := x },
    .of (ascii "schema_version") .uint64 (·.schemaVersion) fun x i => { i with schemaVersion := x }]

/-- `HarnessIdentity` as JSON. -/
def identityCodec : Codec HarnessIdentity :=
  .struct true identityParts ⟨buildCodec.zero, fileCodec.zero, [], false, none, 0⟩

def HarnessIdentity.asJSON (identity : HarnessIdentity) : Value :=
  .object (structMembers identityParts identity)

/-- What the encoder of this package writes: it leaves what HTML reserves as it is, indents by two
blanks and ends the line. -/
def encodeHarnessJSON (value : Value) : Bytes := print (escape false) indented 0 value ++ [0x0a]

def encodeHarnessIdentity (identity : HarnessIdentity) : Except HarnessError Bytes := do
  validateHarnessIdentity identity
  return encodeHarnessJSON identity.asJSON

def HarnessIdentity.equal (identity other : HarnessIdentity) : Bool :=
  match encodeHarnessIdentity identity, encodeHarnessIdentity other with
  | .ok left, .ok right => left = right
  | _, _ => false

def hasExactHarnessFields (fields : List (Bytes × Bytes)) (names : List Bytes) : Bool :=
  hasExactMembers fields names

/-- The text of a member that is there. -/
def rawField (fields : List (Bytes × Bytes)) (name : String) : Bytes :=
  (member fields (ascii name)).getD []

/-- A text is an object with the given names and no others. -/
def exactFields (error : HarnessError) (names : List Bytes) (text : Bytes) :
    Except HarnessError (List (Bytes × Bytes)) :=
  match rawMap text with
  | none => .error error
  | some fields => if hasExactHarnessFields fields names then .ok fields else .error error

/-- The part of `ParseHarnessIdentity` with the decoder of the structure. -/
def decodeIdentity (encoded : Bytes) : Except HarnessError HarnessIdentity :=
  match first encoded with
  | none => .error .malformed
  | some (value, rest) =>
    match identityCodec.into value identityCodec.zero with
    | none => .error .malformed
    | some identity => do
      failIf (skipBlank rest ≠ []) .malformed
      validateHarnessIdentity identity
      return identity

def parseHarnessIdentity (encoded : Bytes) : Except HarnessError HarnessIdentity := do
  failIf (utf8Valid encoded = false ∨ encoded.length > harnessIdentityLimit) .malformed
  let fields ← exactFields .malformed (identityParts.map Member.name) encoded
  let _ ← exactFields .build (buildParts.map Member.name) (rawField fields "build")
  let _ ← exactFields .executable (fileParts.map Member.name) (rawField fields "executable")
  decodeIdentity encoded

/-! ### Round trips -/

variable {identity other : HarnessIdentity}

theorem utf8Valid_digest {value : Bytes} {git : Bool} (h : validHarnessDigest value git = true) :
    utf8Valid value = true := by
  unfold validHarnessDigest at h
  split at h
  · cases h
  refine utf8Valid_of_ascii fun byte hbyte => ?_
  have hdigit := of_decide_eq_true (all_eq_true.mp h byte hbyte)
  simp only [UInt8.lt_iff_toNat_lt, UInt8.reduceToNat, gt_iff_lt, not_or] at hdigit ⊢
  omega

/-- The strings of a valid identity are valid UTF-8. -/
theorem HarnessIdentity.Valid.prints (h : identity.Valid) :
    identityCodec.Prints (fun text => utf8Valid text = true) 2 identity := by
  unfold HarnessIdentity.Valid validateHarnessIdentity at h
  obtain ⟨_, hfields, htree⟩ := bind_eq_ok.mp h
  simp only [failIf_eq_ok, not_or, Bool.not_eq_false] at hfields
  obtain ⟨-, hcommit, hexecutable, hbuild⟩ := hfields
  have hdirty : ∀ digest ∈ identity.dirtyTreeSHA256, utf8Valid digest = true := by
    intro digest hdigest
    rw [Option.mem_def.mp hdigest] at htree
    unfold validateDirtyTree at htree
    split at htree
    · simp only [failIf_eq_ok, Option.all_some, not_or, Bool.not_eq_false] at htree
      exact utf8Valid_digest htree.1
    · simp at htree
  simp only [validHarnessBuildIdentity, Bool.and_eq_true, all_cons, all_nil,
    decide_eq_true_eq] at hbuild
  obtain ⟨⟨⟨hgo, hpath, hversion, hsettings, -⟩, hsum, hvcs, hrevision, htime, -⟩, -⟩ := hbuild
  have hbuild : buildCodec.Prints (fun text => utf8Valid text = true) 1 identity.build := by
    refine prints_struct (by decide +kernel) ?_
    simp only [buildParts, forall_mem_cons, not_mem_nil, false_implies, implies_true,
      and_true, Member.of]
    exact ⟨prints_string hgo.2, prints_string hpath.2, prints_string hsum,
      prints_string hversion.2, prints_string hsettings.2, prints_string hvcs,
      prints_bool _, prints_string hrevision, prints_string htime⟩
  have hfile : fileCodec.Prints (fun text => utf8Valid text = true) 1 identity.executable := by
    refine prints_struct (by decide +kernel) ?_
    simp only [fileParts, forall_mem_cons, not_mem_nil, false_implies, implies_true,
      and_true, Member.of]
    exact ⟨prints_string (utf8Valid_digest hexecutable), prints_uint64 _⟩
  refine prints_struct (by decide +kernel) ?_
  simp only [identityParts, forall_mem_cons, not_mem_nil, false_implies, implies_true,
    and_true, Member.of]
  exact ⟨hbuild,
    prints_pointer fun digest hdigest => prints_string (hdirty digest hdigest), hfile,
    prints_string (utf8Valid_digest hcommit), prints_bool _, prints_uint64 _⟩

theorem restores_buildCodec (build : HarnessBuildIdentity) : buildCodec.Restores build := by
  refine restores_struct (by decide +kernel) ?_
  iterate 6 refine foldlM_of (restores_string _) rfl rfl ?_
  refine foldlM_of (restores_bool _) rfl rfl ?_
  iterate 2 refine foldlM_of (restores_string _) rfl rfl ?_
  rfl

theorem restores_fileCodec (file : FileIdentity) : fileCodec.Restores file := by
  refine restores_struct (by decide +kernel) ?_
  refine foldlM_of (restores_string _) rfl rfl ?_
  refine foldlM_of (restores_uint64 _) rfl rfl ?_
  rfl

theorem restores_dirtyTree (tree : Option Bytes) : Codec.string.pointer.Restores tree := by
  cases tree with
  | none => exact restores_nil _
  | some digest => exact restores_pointer rfl (by simp) (restores_string _)

/-- An identity is restored from its value, whether it is valid or not. -/
theorem restores_identityCodec (identity : HarnessIdentity) : identityCodec.Restores identity := by
  refine restores_struct (by decide +kernel) ?_
  refine foldlM_of (restores_buildCodec _) rfl rfl ?_
  refine foldlM_of (restores_dirtyTree _) rfl rfl ?_
  refine foldlM_of (restores_fileCodec _) rfl rfl ?_
  refine foldlM_of (restores_string _) rfl rfl ?_
  refine foldlM_of (restores_bool _) rfl rfl ?_
  refine foldlM_of (restores_uint64 _) rfl rfl ?_
  rfl

theorem HarnessIdentity.Valid.printable (h : identity.Valid) :
    identity.asJSON.Printable (fun text => utf8Valid text = true) ∧ identity.asJSON.depth ≤ 2 :=
  h.prints identity.asJSON rfl

theorem HarnessIdentity.Valid.quotes (h : identity.Valid) :
    identity.asJSON.Printable (Quotes (escape false)) :=
  Value.Printable.mono (fun _ => quotes_escape false) _ h.printable.1

/-- The members of a part of an identity, each with its text. -/
theorem exactFields_print {error : HarnessError} {members names}
    (hv : (Value.object members).Printable (Quotes (escape false)))
    (hdepth : (Value.object members).depth ≤ maxNestingDepth)
    (hnames : members.map Prod.fst = names) (hnodup : names.Nodup) (d : ℕ) {blank : Bytes}
    (hblank : blank.all isBlank = true) :
    exactFields error names (print (escape false) indented d (.object members) ++ blank) =
      .ok (members.map fun m => (m.1, print (escape false) indented (d + 1) m.2)) := by
  have hprinted : (members.map fun m => (m.1, print (escape false) indented (d + 1) m.2)).map
      Prod.fst = names := by
    simpa [map_map, Function.comp_def] using hnames
  have hexact : hasExactHarnessFields
      (members.map fun m => (m.1, print (escape false) indented (d + 1) m.2)) names = true :=
    hasExactMembers_of_perm (hprinted ▸ hnodup) (hprinted ▸ List.Perm.refl _)
  rw [exactFields, rawMap_print hv hdepth d hblank]
  simp only
  rw [hexact]
  rfl

theorem rawField_map {members : List (Bytes × Value)} (hnodup : (members.map Prod.fst).Nodup)
    {name v} (h : (ascii name, v) ∈ members) (d : ℕ) :
    rawField (members.map fun m => (m.1, print (escape false) indented d m.2)) name =
      print (escape false) indented d v := by
  have hnames : (members.map fun m => (m.1, print (escape false) indented d m.2)).map Prod.fst =
      members.map Prod.fst := by
    simp [map_map, Function.comp_def]
  have hmem : (ascii name, print (escape false) indented d v) ∈
      members.map fun m => (m.1, print (escape false) indented d m.2) :=
    mem_map.mpr ⟨_, h, rfl⟩
  rw [rawField, member_of_mem (hnames ▸ hnodup) hmem]
  rfl

theorem names_structMembers (identity : HarnessIdentity) :
    (structMembers identityParts identity).map Prod.fst = identityParts.map Member.name := by
  obtain ⟨build, executable, commit, dirty, tree, schema⟩ := identity
  cases tree with
  | none => rfl
  | some digest => rfl

theorem mem_structMembers_build (identity : HarnessIdentity) :
    (ascii "build", Value.object (structMembers buildParts identity.build)) ∈
      structMembers identityParts identity := mem_cons_self ..

theorem mem_structMembers_executable (identity : HarnessIdentity) :
    (ascii "executable", Value.object (structMembers fileParts identity.executable)) ∈
      structMembers identityParts identity := by
  obtain ⟨build, executable, commit, dirty, tree, schema⟩ := identity
  cases tree with
  | none | some digest => exact mem_cons_of_mem _ (mem_cons_of_mem _ (mem_cons_self ..))

theorem decodeIdentity_print (h : identity.Valid) (d : ℕ) {blank : Bytes}
    (hblank : blank.all isBlank = true) :
    decodeIdentity (print (escape false) indented d identity.asJSON ++ blank) = .ok identity := by
  have hskip : skipBlank blank = [] := by
    simpa [skipBlank] using skipBlank_append hblank []
  have hstops : Stops blank := by
    have hstops := @stops_blank blank [] hblank stops_nil
    rwa [append_nil] at hstops
  have hinto : identityCodec.into identity.asJSON identityCodec.zero = some identity :=
    restores_identityCodec identity
  have hvalid : validateHarnessIdentity identity = .ok () := h
  rw [decodeIdentity, first_print h.quotes (h.printable.2.trans (by decide)) hstops]
  simp only
  rw [hinto]
  simp [hskip, hvalid, failIf, bind, Except.bind, pure, Except.pure]

theorem utf8Valid_asJSON (h : identity.Valid) (d : ℕ) {blank : Bytes}
    (hblank : blank.all isBlank = true) :
    utf8Valid (print (escape false) indented d identity.asJSON ++ blank) = true := by
  have hprint : utf8Valid (print (escape false) indented d identity.asJSON) = true :=
    utf8Valid_print identity.asJSON
      (Value.Printable.mono (fun _ => utf8Valid_escape false) _ h.printable.1) d
  rw [utf8Valid_append hprint]
  exact utf8Valid_of_ascii fun byte hbyte => isBlank_lt (all_eq_true.mp hblank byte hbyte)

/-- **A valid identity is read back** when its text is short enough. -/
theorem parseHarnessIdentity_print (h : identity.Valid) (d : ℕ) {blank : Bytes}
    (hblank : blank.all isBlank = true)
    (hlimit : (print (escape false) indented d identity.asJSON ++ blank).length ≤
      harnessIdentityLimit) :
    parseHarnessIdentity (print (escape false) indented d identity.asJSON ++ blank) =
      .ok identity := by
  have hnodup : (identityParts.map Member.name).Nodup := by decide +kernel
  have hmembers := membersPrintable_iff.mp h.quotes
  have hdepths := membersDepth_le.mp (Nat.le_of_add_le_add_right h.printable.2)
  have hbuild := mem_structMembers_build identity
  have hfile := mem_structMembers_executable identity
  -- the object, and the two members of which the names are looked at
  have hfields : exactFields .malformed (identityParts.map Member.name)
      (print (escape false) indented d identity.asJSON ++ blank) = _ :=
    exactFields_print h.quotes (h.printable.2.trans (by decide)) (names_structMembers identity)
      hnodup d hblank
  have hbuildFields := @exactFields_print .build _ (buildParts.map Member.name)
    (hmembers _ hbuild).2 ((hdepths _ hbuild).trans (by decide)) rfl (by decide +kernel) (d + 1) []
    rfl
  have hfileFields := @exactFields_print .executable _ (fileParts.map Member.name)
    (hmembers _ hfile).2 ((hdepths _ hfile).trans (by decide)) rfl (by decide +kernel) (d + 1) []
    rfl
  rw [append_nil] at hbuildFields hfileFields
  rw [parseHarnessIdentity, hfields]
  simp only [bind, Except.bind, failIf, utf8Valid_asJSON h d hblank, Bool.true_eq_false,
    not_lt.mpr hlimit, or_self, if_false]
  rw [rawField_map (names_structMembers identity ▸ hnodup) hbuild,
    rawField_map (names_structMembers identity ▸ hnodup) hfile, hbuildFields]
  simp only
  rw [hfileFields]
  exact decodeIdentity_print h d hblank

theorem encodeHarnessIdentity_eq_ok {encoded : Bytes} :
    encodeHarnessIdentity identity = .ok encoded ↔
      identity.Valid ∧ encoded = encodeHarnessJSON identity.asJSON := by
  simp only [encodeHarnessIdentity, bind_eq_ok, HarnessIdentity.Valid, pure, Except.pure,
    Except.ok.injEq]
  constructor
  · rintro ⟨_, hvalid, rfl⟩
    exact ⟨hvalid, rfl⟩
  · rintro ⟨hvalid, rfl⟩
    exact ⟨(), hvalid, rfl⟩

theorem encodeHarnessJSON_injective (h : identity.Valid)
    (heq : encodeHarnessJSON identity.asJSON = encodeHarnessJSON other.asJSON)
    (hother : other.Valid) : identity = other := by
  have hleft := decodeIdentity_print h 0 (show [0x0a].all isBlank = true by decide)
  have hright := decodeIdentity_print hother 0 (show [0x0a].all isBlank = true by decide)
  have heq : print (escape false) indented 0 identity.asJSON ++ [0x0a] =
      print (escape false) indented 0 other.asJSON ++ [0x0a] := heq
  rw [heq, hright] at hleft
  exact (Except.ok.inj hleft).symm

/-- **Identities with the same text are the same.** -/
theorem equal_iff : identity.equal other = true ↔ identity.Valid ∧ identity = other := by
  unfold HarnessIdentity.equal
  constructor
  · intro h
    split at h
    · rename_i left right hleft hright
      obtain ⟨hvalid, rfl⟩ := encodeHarnessIdentity_eq_ok.mp hleft
      obtain ⟨hother, rfl⟩ := encodeHarnessIdentity_eq_ok.mp hright
      exact ⟨hvalid, encodeHarnessJSON_injective hvalid (of_decide_eq_true h) hother⟩
    · cases h
  · rintro ⟨hvalid, rfl⟩
    rw [encodeHarnessIdentity_eq_ok.mpr ⟨hvalid, rfl⟩]
    simp

end Carcer.Provenance
