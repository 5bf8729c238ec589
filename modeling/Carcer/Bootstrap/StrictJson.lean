import Carcer.Json.Text
import Carcer.Json.Decode

/-!
# Strict documents

`strictJSON` of `internal/bootstrap/request.go` reads the documents of the bootstrap service. A pass
over the tokens refuses an object with two members of one name; the decoder then stores the members
into structures. The pass compares names as they are, and the decoder takes a name for that of a
field when both are equal up to the case of letters.

Whether a text is a time is decided by the standard library, and is left open here.

## Main definitions

* `Record.fields`: the structures of requests, configurations, references and manifests
* `strictJSON`: what is accepted
* `assignsOnce`: no object stores two members into one field
* `foldsApart`: no object of a structure has two names that are equal up to case

## Main results

* `assignsOnce_iff_foldsApart`: an accepted document assigns each field once if and only if its
  names differ by more than case
-/

namespace Carcer.Bootstrap

open Carcer.Wire Carcer.Json List

/-! ### Destinations -/

inductive Record
  | request
  | assetRef
  | limits
  | configuration
  | jobRef
  | references
  | manifest
  | result
  | artifact

/-- The types of values without parts; the integers have 64 bits, or as many as they say. -/
inductive Scalar
  | text
  | int
  | uint (bits : ℕ)
  | bool
  | time

/-- The type of a destination. -/
inductive Kind
  | scalar (of : Scalar)
  | slice (of : Kind)
  | map (of : Scalar)
  | struct (of : Record)

def fieldsOf (kind : Kind) (names : List String) : List (Bytes × Kind) :=
  names.map fun name => (ascii name, kind)

/-- The fields of a structure, by their names in a document. -/
def Record.fields : Record → List (Bytes × Kind)
  | .request => fieldsOf (.scalar .int) ["version"] ++
      fieldsOf (.slice (.struct .assetRef)) ["assets"] ++
      fieldsOf (.slice (.scalar .text)) ["argv", "artifacts", "outputs"]
  | .assetRef | .jobRef => fieldsOf (.scalar .text) ["id", "sha256"]
  | .limits => fieldsOf (.scalar .int) ["cpu", "memory_bytes", "swap_bytes", "pids",
      "aggregate_cpu", "aggregate_memory_bytes", "aggregate_pids", "seconds", "capture_seconds",
      "stop_grace_seconds", "cleanup_seconds", "scratch_bytes", "tmp_bytes",
      "supervisor_control_bytes", "file_size_bytes", "open_files", "core_size_bytes",
      "diagnostic_bytes", "input_bytes", "read_bytes", "output_count", "output_file_bytes",
      "output_total_bytes", "run_bytes", "global_bytes", "retained_jobs", "retained_artifacts",
      "retained_failures", "failure_bytes"]
  | .configuration => fieldsOf (.scalar .int) ["version"] ++ fieldsOf (.scalar .bool) ["enabled"] ++
      fieldsOf (.scalar .text) ["storage", "run_id", "tcc_asset"]
  | .references => fieldsOf (.scalar .bool) ["enabled"] ++
      fieldsOf (.struct .assetRef) ["tcc_asset"] ++ fieldsOf (.scalar .text) ["image", "run_id"] ++
      fieldsOf (.scalar .int) ["version"] ++ fieldsOf (.scalar (.uint 64)) ["generation"] ++
      fieldsOf (.slice (.struct .jobRef)) ["jobs"] ++ fieldsOf (.struct .limits) ["limits"]
  | .manifest => fieldsOf (.scalar .text) ["run_id", "id", "image", "image_id", "tcc_commit",
      "snapshot_sha256"] ++ fieldsOf (.scalar .int) ["version", "source_content_bytes"] ++
      fieldsOf (.scalar (.uint 64)) ["generation"] ++ fieldsOf (.struct .request) ["request"] ++
      fieldsOf (.slice (.struct .assetRef)) ["inputs"] ++ fieldsOf (.struct .limits) ["limits"] ++
      fieldsOf (.scalar .time) ["started", "finished"] ++ fieldsOf (.struct .result) ["result"]
  | .result => fieldsOf (.scalar .text) ["job_id", "worker_sha256", "reason", "diagnostics"] ++
      fieldsOf (.map .text) ["controls"] ++
      fieldsOf (.map (.uint 64)) ["resource_events"] ++
      fieldsOf (.scalar (.uint 32)) ["status"] ++ fieldsOf (.scalar .int) ["exit_code"] ++
      fieldsOf (.scalar .bool) ["oom", "cleaned"] ++
      fieldsOf (.slice (.struct .artifact)) ["artifacts"]
  | .artifact => fieldsOf (.scalar .text) ["id", "name"] ++ fieldsOf (.scalar .int) ["size"]

/-- The field that a member is stored into: the one with its name, or else the first whose name is
equal up to case. -/
def Record.matched (record : Record) (name : Bytes) : Option (Bytes × Kind) :=
  match record.fields.find? fun field => field.1 = name with
  | some field => some field
  | none => record.fields.find? fun field => foldName field.1 = foldName name

/-! ### Documents -/

section Every

variable (leaf : Kind → Value → Bool) (test : Record → List Bytes → Bool)

mutual

/-- A value under its destination: the names of each object that goes into a structure pass a test,
and what has no parts another. `null` leaves a destination as it is. -/
def every : Kind → Value → Bool
  | _, .null => true
  | .slice of, .array items => everyItem of items
  | .map of, .object members => members.all fun member => leaf (.scalar of) member.2
  | .struct record, .object members =>
    test record (members.map Prod.fst) && everyField record members
  | kind, value => leaf kind value

/-- The elements of an array. -/
def everyItem : Kind → List Value → Bool
  | _, [] => true
  | kind, item :: items => every kind item && everyItem kind items

/-- The members of a structure. -/
def everyField : Record → List (Bytes × Value) → Bool
  | _, [] => true
  | record, (name, item) :: members =>
    (match record.matched name with
      | none => true
      | some field => every field.2 item) && everyField record members

end

end Every

/-- The members all have a field. -/
def known (record : Record) (names : List Bytes) : Bool :=
  names.all fun name => (record.matched name).isSome

/-- What the decoder stores into a destination without parts. -/
def decodesLeaf (isTime : Bytes → Bool) : Kind → Value → Bool
  | .scalar _, .null => true
  | .scalar .text, .string _ => true
  | .scalar .int, .number literal => (parseInt literal).isSome
  | .scalar (.uint bits), .number literal => (parseUint literal).any fun n => n < 2 ^ bits
  | .scalar .bool, .bool _ => true
  | .scalar .time, .string text => isTime text
  | _, _ => false

mutual

/-- The pass over the tokens: no name stands twice in an object, and elements and members stand at
most so many levels down. -/
def strictValue : ℕ → Value → Bool
  | levels, .array items => strictItems levels items
  | levels, .object members => (members.map Prod.fst).Nodup && strictMembers levels members
  | _, _ => true

/-- The elements of an array. -/
def strictItems : ℕ → List Value → Bool
  | _, [] => true
  | 0, _ :: _ => false
  | levels + 1, item :: items => strictValue levels item && strictItems (levels + 1) items

/-- The members of an object. -/
def strictMembers : ℕ → List (Bytes × Value) → Bool
  | _, [] => true
  | 0, _ :: _ => false
  | levels + 1, (_, item) :: members =>
    strictValue levels item && strictMembers (levels + 1) members

end

/-- `strictJSON`: the document, when it is accepted. -/
def strictJSON (isTime : Bytes → Bool) (kind : Kind) (limit : ℕ) (data : Bytes) : Option Value :=
  if limit < data.length ∨ utf8Valid data = false then none
  else (parse data).filter fun value =>
    strictValue 16 value && every (decodesLeaf isTime) known kind value

/-- **No object stores two members into one field.** -/
def assignsOnce (kind : Kind) (value : Value) : Bool :=
  every (fun _ _ => true) (fun record names =>
    (names.map fun name => (record.matched name).map Prod.fst).Nodup) kind value

/-- The names of an object that goes into a structure differ by more than case. -/
def foldsApart (kind : Kind) (value : Value) : Bool :=
  every (fun _ _ => true) (fun _ names => (names.map foldName).Nodup) kind value

/-! ### Names -/

theorem nodup_foldName (record : Record) :
    (record.fields.map fun field => foldName field.1).Nodup := by
  cases record <;> decide +kernel

theorem matched_eq_some {record : Record} {name : Bytes} {field}
    (h : record.matched name = some field) :
    field ∈ record.fields ∧ foldName field.1 = foldName name := by
  rw [Record.matched] at h
  split at h
  · next found hfound =>
    obtain rfl := Option.some.inj h
    have hname : found.1 = name := by simpa using find?_some hfound
    exact ⟨mem_of_find?_eq_some hfound, by rw [hname]⟩
  · exact ⟨mem_of_find?_eq_some h, by simpa using find?_some h⟩

/-- Two members go into one field exactly when their names are equal up to case. -/
theorem matched_eq_iff {record : Record} {first second : Bytes}
    (hfirst : (record.matched first).isSome) (hsecond : (record.matched second).isSome) :
    (record.matched first).map Prod.fst = (record.matched second).map Prod.fst ↔
      foldName first = foldName second := by
  obtain ⟨field, hfield⟩ := Option.isSome_iff_exists.mp hfirst
  obtain ⟨other, hother⟩ := Option.isSome_iff_exists.mp hsecond
  obtain ⟨hmem, hfold⟩ := matched_eq_some hfield
  obtain ⟨hmem', hfold'⟩ := matched_eq_some hother
  rw [hfield, hother, Option.map_some, Option.map_some, Option.some.injEq, ← hfold, ← hfold']
  constructor
  · intro heq
    rw [heq]
  · intro heq
    rw [inj_on_of_nodup_map (nodup_foldName record) hmem hmem' heq]

theorem nodup_matched_iff {record names} (h : known record names = true) :
    (names.map fun name => (record.matched name).map Prod.fst).Nodup ↔
      (names.map foldName).Nodup := by
  rw [List.Nodup, List.Nodup, pairwise_map, pairwise_map]
  refine List.Pairwise.iff_of_mem fun hfirst hsecond => not_congr (matched_eq_iff ?_ ?_)
  · exact all_eq_true.mp h _ hfirst
  · exact all_eq_true.mp h _ hsecond

/-- Two tests agree on names that all have a field. -/
def Agree (test test' : Record → List Bytes → Bool) : Prop :=
  ∀ record names, known record names = true → test record names = test' record names

section Congr

variable {leaf leaf' : Kind → Value → Bool} {test test' : Record → List Bytes → Bool}

mutual

/-- Two tests that agree on known names agree on what the decoder accepts. -/
theorem every_congr (h : Agree test test') :
    ∀ (kind : Kind) (value : Value), every leaf known kind value = true →
      every leaf' test kind value = every leaf' test' kind value
  | kind, .null, _ => by cases kind <;> rfl
  | kind, .bool _, _ => by cases kind <;> rfl
  | kind, .number _, _ => by cases kind <;> rfl
  | kind, .string _, _ => by cases kind <;> rfl
  | kind, .array items, hvalue => by
    cases kind with
    | slice of => exact everyItem_congr h of items hvalue
    | scalar | map | struct => rfl
  | kind, .object members, hvalue => by
    cases kind with
    | struct record =>
      obtain ⟨hknown, hfields⟩ := Bool.and_eq_true_iff.mp hvalue
      rw [every, every, h record _ hknown, everyField_congr h record members hfields]
    | scalar | slice | map => rfl

theorem everyItem_congr (h : Agree test test') :
    ∀ (kind : Kind) (items : List Value), everyItem leaf known kind items = true →
      everyItem leaf' test kind items = everyItem leaf' test' kind items
  | _, [], _ => rfl
  | kind, item :: items, hitems => by
    obtain ⟨hitem, hrest⟩ := Bool.and_eq_true_iff.mp hitems
    rw [everyItem, everyItem, every_congr h kind item hitem, everyItem_congr h kind items hrest]

theorem everyField_congr (h : Agree test test') :
    ∀ (record : Record) (members : List (Bytes × Value)),
      everyField leaf known record members = true →
      everyField leaf' test record members = everyField leaf' test' record members
  | _, [], _ => rfl
  | record, (name, item) :: members, hmembers => by
    obtain ⟨hitem, hrest⟩ := Bool.and_eq_true_iff.mp hmembers
    rw [everyField, everyField, everyField_congr h record members hrest]
    cases hfield : record.matched name with
    | none => rfl
    | some field =>
      rw [hfield] at hitem
      simp only [every_congr h field.2 item hitem]

end

end Congr

/-! ### Accepted documents -/

/-- **An accepted document assigns each field once if and only if its names differ by more than
case.** The pass over the tokens does not see to it. -/
theorem assignsOnce_iff_foldsApart (isTime : Bytes → Bool) (kind : Kind) (limit : ℕ)
    (data : Bytes) {value : Value} (h : strictJSON isTime kind limit data = some value) :
    assignsOnce kind value = true ↔ foldsApart kind value = true := by
  have hdecodes : every (decodesLeaf isTime) known kind value = true := by
    rw [strictJSON] at h
    split_ifs at h
    obtain ⟨-, haccepted⟩ := Option.filter_eq_some_iff.mp h
    exact (Bool.and_eq_true_iff.mp haccepted).2
  rw [assignsOnce, foldsApart, every_congr _ kind value hdecodes]
  intro record names hknown
  rw [decide_eq_decide]
  exact nodup_matched_iff hknown

/-- A request that gives its version once, in another case. -/
def plainRequest : Bytes := ascii "\x7b\"Version\":1,\"outputs\":[\"a.out\"]\x7d"

theorem assignsOnce_plainRequest :
    (strictJSON (fun _ => true) (.struct .request) 65536 plainRequest).any
      (assignsOnce (.struct .request)) = true := by
  have hapart : (strictJSON (fun _ => true) (.struct .request) 65536 plainRequest).any
      (foldsApart (.struct .request)) = true := by decide +kernel
  cases hvalue : strictJSON (fun _ => true) (.struct .request) 65536 plainRequest with
  | none =>
    rw [hvalue] at hapart
    cases hapart
  | some value =>
    rw [hvalue] at hapart
    exact (assignsOnce_iff_foldsApart _ _ _ _ hvalue).mpr hapart

/-- **A request that gives its version twice is accepted**, as `version` and as `Version`. -/
theorem version_twice :
    (strictJSON (fun _ => true) (.struct .request) 65536
      (ascii "\x7b\"version\":1,\"Version\":2,\"outputs\":[\"a.out\"]\x7d")).any
        (fun value => !assignsOnce (.struct .request) value) = true := by
  decide +kernel

end Carcer.Bootstrap
