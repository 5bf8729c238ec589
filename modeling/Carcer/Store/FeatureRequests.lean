import Carcer.Disk.Staging
import Carcer.Json.Codec
import Carcer.Json.Raw
import Carcer.Store.JsonText

/-!
# Feature requests

The store of `internal/store/feature_requests.go`: one file for each request in the directory
`feature-requests` of a run, and the requests in memory. Every operation reads the directory again
before it changes anything. A file is staged under a temporary name and gets its own name by a
rename.

The place of the directory is part of the state: nothing, a directory, or something else that stands
in its way.

## Main definitions

* `FeatureRequest`, `validateRequest`: a request
* `encodeFeatureRequest`, `decodeFeatureRequest`: its file
* `readFeatureRequests`: the directory
* `writeCalls`: the calls that write a file
* `FeatureRequestStore`, `create`, `importRequests`, `setStatus`, `perform`: the operations
-/

namespace Carcer.Store.Feature

open Carcer.Wire Carcer.Json Carcer.Disk

/-! ### Requests -/

def maxFeatureDecisionNoteBytes : ℕ := 4 * 1024

def maxFeatureTitleBytes : ℕ := 256

def maxFeatureDescriptionBytes : ℕ := 16 * 1024

def featurePending : Bytes := ascii "pending"

def featureApproved : Bytes := ascii "approved"

def featureDenied : Bytes := ascii "denied"

structure FeatureRequest where
  id : UInt64
  generation : UInt64
  title : Bytes
  description : Bytes
  status : Bytes
  decisionNote : Bytes
  deriving DecidableEq

/-- What `decodeJSONString` says. -/
inductive StringError
  /-- "JSON value is not a string" -/
  | type
  /-- "JSON string contains an invalid Unicode surrogate" -/
  | unicode
  /-- What the JSON decoder says. -/
  | json
  deriving DecidableEq

/-- The errors of this file of the source. -/
inductive FeatureError
  /-- "feature-request ID space is exhausted" -/
  | exhausted
  /-- "feature-request store is not empty" -/
  | notEmpty
  /-- "duplicate imported feature request #%d" -/
  | duplicate (id : UInt64)
  /-- "feature request #%d is already %s" -/
  | already (id : UInt64) (status : Bytes)
  /-- "feature request #%d does not exist" -/
  | doesNotExist (id : UInt64)
  /-- "feature-request store is not a directory: %s" -/
  | notDirectory
  /-- "invalid feature-request record: %s" -/
  | record (name : Bytes)
  /-- "malformed feature-request record: %s" -/
  | malformed (name : Bytes)
  /-- "conflicting feature-request record: %s" -/
  | conflicting (name : Bytes)
  /-- "invalid feature-request filename: %s" -/
  | filename (name : Bytes)
  /-- "feature-request record is not valid UTF-8", which makes a record malformed -/
  | notUtf8
  /-- "feature-request record is not valid JSON", which makes a record malformed -/
  | notJson
  /-- "feature-request record has invalid fields" -/
  | fields
  /-- "feature-request ID must be a positive integer" -/
  | id
  /-- "feature-request generation is invalid" -/
  | generation
  /-- "feature-request text is not valid UTF-8" -/
  | textUtf8
  /-- "feature-request text must be strings" -/
  | textType
  /-- "feature-request status is invalid" -/
  | status
  /-- "feature-request decision note must be a valid UTF-8 string" -/
  | noteType (cause : StringError)
  /-- "feature-request title must not be empty" -/
  | titleEmpty
  /-- "feature-request title exceeds 256 bytes" -/
  | titleLimit
  /-- "feature-request description exceeds 16 KiB" -/
  | descriptionLimit
  /-- "feature-request decision note is not valid UTF-8" -/
  | noteUtf8
  /-- "feature-request decision note exceeds 4 KiB" -/
  | noteLimit
  /-- "pending feature request cannot have a decision note" -/
  | pendingNote
  /-- "imported feature-request status is invalid" -/
  | importedStatus
  /-- "feature request #%d already exists" -/
  | alreadyExists (id : UInt64)
  /-- "could not persist feature request #%d" -/
  | persist (id : UInt64)
  deriving DecidableEq

def validFeatureStatus (status : Bytes) : Bool :=
  status = featurePending ∨ status = featureApproved ∨ status = featureDenied

def validateRequestID (id : UInt64) : Except FeatureError Unit := failIf (id = 0) .id

def validateFeatureText (title description : Bytes) : Except FeatureError Unit := do
  failIf (utf8Valid title = false ∨ utf8Valid description = false) .textUtf8
  failIf (title = []) .titleEmpty
  failIf (title.length > maxFeatureTitleBytes) .titleLimit
  failIf (description.length > maxFeatureDescriptionBytes) .descriptionLimit

def validateFeatureDecisionNote (note : Bytes) : Except FeatureError Unit := do
  failIf (utf8Valid note = false) .noteUtf8
  failIf (note.length > maxFeatureDecisionNoteBytes) .noteLimit

def validateRequest (request : FeatureRequest) : Except FeatureError Unit := do
  validateRequestID request.id
  validateFeatureText request.title request.description
  validateFeatureDecisionNote request.decisionNote
  failIf (request.status = featurePending ∧ request.decisionNote ≠ []) .pendingNote
  failIf (validFeatureStatus request.status = false) .importedStatus

/-! ### Files -/

/-- The members of the file, in the order of the structure. -/
def requestParts : List (Member FeatureRequest) :=
  [.of (ascii "decision_note") Codec.string.omitEmpty (·.decisionNote)
      fun x r => { r with decisionNote := x },
    .of (ascii "description") .string (·.description) fun x r => { r with description := x },
    .of (ascii "generation") .uint64 (·.generation) fun x r => { r with generation := x },
    .of (ascii "id") .uint64 (·.id) fun x r => { r with id := x },
    .of (ascii "status") .string (·.status) fun x r => { r with status := x },
    .of (ascii "title") .string (·.title) fun x r => { r with title := x }]

/-- A request as a value of JSON. -/
def FeatureRequest.json (request : FeatureRequest) : Value :=
  .object (structMembers requestParts request)

/-- `encodeFeatureRequest`: the encoder leaves what HTML reserves as it is and ends the line. -/
def encodeFeatureRequest (request : FeatureRequest) : Bytes :=
  unescapeJSONLineSeparators (print (escape false) indented 0 request.json ++ [0x0a])

/-- `decodeJSONUint`: the first value of the text. -/
def decodeJSONUint (raw : Bytes) : Option UInt64 :=
  match first raw with
  | some (.number literal, _) => (parseUint literal).map UInt64.ofNat
  | _ => none

def decodeJSONString (raw : Bytes) : Except StringError Bytes := do
  failIf (validJSONStringSurrogates raw = false) .unicode
  match parse raw with
  | some (.string text) => do
    failIf (utf8Valid text = false) .unicode
    return text
  | some _ => .error .type
  | none => .error .json

/-- The text of a member, or what the decoder says of the title and the description. -/
def decodeText (raw : Bytes) : Except FeatureError Bytes :=
  (decodeJSONString raw).mapError fun error => if error = .unicode then .textUtf8 else .textType

/-- The names that a record must have; the last one may be missing. -/
def wantedFields (fields : List (Bytes × Bytes)) : List Bytes :=
  [ascii "id", ascii "generation", ascii "title", ascii "description", ascii "status"] ++
    if (member fields (ascii "decision_note")).isSome then [ascii "decision_note"] else []

/-- The text of a member that is there. -/
def field (fields : List (Bytes × Bytes)) (name : String) : Bytes :=
  (member fields (ascii name)).getD []

/-- The note of a record, which may be missing. -/
def decodeNote (fields : List (Bytes × Bytes)) : Except FeatureError Bytes :=
  match member fields (ascii "decision_note") with
  | none => .ok []
  | some raw => (decodeJSONString raw).mapError .noteType

/-- The part of `DecodeFeatureRequest` behind the decoder. -/
def requestOfFields (fields : List (Bytes × Bytes)) : Except FeatureError FeatureRequest := do
  failIf (hasExactMembers fields (wantedFields fields) = false) .fields
  match decodeJSONUint (field fields "id") with
  | none => .error .id
  | some id => do
    failIf (id = 0) .id
    match decodeJSONUint (field fields "generation") with
    | none => .error .generation
    | some generation => do
      let title ← decodeText (field fields "title")
      let description ← decodeText (field fields "description")
      validateFeatureText title description
      let status ← (decodeJSONString (field fields "status")).mapError fun _ => .status
      failIf (validFeatureStatus status = false) .status
      let note ← decodeNote fields
      let request : FeatureRequest := ⟨id, generation, title, description, status, note⟩
      validateRequest request
      return request

def decodeFeatureRequest (contents : Bytes) : Except FeatureError FeatureRequest := do
  failIf (utf8Valid contents = false) .notUtf8
  match rawObject contents with
  | none => .error .notJson
  | some (fields, rest) => do
    failIf (skipBlank rest ≠ []) .notJson
    requestOfFields fields

/-! ### The directory -/

def requestName (id : UInt64) : Bytes := ascii "request-" ++ padded 6 id.toNat ++ ascii ".json"

def requestIDFromName (name : Bytes) : Option UInt64 := do
  let encoded ← between (ascii "request-") (ascii ".json") name
  let value ← parseUint encoded
  if value = 0 ∨ requestName (UInt64.ofNat value) ≠ name then none else some (UInt64.ofNat value)

/-- The requests by their identifiers. -/
abbrev Requests : Type := Finmap fun _ : UInt64 => FeatureRequest

/-- Whether an error of `DecodeFeatureRequest` makes a record malformed. -/
def FeatureError.isMalformed (error : FeatureError) : Bool := error = .notUtf8 ∨ error = .notJson

/-- The body of the loop of `readFeatureRequests` up to the identifier of the record. -/
def readRecord (pair : Bytes × Entry) : Except FeatureError FeatureRequest :=
  match requestIDFromName pair.1 with
  | none => .error (.filename pair.1)
  | some id =>
    match pair.2 with
    | .file contents => do
      failIf (utf8Valid contents = false) (.malformed pair.1)
      let request ← (decodeFeatureRequest contents).mapError fun error =>
        if error.isMalformed then .malformed pair.1 else error
      failIf (request.id ≠ id) (.conflicting pair.1)
      return request
    | _ => .error (.record pair.1)

/-- A request is kept under an identifier that no other has. -/
def insertNew (conflict : FeatureError) (requests : Requests) (request : FeatureRequest) :
    Except FeatureError Requests := do
  failIf (request.id ∈ requests) conflict
  return requests.insert request.id request

/-- The body of the loop of `readFeatureRequests`. -/
def readInto (requests : Requests) (pair : Bytes × Entry) : Except FeatureError Requests := do
  let request ← readRecord pair
  insertNew (.conflicting pair.1) requests request

def readFeatureRequests : Option Entry → Except FeatureError Requests
  | none => .ok ∅
  | some (.directory entries) => entries.foldlM readInto ∅
  | some _ => .error .notDirectory

/-- The temporary name of a file; `CreateTemp` ends it. -/
def temporaryName (id : UInt64) (suffix : Bytes) : Bytes :=
  0x2e :: requestName id ++ 0x2e :: suffix

/-- What `MkdirAll` and the `Lstat` behind it find in the place of the directory. -/
def openDirectory (id : UInt64) : Option Entry → Except FeatureError Directory
  | none => .ok []
  | some (.directory entries) => .ok entries
  | some (.symlink target) =>
    match followTarget target with
    | some (.directory _) => .error .notDirectory
    | _ => .error (.persist id)
  | some _ => .error (.persist id)

/-- `write`: the calls that it makes. The name is looked up once more before the rename. -/
def writeCalls (place : Option Entry) (suffix : Bytes) (request : FeatureRequest)
    (replace : Bool) : Except FeatureError (List Call) := do
  validateRequest request
  let entries ← openDirectory request.id place
  failIf (replace = false ∧
    ((entries.entry (requestName request.id)).bind Entry.follow).isSome) (.alreadyExists request.id)
  return renamed (temporaryName request.id suffix) (requestName request.id)
    (encodeFeatureRequest request)

/-! ### The operations -/

/-- `FeatureRequestStore`, with what stands in the place of its directory. -/
structure FeatureRequestStore where
  place : Option Entry
  requests : Requests

def newFeatureRequestStore (place : Option Entry) : Except FeatureError FeatureRequestStore := do
  let requests ← readFeatureRequests place
  return ⟨place, requests⟩

def FeatureRequestStore.refresh (store : FeatureRequestStore) :
    Except FeatureError FeatureRequestStore :=
  newFeatureRequestStore store.place

/-- `Requests`: the requests in the order of their identifiers. -/
def sorted (requests : Requests) : List FeatureRequest :=
  (requests.keys.sort (· ≤ ·)).filterMap requests.lookup

/-- A request is written, every operation on files succeeding, and kept in memory. -/
def FeatureRequestStore.save (suffix : Bytes) (request : FeatureRequest) (replace : Bool)
    (store : FeatureRequestStore) : FeatureRequestStore × Except FeatureError FeatureRequest :=
  match writeCalls store.place suffix request replace with
  | .error error => (store, .error error)
  | .ok calls =>
    (⟨performCalls store.place calls, store.requests.insert request.id request⟩, .ok request)

/-- `^uint64(0)`. -/
def lastID : UInt64 := UInt64.ofNat (2 ^ 64 - 1)

/-- The body of the loop of `Create` over the identifiers; nothing once they are exhausted. -/
def raise (next : Option UInt64) (id : UInt64) : Option UInt64 :=
  next.bind fun next =>
    if id ≥ next then if id = lastID then none else some (id + 1) else some next

theorem toNat_succ {id : UInt64} (h : id ≠ lastID) : (id + 1).toNat = id.toNat + 1 := by
  have hlt : id.toNat < 2 ^ 64 := id.toNat_lt
  have hne : id.toNat ≠ 2 ^ 64 - 1 := fun heq => h (UInt64.toNat_inj.mp heq)
  rw [UInt64.toNat_add, UInt64.toNat_one]
  omega

theorem raise_some (next id : UInt64) : raise (some next) id =
    if id = lastID then none
    else some (UInt64.ofNat (max next.toNat (id + 1).toNat)) := by
  rw [raise, Option.bind_some]
  by_cases hlast : id = lastID
  · have hge : id ≥ next := by
      have hlt : next.toNat < 2 ^ 64 := next.toNat_lt
      rw [hlast, ge_iff_le, UInt64.le_iff_toNat_le]
      show next.toNat ≤ 2 ^ 64 - 1
      omega
    rw [if_pos hge, if_pos hlast, if_pos hlast]
  · have hsucc := toNat_succ hlast
    rw [if_neg hlast, if_neg hlast]
    split_ifs with hge
    · rw [ge_iff_le, UInt64.le_iff_toNat_le] at hge
      rw [max_eq_right (by omega), UInt64.ofNat_toNat]
    · rw [ge_iff_le, UInt64.le_iff_toNat_le] at hge
      rw [max_eq_left (by omega), UInt64.ofNat_toNat]

theorem raise_comm (next : Option UInt64) (a b : UInt64) :
    raise (raise next a) b = raise (raise next b) a := by
  have hmax : ∀ m n : UInt64, (UInt64.ofNat (max m.toNat n.toNat)).toNat = max m.toNat n.toNat := by
    intro m n
    have hm := m.toNat_lt
    have hn := n.toNat_lt
    exact UInt64.toNat_ofNat_of_lt' (max_lt hm hn)
  cases next with
  | none => rfl
  | some next =>
    by_cases ha : a = lastID <;> by_cases hb : b = lastID
    · rw [ha, hb]
    · simp only [raise_some, if_pos ha, if_neg hb]
      rfl
    · simp only [raise_some, if_neg ha, if_pos hb]
      rfl
    · simp only [raise_some, if_neg ha, if_neg hb, hmax, max_right_comm]

/-- The identifier of a new request. The loop ranges over a map, whose order is not specified. -/
def nextRequestID (requests : Requests) : Option UInt64 :=
  requests.foldl (fun next id _ => raise next id) (fun next a _ b _ => raise_comm next a b) (some 1)

def create (suffix : Bytes) (generation : UInt64) (title description : Bytes)
    (store : FeatureRequestStore) : FeatureRequestStore × Except FeatureError FeatureRequest :=
  match validateFeatureText title description with
  | .error error => (store, .error error)
  | .ok () =>
    match store.refresh with
    | .error error => (store, .error error)
    | .ok store =>
      match nextRequestID store.requests with
      | none => (store, .error .exhausted)
      | some id => store.save suffix ⟨id, generation, title, description, featurePending, []⟩ false

/-- The first loop of `Import`. -/
def collect (imported : Requests) (request : FeatureRequest) : Except FeatureError Requests := do
  validateRequest request
  insertNew (.duplicate request.id) imported request

/-- The last loop of `Import`. -/
def saveAll (suffix : Bytes) : List FeatureRequest → FeatureRequestStore →
    FeatureRequestStore × Except FeatureError Unit
  | [], store => (store, .ok ())
  | request :: requests, store =>
    match store.save suffix request false with
    | (store, .error error) => (store, .error error)
    | (store, .ok _) => saveAll suffix requests store

/-- `Import`. -/
def importRequests (suffix : Bytes) (requests : List FeatureRequest)
    (store : FeatureRequestStore) : FeatureRequestStore × Except FeatureError Unit :=
  match store.refresh with
  | .error error => (store, .error error)
  | .ok store =>
    if store.requests ≠ ∅ ∨ store.place.isSome then (store, .error .notEmpty)
    else
      match requests.foldlM collect ∅ with
      | .error error => (store, .error error)
      | .ok imported => saveAll suffix (sorted imported) store

def setStatus (suffix : Bytes) (id : UInt64) (status note : Bytes) (store : FeatureRequestStore) :
    FeatureRequestStore × Except FeatureError FeatureRequest :=
  match store.refresh with
  | .error error => (store, .error error)
  | .ok store =>
    match validateRequestID id with
    | .error error => (store, .error error)
    | .ok () =>
      match store.requests.lookup id with
      | none => (store, .error (.doesNotExist id))
      | some current =>
        if current.status ≠ featurePending then (store, .error (.already id current.status))
        else store.save suffix { current with status := status, decisionNote := note } true

def approve (suffix : Bytes) (id : UInt64) (note : Bytes) :
    FeatureRequestStore → FeatureRequestStore × Except FeatureError FeatureRequest :=
  setStatus suffix id featureApproved note

def deny (suffix : Bytes) (id : UInt64) (note : Bytes) :
    FeatureRequestStore → FeatureRequestStore × Except FeatureError FeatureRequest :=
  setStatus suffix id featureDenied note

/-- An operation on the store. -/
inductive Operation
  | create (generation : UInt64) (title description : Bytes)
  | importRequests (requests : List FeatureRequest)
  | approve (id : UInt64) (note : Bytes)
  | deny (id : UInt64) (note : Bytes)

/-- The store after an operation, whose temporary files end in `suffix`. -/
def perform (suffix : Bytes) (store : FeatureRequestStore) : Operation → FeatureRequestStore
  | .create generation title description => (create suffix generation title description store).1
  | .importRequests requests => (importRequests suffix requests store).1
  | .approve id note => (approve suffix id note store).1
  | .deny id note => (deny suffix id note store).1

/-- The store after a sequence of operations. -/
def performAll (store : FeatureRequestStore) (operations : List (Bytes × Operation)) :
    FeatureRequestStore :=
  operations.foldl (fun store operation => perform operation.1 store operation.2) store

end Carcer.Store.Feature
