import Carcer.Disk.Tree
import Carcer.Json.Codec
import Carcer.Store.JsonText

/-!
# The ledger of operator requests

The ledger of `internal/store/operator_requests.go`: what operators ask of the guest's system, each
request with a history that only grows. The ledger is one file, read and written as a whole under a
lock; a ledger that was inherited from another run keeps the inherited one in a second file and is
checked against it.

What other packages do is a parameter: whether a text is a time, and the digest SHA-256.

## Main definitions

* `OperatorRequestLedger`, `validateOperatorRequests`: the ledger
* `encodeLedger`, `decodeOperatorRequests`: its file
* `readOperatorRequests`, `validateOperatorInheritance`, `writeOperatorRequests`: the files of a run
* `createRequest`, `appendRevision`, `change`, `perform`: the operations
* `inheritOperatorRequests`: the ledger of a new run
-/

namespace Carcer.Store

open Carcer.Wire Carcer.Json Carcer.Disk

/-! ### The ledger -/

def operatorRequestsFilename : Bytes := ascii "operator-requests.json"

def inheritedOperatorRequestsFilename : Bytes := ascii "cross-run-operator-requests.json"

def operatorRequestsLock : Bytes := ascii ".operator-requests.lock"

def maxOperatorRequests : ℕ := 128

def maxOperatorRequestTitleBytes : ℕ := 256

def maxOperatorRequestTextBytes : ℕ := 4096

def maxOperatorRequestEvidenceBytes : ℕ := 8192

def maxOperatorLedgerBytes : ℕ := 16 * 1024 * 1024

structure OperatorRequestActor where
  role : Bytes
  name : Bytes
  runID : Bytes
  generation : Option UInt64
  threadID : Bytes
  turnID : Bytes
  deriving DecidableEq

structure OperatorRequestRevision where
  revision : UInt64
  action : Bytes
  actor : OperatorRequestActor
  timestamp : Bytes
  disposition : Bytes
  explanation : Bytes
  evidence : Bytes
  reportRevision : UInt64
  deriving DecidableEq

structure OperatorRequest where
  id : UInt64
  title : Bytes
  description : Bytes
  history : List OperatorRequestRevision
  deriving DecidableEq

def OperatorRequest.revision (request : OperatorRequest) : UInt64 :=
  UInt64.ofNat request.history.length

def OperatorRequest.active (request : OperatorRequest) : Bool :=
  request.history.getLast?.any fun last => last.action ≠ ascii "withdraw"

structure OperatorRequestInheritance where
  runID : Bytes
  generation : UInt64
  sha256 : Bytes
  deriving DecidableEq

structure OperatorRequestLedger where
  schemaVersion : ℤ
  runID : Bytes
  revision : UInt64
  inherited : Option OperatorRequestInheritance
  requests : Option (List OperatorRequest)
  deriving DecidableEq

/-- The requests, none for a nil slice. -/
def OperatorRequestLedger.all (ledger : OperatorRequestLedger) : List OperatorRequest :=
  ledger.requests.getD []

/-- The errors of this file of the source. -/
inductive LedgerError
  /-- "operator request %s must be non-empty UTF-8 text of at most %d bytes" -/
  | text (field : Bytes) (limit : ℕ)
  /-- "only an operator can create an OS request" -/
  | onlyOperator
  /-- "operator request limit reached" -/
  | limitReached
  /-- "operator request does not exist" -/
  | doesNotExist
  /-- "operator request revision changed; use its latest presented revision" -/
  | revisionChanged
  /-- "operator request is withdrawn" -/
  | withdrawn
  /-- What opening the lock says. -/
  | lock
  /-- "inherited operator request ledger is missing" -/
  | inheritedMissing
  /-- "read operator requests: " -/
  | read (cause : ReadError)
  /-- "operator request ledger contains invalid Unicode" -/
  | unicode
  /-- What the JSON decoder says, behind the ledger too. -/
  | json
  /-- "malformed operator request ledger" -/
  | malformedLedger
  /-- "malformed operator request history" -/
  | malformedHistory
  /-- "operator request history is not contiguous or follows withdrawal" -/
  | notContiguous
  /-- What `time.Parse` says. -/
  | timestamp
  /-- "invalid operator request attribution" -/
  | attribution
  /-- "implementor attribution requires generation, thread, and turn" -/
  | implementorAttribution
  /-- "invalid operator request actor" -/
  | actor
  /-- "invalid operator request creation" -/
  | creation
  /-- "operator request evidence exceeds its UTF-8 byte limit" -/
  | evidence
  /-- "invalid disposition attribution" -/
  | dispositionAttribution
  /-- "reported completion requires evidence" -/
  | completionEvidence
  /-- "unsupported operator request disposition" -/
  | disposition
  /-- "invalid operator request decision" -/
  | decision
  /-- "withdrawal cannot verify a report" -/
  | withdrawalVerifies
  /-- "verification must reference an earlier report" -/
  | verificationEarlier
  /-- "verification must reference a completion report in this run" -/
  | verificationReport
  /-- "unsupported operator request history action" -/
  | action
  /-- "operator request ledger revision does not match its history" -/
  | ledgerRevision
  /-- "operator request history exceeds 16 MiB" -/
  | tooLarge
  /-- What an operation on files says. -/
  | persist
  /-- "unexpected operator request inheritance record" -/
  | unexpectedInheritance
  /-- "operator request attribution has an unknown run" -/
  | unknownRun
  /-- "read inherited operator requests: " -/
  | readInherited (cause : ReadError)
  /-- "operator request inheritance identity differs" -/
  | inheritanceIdentity
  /-- "inherited operator request history was altered" -/
  | inheritedAltered
  /-- "new request history has foreign attribution" -/
  | foreignAttribution
  deriving DecidableEq

/-- What other packages do. -/
structure Library where
  /-- `time.Parse` accepts a text for the layout `time.RFC3339Nano`. -/
  parsesTime : Bytes → Bool
  /-- `sha256.Sum256`. -/
  sha256 : Bytes → Bytes
  /-- A time is written in ASCII. -/
  time_ascii : ∀ text, parsesTime text = true → ∀ byte ∈ text, byte < 0x80

/-! ### Validation -/

/-- Whether a text is refused. -/
def refused (text : Bytes) (limit : ℕ) : Bool :=
  utf8Valid text = false ∨ trimSpace text = [] ∨ text.length > limit

def operatorRequestText (text : Bytes) (limit : ℕ) (field : Bytes) : Except LedgerError Unit :=
  failIf (refused text limit) (.text field limit)

def validateOperatorRequestText (title description : Bytes) : Except LedgerError Unit := do
  operatorRequestText title maxOperatorRequestTitleBytes (ascii "title")
  operatorRequestText description maxOperatorRequestTextBytes (ascii "description")

/-- `strings.ToLower` on a byte of ASCII. -/
def lowerByte (byte : UInt8) : UInt8 := if 0x41 ≤ byte ∧ byte ≤ 0x5a then byte + 0x20 else byte

/-- `operatorRunIDValid`: sixteen bytes in hexadecimal, in lower case. -/
def operatorRunIDValid (value : Bytes) : Bool :=
  value.all (fun byte => (hexValue byte).isSome) ∧ value.length = 2 * 16 ∧
    value.map lowerByte = value

/-- The checks of `validateOperatorRequests` on the actor of an entry. -/
def validateActor (a : OperatorRequestActor) : Except LedgerError Unit := do
  failIf (operatorRunIDValid a.runID = false ∨ refused a.name 256) .attribution
  if a.role = ascii "implementor" then
    failIf (a.generation = none ∨ refused a.threadID 256 ∨ refused a.turnID 256)
      .implementorAttribution
  else failIf (a.role ≠ ascii "operator" ∨ a.threadID ≠ [] ∨ a.turnID ≠ []) .actor

/-- The checks on an entry that reports a disposition. -/
def validateDisposition (entry : OperatorRequestRevision) : Except LedgerError Unit := do
  failIf (entry.actor.role ≠ ascii "implementor" ∨ entry.reportRevision ≠ 0) .dispositionAttribution
  if entry.disposition = ascii "completed" then
    failIf (refused entry.evidence maxOperatorRequestEvidenceBytes) .completionEvidence
  else failIf (entry.disposition ≠ ascii "pursuing" ∧ entry.disposition ≠ ascii "deferred" ∧
    entry.disposition ≠ ascii "declined") .disposition

/-- A report of completion by a run. -/
def isCompletionReport (runID : Bytes) (report : OperatorRequestRevision) : Bool :=
  report.action = ascii "disposition" ∧ report.disposition = ascii "completed" ∧
    report.actor.runID = runID

/-- The checks on an entry that withdraws or verifies. -/
def validateDecision (history : List OperatorRequestRevision) (entry : OperatorRequestRevision) :
    Except LedgerError Unit := do
  failIf (entry.actor.role ≠ ascii "operator" ∨ entry.disposition ≠ [] ∨ entry.evidence ≠ [])
    .decision
  if entry.action = ascii "withdraw" then failIf (entry.reportRevision ≠ 0) .withdrawalVerifies
  else do
    failIf (entry.reportRevision = 0 ∨ entry.reportRevision ≥ entry.revision) .verificationEarlier
    failIf ((history[entry.reportRevision.toNat - 1]?).any (isCompletionReport entry.actor.runID) =
      false) .verificationReport

/-- The body of the loop of `validateOperatorRequests` over a history; the flag says that the
request has been withdrawn. -/
def validateEntry (lib : Library) (history : List OperatorRequestRevision) (withdrawn : Bool)
    (pair : OperatorRequestRevision × ℕ) : Except LedgerError Bool := do
  let (entry, i) := pair
  failIf (withdrawn ∨ entry.revision ≠ UInt64.ofNat i + 1) .notContiguous
  failIf (lib.parsesTime entry.timestamp = false) .timestamp
  validateActor entry.actor
  if i = 0 then do
    failIf (entry.action ≠ ascii "create" ∨ entry.actor.role ≠ ascii "operator" ∨
      entry.explanation ≠ [] ∨ entry.disposition ≠ [] ∨ entry.evidence ≠ [] ∨
      entry.reportRevision ≠ 0) .creation
    return withdrawn
  else do
    operatorRequestText entry.explanation maxOperatorRequestTextBytes (ascii "explanation")
    failIf (utf8Valid entry.evidence = false ∨
      entry.evidence.length > maxOperatorRequestEvidenceBytes) .evidence
    if entry.action = ascii "disposition" then do
      validateDisposition entry
      return withdrawn
    else if entry.action = ascii "withdraw" ∨ entry.action = ascii "verify" then do
      validateDecision history entry
      return entry.action = ascii "withdraw"
    else .error .action

/-- The body of the loop of `validateOperatorRequests` over the requests, which adds up the
lengths of the histories. -/
def validateRequest (lib : Library) (revisions : UInt64) (pair : OperatorRequest × ℕ) :
    Except LedgerError UInt64 := do
  let (request, index) := pair
  failIf (request.id ≠ UInt64.ofNat index + 1 ∨ request.history.length = 0 ∨
    request.history.length > 4096) .malformedHistory
  validateOperatorRequestText request.title request.description
  let _ ← request.history.zipIdx.foldlM (validateEntry lib request.history) false
  return revisions + UInt64.ofNat request.history.length

def validateOperatorRequests (lib : Library) (ledger : OperatorRequestLedger) :
    Except LedgerError Unit := do
  failIf (ledger.schemaVersion ≠ 1 ∨ operatorRunIDValid ledger.runID = false ∨
    ledger.requests = none ∨ ledger.all.length > maxOperatorRequests) .malformedLedger
  let revisions ← ledger.all.zipIdx.foldlM (validateRequest lib) 0
  failIf (ledger.revision ≠ revisions) .ledgerRevision

/-! ### The file -/

/-- The members of an actor. -/
def actorParts : List (Member OperatorRequestActor) :=
  [.of (ascii "role") .string (·.role) fun x a => { a with role := x },
    .of (ascii "name") .string (·.name) fun x a => { a with name := x },
    .of (ascii "run_id") .string (·.runID) fun x a => { a with runID := x },
    .of (ascii "generation") Codec.uint64.pointer.omitEmpty (·.generation)
      fun x a => { a with generation := x },
    .of (ascii "thread_id") Codec.string.omitEmpty (·.threadID) fun x a => { a with threadID := x },
    .of (ascii "turn_id") Codec.string.omitEmpty (·.turnID) fun x a => { a with turnID := x }]

def actorCodec : Codec OperatorRequestActor := .struct true actorParts ⟨[], [], [], none, [], []⟩

/-- The members of an entry. -/
def revisionParts : List (Member OperatorRequestRevision) :=
  [.of (ascii "revision") .uint64 (·.revision) fun x e => { e with revision := x },
    .of (ascii "action") .string (·.action) fun x e => { e with action := x },
    .of (ascii "actor") actorCodec (·.actor) fun x e => { e with actor := x },
    .of (ascii "timestamp") .string (·.timestamp) fun x e => { e with timestamp := x },
    .of (ascii "disposition") Codec.string.omitEmpty (·.disposition)
      fun x e => { e with disposition := x },
    .of (ascii "explanation") Codec.string.omitEmpty (·.explanation)
      fun x e => { e with explanation := x },
    .of (ascii "evidence") Codec.string.omitEmpty (·.evidence) fun x e => { e with evidence := x },
    .of (ascii "report_revision") Codec.uint64.omitEmpty (·.reportRevision)
      fun x e => { e with reportRevision := x }]

def revisionCodec : Codec OperatorRequestRevision :=
  .struct true revisionParts ⟨0, [], actorCodec.zero, [], [], [], [], 0⟩

/-- The members of a request. -/
def requestParts : List (Member OperatorRequest) :=
  [.of (ascii "id") .uint64 (·.id) fun x r => { r with id := x },
    .of (ascii "title") .string (·.title) fun x r => { r with title := x },
    .of (ascii "description") .string (·.description) fun x r => { r with description := x },
    .of (ascii "history") revisionCodec.list (·.history) fun x r => { r with history := x }]

def requestCodec : Codec OperatorRequest := .struct true requestParts ⟨0, [], [], []⟩

/-- The members of an inheritance. -/
def inheritanceParts : List (Member OperatorRequestInheritance) :=
  [.of (ascii "run_id") .string (·.runID) fun x i => { i with runID := x },
    .of (ascii "generation") .uint64 (·.generation) fun x i => { i with generation := x },
    .of (ascii "sha256") .string (·.sha256) fun x i => { i with sha256 := x }]

def inheritanceCodec : Codec OperatorRequestInheritance := .struct true inheritanceParts ⟨[], 0, []⟩

/-- The members of a ledger. -/
def ledgerParts : List (Member OperatorRequestLedger) :=
  [.of (ascii "schema_version") .int (·.schemaVersion) fun x l => { l with schemaVersion := x },
    .of (ascii "run_id") .string (·.runID) fun x l => { l with runID := x },
    .of (ascii "revision") .uint64 (·.revision) fun x l => { l with revision := x },
    .of (ascii "inherited") inheritanceCodec.pointer.omitEmpty (·.inherited)
      fun x l => { l with inherited := x },
    .of (ascii "requests") requestCodec.slice (·.requests) fun x l => { l with requests := x }]

def ledgerCodec : Codec OperatorRequestLedger := .struct true ledgerParts ⟨0, [], 0, none, none⟩

/-- A ledger as a value of JSON. -/
def OperatorRequestLedger.json (ledger : OperatorRequestLedger) : Value :=
  .object (structMembers ledgerParts ledger)

/-- `json.MarshalIndent` of a ledger. -/
def encodeLedger (ledger : OperatorRequestLedger) : Bytes :=
  print (escape true) indented 0 ledger.json

def decodeOperatorRequests (lib : Library) (data : Bytes) :
    Except LedgerError OperatorRequestLedger := do
  failIf (utf8Valid data = false ∨ validJSONStringSurrogates data = false) .unicode
  match first data with
  | none => .error .json
  | some (value, rest) =>
    match ledgerCodec.into value ledgerCodec.zero with
    | none => .error .json
    | some ledger => do
      failIf (skipBlank rest ≠ []) .json
      validateOperatorRequests lib ledger
      return ledger

/-! ### The files of a run -/

/-- `hex.EncodeToString`. -/
def hexEncode (bytes : Bytes) : Bytes :=
  bytes.flatMap fun byte => [hexDigit (byte.toNat / 16), hexDigit (byte.toNat % 16)]

/-- `crossRunBytesIdentity`, its digest. -/
def bytesSHA256 (lib : Library) (data : Bytes) : Bytes := hexEncode (lib.sha256 data)

/-- The entries of a request behind the given number were made by the run. -/
def attributed (runID : Bytes) (start : ℕ) (request : OperatorRequest) : Bool :=
  (request.history.drop start).all fun entry => entry.actor.runID = runID

/-- The body of the loop of `validateOperatorInheritance` over the requests. -/
def validateInherited (parent : List OperatorRequest) (runID : Bytes)
    (pair : OperatorRequest × ℕ) : Except LedgerError Unit :=
  match parent[pair.2]? with
  | none => failIf (attributed runID 0 pair.1 = false) .foreignAttribution
  | some original => do
    failIf (pair.1.title ≠ original.title ∨ pair.1.description ≠ original.description ∨
      ¬original.history <+: pair.1.history) .inheritedAltered
    failIf (attributed runID original.history.length pair.1 = false) .foreignAttribution

def validateOperatorInheritance (lib : Library) (run : Directory)
    (ledger : OperatorRequestLedger) : Except LedgerError Unit :=
  let data := readRegular (run.entry inheritedOperatorRequestsFilename) maxOperatorLedgerBytes
  match ledger.inherited with
  | none => do
    failIf (run.entry inheritedOperatorRequestsFilename).isSome .unexpectedInheritance
    failIf (ledger.all.all (attributed ledger.runID 0) = false) .unknownRun
  | some inherited => do
    let data ← data.mapError .readInherited
    let parent ← decodeOperatorRequests lib data
    failIf (parent.runID ≠ inherited.runID ∨ parent.runID = ledger.runID ∨
      bytesSHA256 lib data ≠ inherited.sha256 ∨ ledger.all.length < parent.all.length)
      .inheritanceIdentity
    ledger.all.zipIdx.forM (validateInherited parent.all ledger.runID)

def readOperatorRequests (lib : Library) (run : Directory) :
    Except LedgerError OperatorRequestLedger :=
  match readRegular (run.entry operatorRequestsFilename) maxOperatorLedgerBytes with
  | .error .notExist => do
    failIf (run.entry inheritedOperatorRequestsFilename).isSome .inheritedMissing
    return ⟨1, [], 0, none, some []⟩
  | .error cause => .error (.read cause)
  | .ok data => do
    let ledger ← decodeOperatorRequests lib data
    validateOperatorInheritance lib run ledger
    return ledger

/-- Where operations on files fail, if anywhere. -/
inductive Fault
  | none
  /-- Before the new file has its name. -/
  | unpublished
  /-- Behind that: the directory is not synced. -/
  | unsynced

/-- `writeOperatorRequests`: what the run directory holds afterwards, and what is returned. -/
def writeOperatorRequests (lib : Library) (fault : Fault) (run : Directory)
    (ledger : OperatorRequestLedger) : Directory × Except LedgerError Unit :=
  match validateOperatorRequests lib ledger with
  | .error error => (run, .error error)
  | .ok () =>
    let data := encodeLedger ledger ++ [0x0a]
    if data.length > maxOperatorLedgerBytes then (run, .error .tooLarge)
    else
      match fault with
      | .none => (run.put operatorRequestsFilename (.file data), .ok ())
      | .unpublished => (run, .error .persist)
      | .unsynced => (run.put operatorRequestsFilename (.file data), .error .persist)

/-! ### The operations -/

/-- What a call gets from its surroundings: the time, sixteen random bytes and the faults. -/
structure Surroundings where
  now : Bytes
  random : Bytes
  fault : Fault

def newOperatorRunID (random : Bytes) : Bytes := hexEncode random

/-- The update of `Create`. -/
def createRequest (actor : OperatorRequestActor) (title description now : Bytes)
    (ledger : OperatorRequestLedger) :
    Except LedgerError (OperatorRequestLedger × OperatorRequest) := do
  failIf (ledger.all.length ≥ maxOperatorRequests) .limitReached
  let request : OperatorRequest :=
    { id := UInt64.ofNat ledger.all.length + 1
      title := title
      description := description
      history := [⟨1, ascii "create", { actor with runID := ledger.runID }, now, [], [], [], 0⟩] }
  return ({ ledger with
    requests := some (ledger.all ++ [request])
    revision := ledger.revision + 1 }, request)

/-- The entry that `Append` writes: it belongs to the run, follows the revision that the caller
expects and has the given time. -/
def completeEntry (ledger : OperatorRequestLedger) (expected : UInt64) (timestamp : Bytes)
    (entry : OperatorRequestRevision) : OperatorRequestRevision :=
  { entry with
    actor := { entry.actor with runID := ledger.runID }
    revision := expected + 1
    timestamp := timestamp }

/-- The update of `Append`. -/
def appendRevision (id expected : UInt64) (entry : OperatorRequestRevision) (now : Bytes)
    (ledger : OperatorRequestLedger) :
    Except LedgerError (OperatorRequestLedger × OperatorRequest) :=
  match if id = 0 then none else ledger.all[id.toNat - 1]? with
  | none => .error .doesNotExist
  | some request =>
    match request.history.getLast? with
    -- a ledger that was read has no empty history
    | none => .error .doesNotExist
    | some last =>
      -- a repeated last write
      if completeEntry ledger expected last.timestamp entry = last then .ok (ledger, request)
      else do
        failIf (expected ≠ request.revision) .revisionChanged
        failIf (request.active = false) .withdrawn
        let request := { request with
          history := request.history ++ [completeEntry ledger expected now entry] }
        return ({ ledger with
          requests := some (ledger.all.set (id.toNat - 1) request)
          revision := ledger.revision + 1 }, request)

/-- The lock is opened, and made where it is missing. -/
def openLock (run : Directory) : Option Directory :=
  match run.entry operatorRequestsLock with
  | none => some (run.put operatorRequestsLock (.file []))
  | some (.file _) | some .special => some run
  | some _ => none

/-- `change`: what the run directory holds afterwards, and what is returned. -/
def change (lib : Library) (env : Surroundings)
    (update : OperatorRequestLedger → Except LedgerError (OperatorRequestLedger × OperatorRequest))
    (run : Directory) : Directory × Except LedgerError OperatorRequest :=
  match openLock run with
  | none => (run, .error .lock)
  | some run =>
    match readOperatorRequests lib run with
    | .error error => (run, .error error)
    | .ok ledger =>
      let ledger := if ledger.runID = [] then
        { ledger with runID := newOperatorRunID env.random } else ledger
      match update ledger with
      | .error error => (run, .error error)
      | .ok (ledger, request) =>
        let written := writeOperatorRequests lib env.fault run ledger
        (written.1, written.2.map fun _ => request)

/-- A call on a ledger, by whichever owner. -/
inductive LedgerCall
  | create (actor : OperatorRequestActor) (title description : Bytes)
  | append (id expected : UInt64) (entry : OperatorRequestRevision)

/-- `Create` and `Append`. -/
def perform (lib : Library) (env : Surroundings) (call : LedgerCall) (run : Directory) :
    Directory × Except LedgerError OperatorRequest :=
  match call with
  | .create actor title description =>
    match validateOperatorRequestText title description with
    | .error error => (run, .error error)
    | .ok () =>
      if actor.role ≠ ascii "operator" then (run, .error .onlyOperator)
      else change lib env (createRequest actor title description env.now) run
  | .append id expected entry => change lib env (appendRevision id expected entry env.now) run

/-- The run directory after a sequence of calls. -/
def performAll (lib : Library) (run : Directory) (calls : List (Surroundings × LedgerCall)) :
    Directory :=
  calls.foldl (fun run call => (perform lib call.1 call.2 run).1) run

/-! ### Inheritance -/

/-- `inheritOperatorRequests`, operations on files succeeding: what the destination holds
afterwards. -/
def inheritOperatorRequests (lib : Library) (random : Bytes) (source destination : Directory)
    (generation : UInt64) : Except LedgerError Directory := do
  let ledger ← readOperatorRequests lib source
  if ledger.runID = [] then return destination
  else
    let data := encodeLedger ledger
    failIf (destination.entry inheritedOperatorRequestsFilename).isSome .persist
    let destination := destination.put inheritedOperatorRequestsFilename (.file data)
    let written := writeOperatorRequests lib .none destination { ledger with
      inherited := some ⟨ledger.runID, generation, bytesSHA256 lib data⟩
      runID := newOperatorRunID random }
    let _ ← written.2
    return written.1

end Carcer.Store
