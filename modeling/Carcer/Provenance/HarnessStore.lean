import Carcer.Disk.Staging
import Carcer.Provenance.HarnessIdentity
import Carcer.Wire.Numbered

/-!
# The store of harness identities

The records of `internal/provenance/harness_store.go` in the directory of a run: the identity that
the run was created with, one file for each transition to another identity at a quiescent gate, and
one file for each generation that was started. No record is ever replaced: it is staged under a
temporary name and gets its own name by a link.

The directory of the start records is taken as its entries, since the code makes it where there is
none and never asks whether there was one.

## Main definitions

* `HarnessGateTransition`, `decodeHarnessTransition`: a transition and its file
* `HarnessStore`: what stands in the directory of a run
* `readTransitions`, `currentIdentity`, `verifyCurrent`, `prepareGateTransition`: what is read
* `recordCalls`, `recordGateTransition`, `recordGenerationStart`: what is written
-/

namespace Carcer.Provenance

open Carcer.Wire Carcer.Json Carcer.Disk

/-! ### Transitions -/

structure HarnessGateTransition where
  afterGeneration : UInt64
  current : HarnessIdentity
  previous : Option HarnessIdentity
  requiresRecord : Bool
  deriving DecidableEq

/-- The only kind of transition. -/
def transitionKind : Bytes := ascii "quiescent_gate_reopen"

/-- The members of a transition. -/
def transitionMembers (transition : HarnessGateTransition) : List (Bytes × Value) :=
  [(ascii "after_generation", .number (decimal transition.afterGeneration.toNat)),
    (ascii "current", transition.current.asJSON),
    (ascii "previous", (transition.previous.map HarnessIdentity.asJSON).getD .null),
    (ascii "schema_version", .number (decimal harnessIdentitySchemaVersion.toNat)),
    (ascii "transition", .string transitionKind)]

/-- The value that `RecordGateTransition` encodes. -/
def HarnessGateTransition.asJSON (transition : HarnessGateTransition) : Value :=
  .object (transitionMembers transition)

/-- The names of a transition. -/
def transitionNames : List Bytes :=
  [ascii "after_generation", ascii "current", ascii "previous", ascii "schema_version",
    ascii "transition"]

/-- `json.Unmarshal` into a `uint64`. -/
def unmarshalUint (raw : Bytes) : Option UInt64 := (parse raw).bind fun value => intoUint64 value 0

/-- `json.Unmarshal` into a `string`. -/
def unmarshalString (raw : Bytes) : Option Bytes :=
  (parse raw).bind fun value => intoString value []

/-- The generation of a transition whose version and kind are right. -/
def transitionGeneration (fields : List (Bytes × Bytes)) : Except HarnessError UInt64 :=
  match unmarshalUint (rawField fields "schema_version"),
    unmarshalUint (rawField fields "after_generation"),
    unmarshalString (rawField fields "transition") with
  | some schema, some generation, some kind =>
    if schema = harnessIdentitySchemaVersion ∧ kind = transitionKind then .ok generation
    else .error .transition
  | _, _, _ => .error .transition

/-- The previous identity of a transition. The text of a member has no white space around it. -/
def decodePrevious (raw : Bytes) : Except HarnessError (Option HarnessIdentity) :=
  if raw = ascii "null" then .ok none else (parseHarnessIdentity raw).map some

/-- `decodeHarnessTransition`; what stands behind the object is not looked at. -/
def decodeHarnessTransition (encoded : Bytes) : Except HarnessError HarnessGateTransition :=
  match rawObject encoded with
  | none => .error .transition
  | some (fields, _) => do
    failIf (hasExactHarnessFields fields transitionNames = false) .transition
    let generation ← transitionGeneration fields
    let current ← parseHarnessIdentity (rawField fields "current")
    let previous ← decodePrevious (rawField fields "previous")
    return ⟨generation, current, previous, true⟩

/-! ### Reading -/

/-- What the store finds in the directory of a run: `run-harness-identity.json`,
`harness-transitions` and the entries of `harness-generations`. -/
structure HarnessStore where
  run : Option Entry
  transitions : Option Entry
  generations : Directory

def readHarnessRegular (entry : Option Entry) : Except HarnessError Bytes :=
  (readRegular entry harnessIdentityLimit).mapError .read

/-- The identity that the run was created with. -/
def runIdentity (run : Option Entry) : Except HarnessError (Option HarnessIdentity) :=
  match readHarnessRegular run with
  | .ok encoded => (parseHarnessIdentity encoded).map some
  | .error (.read .notExist) => .ok none
  | .error error => .error error

/-- The name of a transition. -/
def transitionFileName (sequence : ℕ) : Bytes :=
  numbered (ascii "transition-") (ascii ".json") 6 sequence

/-- Whether `readTransitions` goes on with an entry of the directory. -/
def isTransitionEntry (pair : Bytes × Entry) : Bool :=
  Entry.isDirectory (some pair.2) = false ∧ ascii "transition-" <+: pair.1 ∧
    ascii ".json" <:+ pair.1

/-- What `readTransitions` asks of a transition behind the one before it. -/
def checkPrior (prior : Option HarnessGateTransition) (transition : HarnessGateTransition) :
    Except HarnessError Unit :=
  match prior with
  | none => .ok ()
  | some prior => do
    failIf (transition.previous.any (·.equal prior.current) = false) .ancestry
    failIf (transition.afterGeneration < prior.afterGeneration) .generationOrder

/-- The body of the loop of `readTransitions`. -/
def readNext (entries : Directory) (transitions : List HarnessGateTransition) (name : Bytes) :
    Except HarnessError (List HarnessGateTransition) := do
  failIf (name ≠ transitionFileName (transitions.length + 1)) .notContiguous
  let encoded ← readHarnessRegular (entries.entry name)
  let transition ← decodeHarnessTransition encoded
  checkPrior transitions.getLast? transition
  return transitions ++ [transition]

/-- What `readTransitions` asks of the first transition. -/
def checkDescent (run : Option Entry) (transitions : List HarnessGateTransition) :
    Except HarnessError Unit :=
  match transitions with
  | [] => .ok ()
  | first :: _ =>
    match runIdentity run with
    | .ok (some identity) => failIf (first.previous.any (·.equal identity) = false) .descent
    | .ok none => failIf (first.previous ≠ none) .legacy
    | .error error => .error error

def readTransitions (store : HarnessStore) : Except HarnessError (List HarnessGateTransition) :=
  match store.transitions with
  | none => .ok []
  | some (.directory entries) => do
    failIf (entries.all isTransitionEntry = false) .historyMalformed
    let transitions ← ((Named.names entries).mergeSort fun a b => decide (a ≤ b)).foldlM
      (readNext entries) []
    checkDescent store.run transitions
    return transitions
  | some _ => .error .unsafeDirectory

def currentIdentity (store : HarnessStore) : Except HarnessError (Option HarnessIdentity) := do
  let transitions ← readTransitions store
  match transitions.getLast? with
  | some last => return some last.current
  | none => runIdentity store.run

def verifyCurrent (store : HarnessStore) (identity : HarnessIdentity) :
    Except HarnessError Unit := do
  validateHarnessIdentity identity
  match ← currentIdentity store with
  | none => .error .unavailable
  | some current => failIf (current.equal identity = false) .mismatch

def prepareGateTransition (store : HarnessStore) (current : HarnessIdentity)
    (afterGeneration : UInt64) : Except HarnessError HarnessGateTransition := do
  validateHarnessIdentity current
  let previous ← currentIdentity store
  return ⟨afterGeneration, current, previous, previous.all fun accepted => !accepted.equal current⟩

/-! ### Writing -/

/-- The temporary name of a record; `CreateTemp` ends it. -/
def harnessTemporary (suffix : Bytes) : Bytes := ascii ".harness-identity-" ++ suffix

/-- What `MkdirAll` finds in the place of the transitions. -/
def openTransitions : Option Entry → Except HarnessError Directory
  | none => .ok []
  | some (.directory entries) => .ok entries
  | some _ => .error .createTransitions

/-- `writeHarnessBytesOnce`: a link does not replace what has the name already. -/
def writeHarnessBytesOnce (entries : Directory) (suffix name encoded : Bytes) :
    Except HarnessError (List Call) :=
  if (entries.entry name).isSome then .error .persist
  else .ok (linked (harnessTemporary suffix) name encoded)

/-- Whether the pending transition starts from the accepted identity. -/
def startsFrom (accepted previous : Option HarnessIdentity) : Bool :=
  match accepted, previous with
  | none, none => true
  | some accepted, some previous => accepted.equal previous
  | _, _ => false

/-- `RecordGateTransition`: the calls that it makes, none where nothing is recorded. The number of
the record is that of the entries of the directory, and one more. -/
def recordCalls (store : HarnessStore) (suffix : Bytes) (transition : HarnessGateTransition) :
    Except HarnessError (List Call) :=
  if transition.requiresRecord = false then .ok []
  else do
    validateHarnessIdentity transition.current
    let accepted ← currentIdentity store
    if accepted.any (·.equal transition.current) then .ok []
    else do
      failIf (startsFrom accepted transition.previous = false) .changed
      let entries ← openTransitions store.transitions
      writeHarnessBytesOnce entries suffix (transitionFileName (entries.length + 1))
        (encodeHarnessJSON transition.asJSON)

def recordGateTransition (store : HarnessStore) (suffix : Bytes)
    (transition : HarnessGateTransition) : Except HarnessError HarnessStore := do
  let calls ← recordCalls store suffix transition
  return { store with transitions := performCalls store.transitions calls }

/-- The name of a start record. -/
def generationName (generation : UInt64) : Bytes :=
  numbered (ascii "generation-") (ascii ".json") 4 generation.toNat

/-- The value that `RecordGenerationStart` encodes. -/
def generationRecord (generation : UInt64) (identity : HarnessIdentity) : Value :=
  .object [(ascii "generation", .number (decimal generation.toNat)),
    (ascii "harness_identity", identity.asJSON),
    (ascii "schema_version", .number (decimal harnessIdentitySchemaVersion.toNat))]

def recordGenerationStart (store : HarnessStore) (suffix : Bytes) (generation : UInt64)
    (identity : HarnessIdentity) : Except HarnessError HarnessStore := do
  validateHarnessIdentity identity
  let encoded := encodeHarnessJSON (generationRecord generation identity)
  match readHarnessRegular (store.generations.entry (generationName generation)) with
  | .ok existing => if existing = encoded then .ok store else .error (.immutable generation)
  | .error (.read .notExist) => do
    let calls ← writeHarnessBytesOnce store.generations suffix (generationName generation) encoded
    return { store with generations := calls.foldl Call.enter store.generations }
  | .error error => .error error

end Carcer.Provenance
