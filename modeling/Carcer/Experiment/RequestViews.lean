import Carcer.Experiment.RuntimeHistory
import Carcer.Machine.Logs
import Carcer.Store.LedgerEntries

/-!
# Operator requests, as a generation sees them

`internal/experiment/operator_requests.go`: what the operators of a run ask for, with the reports of
implementors that apply to the generation that is under way or at the gate. A report applies by the
number of its generation: that of the generation that is under way, or that of a completed one among
its ancestors, which the loop finds by walking from archive to archive.

## Main definitions

* `operatorRequestsLocked`: the requests, with the reports that apply
* `ancestry`: the walk over the archives
* `createOperatorRequest`, `withdrawOperatorRequest`, `verifyOperatorRequest`,
  `recordOperatorRequest`: what operators and implementors do
* `Lineage`: the ancestors of a generation

## Main results

* `ancestry_eq`: the walk finds the completed ancestors
* `foldl_viewEvent`: which report and which verification are shown
-/

namespace Carcer.Experiment

open Carcer.Wire Carcer.Disk Carcer.Machine List Option
open Carcer.Store (Library Surroundings OperatorRequest OperatorRequestActor OperatorRequestLedger
  OperatorRequestRevision LedgerError LedgerCall readOperatorRequests)

/-! ### The context -/

structure OperatorRequestView where
  id : UInt64
  title : Bytes
  description : Bytes
  revision : UInt64
  active : Bool
  author : OperatorRequestActor
  report : Option OperatorRequestRevision
  verification : Option OperatorRequestRevision
  deriving DecidableEq

structure OperatorRequestContext where
  runID : Bytes
  ledgerRevision : UInt64
  requests : List OperatorRequestView
  deriving DecidableEq

/-- The errors of this file of the source. -/
inductive RequestsError
  /-- "identify OS request operator: " -/
  | account
  | ledger (cause : LedgerError)
  /-- What reading the metadata of an archive says. -/
  | archive (generation : UInt64)
  /-- "invalid operator request report ancestry" -/
  | ancestry
  /-- "operator request does not exist" -/
  | doesNotExist
  /-- "verification requires the current applicable completion report revision" -/
  | notApplicable
  /-- "operator request reports require the active implementor generation" -/
  | notActive
  deriving DecidableEq

/-- `readArchiveArtifact` of the metadata of a generation, and `parseGenerationMetadata`. -/
def readMetadata (archives : List ArchivedGeneration) (generation : UInt64) :
    Except RequestsError ArchiveMetadata :=
  match archives.find? fun archive => archive.generation = generation with
  | none => .error (.archive generation)
  | some archive =>
    if archive.metadata.WellFormed then .ok archive.metadata else .error (.archive generation)

/-- The loop of `operatorRequestsLocked` over the ancestry, for at most so many rounds; nothing
where it goes on. -/
def ancestry (archives : List ArchivedGeneration) :
    ℕ → Option UInt64 → List UInt64 → Option (Except RequestsError (List UInt64))
  | _, none, eligible => some (.ok eligible)
  | 0, some _, _ => none
  | rounds + 1, some generation, eligible =>
    match readMetadata archives generation with
    | .error error => some (.error error)
    | .ok metadata =>
      let eligible := if metadata.outcome = .completed then eligible ++ [generation] else eligible
      if metadata.parent.any (generation ≤ ·) then some (.error .ancestry)
      else ancestry archives rounds metadata.parent eligible

/-- The generations whose reports apply. -/
def eligibleGenerations (rounds : ℕ) (run : Run) (ledger : OperatorRequestLedger) :
    Option (Except RequestsError (List UInt64)) :=
  match run.process.generationNumber with
  | none => some (.ok [])
  | some number =>
    if ledger.all = [] then some (.ok [])
    else if run.process.active then
      ancestry run.disk.archives rounds run.process.currentParent [number]
    else if run.process.state = .awaitingNextGeneration then
      ancestry run.disk.archives rounds (some number) []
    else ancestry run.disk.archives rounds run.process.currentParent []

/-- A disposition of the run, by a generation whose reports apply. -/
def applies (runID : Bytes) (eligible : List UInt64) (event : OperatorRequestRevision) : Bool :=
  event.action = ascii "disposition" ∧ event.actor.runID = runID ∧
    event.actor.generation.any (· ∈ eligible)

/-- A verification of a report, in the run. -/
def attests (runID : Bytes) (report event : OperatorRequestRevision) : Bool :=
  event.action = ascii "verify" ∧ event.reportRevision = report.revision ∧
    event.actor.runID = runID

/-- The body of the loop of `operatorRequestsLocked` over the history of a request. -/
def viewEvent (runID : Bytes) (eligible : List UInt64) (view : OperatorRequestView)
    (event : OperatorRequestRevision) : OperatorRequestView :=
  let view := if applies runID eligible event then
    { view with report := some event, verification := none } else view
  if view.report.any fun report => attests runID report event then
    { view with verification := some event } else view

/-- The body of the loop over the requests. A ledger that was read has no empty history. -/
def viewRequest (runID : Bytes) (eligible : List UInt64) (request : OperatorRequest) :
    OperatorRequestView :=
  request.history.foldl (viewEvent runID eligible)
    ⟨request.id, request.title, request.description, request.revision, request.active,
      request.history.head?.elim ⟨[], [], [], none, [], []⟩ OperatorRequestRevision.actor,
      none, none⟩

/-- `operatorRequestsLocked`, where the loop over the ancestry has so many rounds; nothing where it
needs more. -/
def operatorRequestsLocked (lib : Library) (rounds : ℕ) (run : Run) (directory : Directory) :
    Option (Except RequestsError OperatorRequestContext) :=
  match readOperatorRequests lib directory with
  | .error error => some (.error (.ledger error))
  | .ok ledger =>
    (eligibleGenerations rounds run ledger).map fun eligible => do
      let eligible ← eligible
      return ⟨ledger.runID, ledger.revision, ledger.all.map (viewRequest ledger.runID eligible)⟩

/-! ### What operators and implementors do -/

/-- What the run directory holds afterwards, and what is returned. -/
abbrev Requested : Type := Directory × Except RequestsError OperatorRequest

/-- A call on the ledger. -/
def callLedger (lib : Library) (env : Surroundings) (call : LedgerCall) (directory : Directory) :
    Requested :=
  let called := Store.perform lib env call directory
  (called.1, called.2.mapError .ledger)

/-- `operatorRequestActorLocked`, with the name of the account, if it is found. -/
def operatorRequestActorLocked (account : Option Bytes) (process : CodexOSRun) :
    Except RequestsError OperatorRequestActor :=
  match account with
  | none => .error .account
  | some name => .ok ⟨ascii "operator", name, [], process.generationNumber, [], []⟩

def createOperatorRequest (lib : Library) (env : Surroundings) (account : Option Bytes)
    (title description : Bytes) (process : CodexOSRun) (directory : Directory) : Requested :=
  match operatorRequestActorLocked account process with
  | .error error => (directory, .error error)
  | .ok actor => callLedger lib env (.create actor title description) directory

def operatorRequest (lib : Library) (directory : Directory) (id : UInt64) :
    Except RequestsError OperatorRequest := do
  let ledger ← (readOperatorRequests lib directory).mapError .ledger
  match ledger.find id with
  | none => .error .doesNotExist
  | some request => return request

def withdrawOperatorRequest (lib : Library) (env : Surroundings) (account : Option Bytes)
    (id : UInt64) (reason : Bytes) (process : CodexOSRun) (directory : Directory) : Requested :=
  let found : Except RequestsError (OperatorRequestActor × OperatorRequest) := do
    let actor ← operatorRequestActorLocked account process
    let request ← operatorRequest lib directory id
    return (actor, request)
  match found with
  | .error error => (directory, .error error)
  | .ok (actor, request) =>
    callLedger lib env (.append id request.revision
      ⟨0, ascii "withdraw", actor, [], [], reason, [], 0⟩) directory

/-- A generation has one number of 64 bits, and every round of the walk goes to a lower one. -/
def maxRounds : ℕ := 2 ^ 64

/-- The report of a request that may be verified. -/
def verifiable (id revision : UInt64) (view : OperatorRequestView) : Bool :=
  view.id = id ∧ view.active ∧ view.report.any fun report =>
    report.disposition = ascii "completed" ∧ report.revision = revision

def verifyOperatorRequest (lib : Library) (env : Surroundings) (account : Option Bytes)
    (id revision : UInt64) (note : Bytes) (run : Run) (directory : Directory) : Requested :=
  match operatorRequestActorLocked account run.process,
    operatorRequestsLocked lib maxRounds run directory with
  | .error error, _ => (directory, .error error)
  | _, some (.error error) => (directory, .error error)
  | .ok actor, some (.ok context) =>
    match context.requests.find? (verifiable id revision) with
    | none => (directory, .error .notApplicable)
    | some view =>
      callLedger lib env (.append id view.revision
        ⟨0, ascii "verify", actor, [], [], note, [], revision⟩) directory
  -- the walk ends before that
  | _, none => (directory, .error .ancestry)

def recordOperatorRequest (lib : Library) (env : Surroundings) (id revision : UInt64)
    (actor : OperatorRequestActor) (disposition explanation evidence : Bytes)
    (process : CodexOSRun) (directory : Directory) : Requested :=
  if process.transitioning ∨ process.state ≠ .running ∨ process.generationNumber = none ∨
      actor.generation ≠ process.generationNumber ∨ actor.role ≠ ascii "implementor" then
    (directory, .error .notActive)
  else
    callLedger lib env (.append id revision
      ⟨0, ascii "disposition", actor, [], disposition, explanation, evidence, 0⟩) directory

/-- What an operator does leaves the directory as it was, or is a call on the ledger that writes
entries of one action. -/
def Calls (lib : Library) (action : Bytes) (directory after : Directory) : Prop :=
  after = directory ∨ ∃ env call, after = (Store.perform lib env call directory).1 ∧
    ∀ id entry, LedgerCall.Writes id entry call → entry.action = action

section Operators

variable (lib : Library) (env : Surroundings) (account : Option Bytes) (directory : Directory)

theorem createOperatorRequest_calls (title description : Bytes) (process : CodexOSRun) :
    Calls lib (ascii "create") directory
      (createOperatorRequest lib env account title description process directory).1 := by
  rw [createOperatorRequest]
  split
  · exact .inl rfl
  · exact .inr ⟨env, _, rfl, fun _ _ hwrites => hwrites⟩

theorem withdrawOperatorRequest_calls (id : UInt64) (reason : Bytes) (process : CodexOSRun) :
    Calls lib (ascii "withdraw") directory
      (withdrawOperatorRequest lib env account id reason process directory).1 := by
  unfold withdrawOperatorRequest
  dsimp only
  split
  · exact .inl rfl
  · exact .inr ⟨env, _, rfl, fun _ _ hwrites => hwrites.2.1⟩

theorem verifyOperatorRequest_calls (id revision : UInt64) (note : Bytes) (run : Run) :
    Calls lib (ascii "verify") directory
      (verifyOperatorRequest lib env account id revision note run directory).1 := by
  unfold verifyOperatorRequest
  split
  iterate 2 exact .inl rfl
  · split
    · exact .inl rfl
    · exact .inr ⟨env, _, rfl, fun _ _ hwrites => hwrites.2.1⟩
  · exact .inl rfl

end Operators

/-! ### The walk -/

/-- **The ancestors of a generation**, from the one that the walk begins with. -/
inductive Lineage (archives : List ArchivedGeneration) : Option UInt64 → UInt64 → Prop
  | head (generation : UInt64) : Lineage archives (some generation) generation
  | parent {generation ancestor : UInt64} {archive : ArchivedGeneration}
      (mem : archive ∈ archives) (number : archive.generation = generation)
      (rest : Lineage archives archive.metadata.parent ancestor) :
      Lineage archives (some generation) ancestor

/-- A generation was completed. -/
def Completed (archives : List ArchivedGeneration) (generation : UInt64) : Prop :=
  ∃ archive ∈ archives, archive.generation = generation ∧ archive.metadata.outcome = .completed

section Walk

variable {run : Run}

theorem wellFormed_of_readable {archive}
    (h : readArchivedGeneration archive = .ok ()) : archive.metadata.WellFormed := by
  obtain ⟨_, -, h⟩ := bind_eq_ok.mp h
  obtain ⟨_, hwellFormed, -⟩ := bind_eq_ok.mp h
  simpa using hwellFormed

/-- The parent of an archive is an archive, of a lower number. -/
theorem Sound.parent (h : Sound run) {archive} (harchive : archive ∈ run.disk.archives)
    {parent : UInt64} (hparent : archive.metadata.parent = some parent) :
    parent < archive.generation ∧ ∃ other ∈ run.disk.archives, other.generation = parent := by
  have hwellFormed := wellFormed_of_readable (h.readable archive harchive)
  obtain ⟨before, after, hsplit⟩ := append_of_mem harchive
  have hextends := h.history (before.map ArchivedGeneration.metadata) archive.metadata
    (after.map ArchivedGeneration.metadata) (by rw [hsplit]; simp)
  refine ⟨?_, ?_⟩
  · unfold ArchiveMetadata.WellFormed at hwellFormed
    split_ifs at hwellFormed
    · rw [hwellFormed.1] at hparent
      cases hparent
    obtain ⟨⟨lower, hlower, hlt⟩, -⟩ := hwellFormed
    obtain rfl := Option.mem_unique hlower hparent
    exact hlt
  · rcases hextends.ancestry with ⟨-, hnone, -⟩ | ⟨i, found, hi, hfound, -, -⟩
    · rw [hnone] at hparent
      cases hparent
    · rw [getElem?_map] at hi
      obtain ⟨other, hother, rfl⟩ := map_eq_some_iff.mp hi
      refine ⟨other, ?_, Option.mem_unique hfound hparent⟩
      rw [hsplit]
      exact mem_append_left _ (mem_of_getElem? hother)

theorem Sound.readMetadata (h : Sound run) {archive} (harchive : archive ∈ run.disk.archives) :
    readMetadata run.disk.archives archive.generation = .ok archive.metadata := by
  have hsome : (run.disk.archives.find? fun other =>
      other.generation = archive.generation).isSome := by
    rw [find?_isSome]
    exact ⟨archive, harchive, by simp⟩
  obtain ⟨found, hfound⟩ := isSome_iff_exists.mp hsome
  obtain rfl : found = archive := h.eq_of_generation (mem_of_find?_eq_some hfound) harchive
    (by simpa using find?_some hfound)
  rw [Experiment.readMetadata, hfound]
  exact if_pos (wellFormed_of_readable (h.readable found harchive))

/-- **The walk finds the completed ancestors.** -/
theorem ancestry_eq (h : Sound run) {head : Option UInt64}
    (hhead : ∀ generation ∈ head, ∃ archive ∈ run.disk.archives, archive.generation = generation)
    (eligible : List UInt64) :
    ∃ found, (∀ rounds, (∀ generation ∈ head, generation.toNat < rounds) →
        ancestry run.disk.archives rounds head eligible = some (.ok (eligible ++ found))) ∧
      ∀ generation, generation ∈ found ↔
        Lineage run.disk.archives head generation ∧ Completed run.disk.archives generation := by
  rcases head with _ | generation
  · refine ⟨[], fun rounds _ => ?_,
      fun generation => ⟨nofun, fun ⟨hlineage, _⟩ => nomatch hlineage⟩⟩
    rw [append_nil]
    cases rounds <;> rfl
  -- by the number of the generation, since the parent has a lower one
  obtain ⟨n, hn⟩ : ∃ n, generation.toNat = n := ⟨_, rfl⟩
  induction n using Nat.strong_induction_on generalizing generation eligible with
  | _ n ih =>
    subst hn
    obtain ⟨archive, harchive, rfl⟩ := hhead generation rfl
    have hread := h.readMetadata harchive
    have hstep (rounds : ℕ) : ancestry run.disk.archives (rounds + 1) (some archive.generation)
        eligible = ancestry run.disk.archives rounds archive.metadata.parent (eligible ++
          if archive.metadata.outcome = .completed then [archive.generation] else []) := by
      have hlower : ¬ archive.metadata.parent.any (archive.generation ≤ ·) = true := by
        cases hparent : archive.metadata.parent with
        | none => exact Bool.false_ne_true
        | some parent => simpa using (h.parent harchive hparent).1
      rw [ancestry, hread]
      dsimp only
      rw [if_neg hlower]
      congr 1
      split_ifs
      · rfl
      · rw [append_nil]
    have hself : archive.metadata.outcome = .completed ↔
        Completed run.disk.archives archive.generation := by
      refine ⟨fun hcompleted => ⟨archive, harchive, rfl, hcompleted⟩, ?_⟩
      rintro ⟨other, hother, heq, hcompleted⟩
      rw [h.eq_of_generation harchive hother heq.symm]
      exact hcompleted
    obtain ⟨found, hwalk, hfound⟩ : ∃ found, (∀ rounds,
        (∀ parent ∈ archive.metadata.parent, parent.toNat < rounds) →
        ancestry run.disk.archives rounds archive.metadata.parent (eligible ++
          if archive.metadata.outcome = .completed then [archive.generation] else []) =
          some (.ok ((eligible ++ if archive.metadata.outcome = .completed then
            [archive.generation] else []) ++ found))) ∧
        ∀ generation, generation ∈ found ↔
          Lineage run.disk.archives archive.metadata.parent generation ∧
            Completed run.disk.archives generation := by
      cases hparent : archive.metadata.parent with
      | none =>
        refine ⟨[], fun rounds _ => ?_, fun generation => ⟨nofun, fun ⟨hlineage, _⟩ =>
          nomatch hlineage⟩⟩
        rw [append_nil]
        cases rounds <;> rfl
      | some parent =>
        obtain ⟨hlt, hmem⟩ := h.parent harchive hparent
        exact ih parent.toNat (UInt64.lt_iff_toNat_lt.mp hlt) _ parent
          (fun generation hgeneration => by
            cases hgeneration
            exact hmem) rfl
    refine ⟨(if archive.metadata.outcome = .completed then [archive.generation] else []) ++ found,
      fun rounds hrounds => ?_, fun generation => ?_⟩
    · obtain ⟨rounds, rfl⟩ : ∃ before, rounds = before + 1 :=
        Nat.exists_eq_add_one.mpr (Nat.zero_lt_of_lt (hrounds _ rfl))
      rw [hstep, hwalk rounds ?_, append_assoc]
      intro parent hparent
      have hlt := UInt64.lt_iff_toNat_lt.mp (h.parent harchive hparent).1
      have hbound := hrounds archive.generation rfl
      omega
    · rw [mem_append, hfound]
      constructor
      · rintro (hmem | ⟨hlineage, hcompleted⟩)
        · split_ifs at hmem with hcompleted
          · obtain rfl := mem_singleton.mp hmem
            exact ⟨.head _, hself.mp hcompleted⟩
          · cases hmem
        · exact ⟨.parent harchive rfl hlineage, hcompleted⟩
      · rintro ⟨hlineage, hcompleted⟩
        cases hlineage with
        | head =>
          rw [if_pos (hself.mpr hcompleted)]
          exact .inl (mem_singleton_self _)
        | parent hmem hnumber hrest =>
          rw [h.eq_of_generation hmem harchive hnumber] at hrest
          exact .inr ⟨hrest, hcompleted⟩

end Walk

/-! ### The view of a request -/

section View

variable {runID : Bytes} {eligible : List UInt64}

/-- The loop over a history changes the report and the verification alone. -/
theorem foldl_viewEvent_frame (history : List OperatorRequestRevision)
    (view : OperatorRequestView) : ∃ report verification,
    history.foldl (viewEvent runID eligible) view =
      { view with report := report, verification := verification } := by
  induction history generalizing view with
  | nil => exact ⟨view.report, view.verification, rfl⟩
  | cons event history ih =>
    obtain ⟨report, verification, hrest⟩ := ih (viewEvent runID eligible view event)
    refine ⟨report, verification, ?_⟩
    rw [foldl_cons, hrest, viewEvent]
    split_ifs <;> rfl

/-- No entry verifies a later one, or itself. -/
def VerifiesEarlier (history : List OperatorRequestRevision) : Prop :=
  ∀ front event back, history = front ++ event :: back →
    ∀ earlier ∈ front, earlier.action = ascii "verify" → earlier.reportRevision ≠ event.revision

theorem VerifiesEarlier.of_concat {history event} (h : VerifiesEarlier (history ++ [event])) :
    VerifiesEarlier history := by
  rintro front other back rfl
  exact h front other (back ++ [event]) (by simp)

theorem not_attests_of_applies {event report : OperatorRequestRevision}
    (h : applies runID eligible event = true) : ¬ attests runID report event = true := by
  simp only [applies, attests, decide_eq_true_eq] at h ⊢
  rintro ⟨haction, -⟩
  rw [h.1] at haction
  revert haction
  decide +kernel

/-- What the loop over a history has found: the latest report that applies, and the latest
verification of that report. -/
theorem foldl_viewEvent (view : OperatorRequestView) (hreport : view.report = none)
    (hverification : view.verification = none) {history} (hearlier : VerifiesEarlier history) :
    (history.foldl (viewEvent runID eligible) view).report =
        latest (fun event => applies runID eligible event = true) history ∧
      (history.foldl (viewEvent runID eligible) view).verification =
        (latest (fun event => applies runID eligible event = true) history).bind fun report =>
          latest (fun event => attests runID report event = true) history := by
  induction history using List.reverseRecOn with
  | nil => exact ⟨hreport, hverification⟩
  | append_singleton history event ih =>
    obtain ⟨hbefore, hbefore'⟩ := ih hearlier.of_concat
    rw [foldl_append, foldl_cons, foldl_nil]
    generalize history.foldl (viewEvent runID eligible) view = found at hbefore hbefore' ⊢
    unfold viewEvent
    by_cases happlies : applies runID eligible event = true
    · -- the report is new, so that nothing verifies it yet
      have hnone : latest (fun other => attests runID event other = true) (history ++ [event]) =
          none := by
        refine latest_eq_none fun other hother => ?_
        rcases mem_append.mp hother with hold | hnew
        · simp only [attests, decide_eq_true_eq]
          rintro ⟨haction, hrevision, -⟩
          exact hearlier history event [] rfl other hold haction hrevision
        · rw [mem_singleton.mp hnew]
          exact not_attests_of_applies happlies
      rw [latest_concat_of (p := fun event => applies runID eligible event = true) happlies]
      simp only [happlies, if_true, any_some, not_attests_of_applies happlies,
        Bool.false_eq_true, if_false, bind_some]
      exact ⟨trivial, hnone.symm⟩
    · rw [latest_concat_of_not (p := fun event => applies runID eligible event = true) happlies,
        ← hbefore]
      simp only [happlies, Bool.false_eq_true, if_false]
      cases hfound : found.report with
      | none =>
        rw [← hbefore, hfound] at hbefore'
        simp only [any_none, Bool.false_eq_true, if_false]
        exact ⟨hfound, hbefore'⟩
      | some report =>
        rw [← hbefore, hfound] at hbefore'
        simp only [any_some, bind_some] at hbefore' ⊢
        by_cases hattests : attests runID report event = true
        · rw [if_pos hattests,
            latest_concat_of (p := fun event => attests runID report event = true) hattests]
          exact ⟨rfl, rfl⟩
        rw [if_neg hattests,
          latest_concat_of_not (p := fun event => attests runID report event = true) hattests]
        exact ⟨hfound, hbefore'⟩

end View

end Carcer.Experiment
