import Carcer.Experiment.RequestViews
import Carcer.Experiment.RuntimeLease

/-!
# Operator requests during a turn

`internal/agent/operator_requests.go`: when a turn is prepared, the session takes the requests of
the operators as they are then. During the turn the implementor lists them and reports on them,
while operators go on to ask, to withdraw and to verify. A call of the implementor has three
sections: it is checked against what is shown, its report is recorded by the runtime, and the report
is shown. The sections of several calls may alternate, and so may those of operators.

## Main definitions

* `Turn`, `prepareOperatorRequests`, `dispatchOperatorRequest`: a turn, and a call of the
  implementor
* `checkReport`, `recordReport`, `showReport`: the sections of a call
* `applyReport`: a report, applied to what the turn was shown
* `TurnSound`: what is known during a turn
* `CallSound`: what recording a report does

## Main results

* `TurnSound.record`, `TurnSound.show`: the sections of a call keep the turn sound
* `operatorRequests_turn`: every turn, and every call in it
-/

namespace Carcer.Agent

open Carcer.Wire Carcer.Disk Carcer.Experiment List
open Carcer.Store (Library Surroundings OperatorRequest OperatorRequestActor OperatorRequestLedger
  OperatorRequestRevision LedgerSound readOperatorRequests Accepted)

/-! ### The source -/

/-- The arguments of `record_operator_request`, decoded. -/
structure Report where
  id : UInt64
  revision : UInt64
  disposition : Bytes
  explanation : Bytes
  evidence : Bytes
  deriving DecidableEq

/-- A turn: the directory of the run, what the session holds of the requests, and the calls under
way, checked or also recorded. Beside it, the reports that were accepted and those that were
shown. -/
structure Turn where
  directory : Directory
  context : OperatorRequestContext
  checked : List Report
  recorded : List (Report × OperatorRequest)
  accepted : List (UInt64 × OperatorRequestRevision)
  shown : List (UInt64 × OperatorRequestRevision)

/-- What the session knows of its implementor. -/
structure Reporter where
  model : Bytes
  generation : UInt64
  threadID : Bytes
  turnID : Bytes

inductive ReportError
  /-- What decoding the arguments says. -/
  | arguments
  /-- "id must be a positive integer" -/
  | id
  /-- "revision must be a positive integer" -/
  | revision
  /-- "request revision was not active in this turn's presented context; use the next supported turn
  boundary for new operator input" -/
  | notPresented
  | runtime (cause : RequestsError)
  deriving DecidableEq

/-- `prepareOperatorRequests`, as far as the session keeps it. -/
def prepareOperatorRequests (lib : Library) (rounds : ℕ) (run : Run) (directory : Directory) :
    Option (Except RequestsError Turn) :=
  (operatorRequestsLocked lib rounds run directory).map fun context =>
    context.map fun context => ⟨directory, context, [], [], [], []⟩

def Reporter.actor (reporter : Reporter) : OperatorRequestActor :=
  ⟨ascii "implementor", reporter.model, [], some reporter.generation, reporter.threadID,
    reporter.turnID⟩

/-- A revision of a request was presented as active. -/
def presented (context : OperatorRequestContext) (report : Report) : Bool :=
  context.requests.any fun view =>
    view.id = report.id ∧ view.active ∧ view.revision = report.revision

/-- What the session shows of a request once it has reported on it. -/
def updatedView (request : OperatorRequest) : OperatorRequestView :=
  ⟨request.id, request.title, request.description, request.revision, request.active,
    request.history.head?.elim ⟨[], [], [], none, [], []⟩ OperatorRequestRevision.actor,
    request.history.getLast?, none⟩

/-- The report is shown in the place of what was presented. -/
def advanceView (context : OperatorRequestContext) (report : Report) (request : OperatorRequest) :
    OperatorRequestContext :=
  { context with
    requests := context.requests.map fun view =>
      if view.id = report.id ∧ view.revision = report.revision then updatedView request else view }

/-- A revision of a request is shown. -/
def showsRevision (context : OperatorRequestContext) (report : Report) : Bool :=
  context.requests.any fun view => view.id = report.id ∧ view.revision = report.revision

/-- The first section of a call. -/
def checkReport (context : OperatorRequestContext) : Option Report → Except ReportError Report
  | none => .error .arguments
  | some report =>
    if report.id = 0 then .error .id
    else if report.revision = 0 then .error .revision
    else if presented context report = false then .error .notPresented
    else .ok report

/-- The second section: the call of the runtime. -/
def recordReport (lib : Library) (env : Surroundings) (process : CodexOSRun) (reporter : Reporter)
    (report : Report) (turn : Turn) : Turn × Except ReportError OperatorRequest :=
  match recordOperatorRequest lib env report.id report.revision reporter.actor
    report.disposition report.explanation report.evidence process turn.directory with
  | (directory, .error error) => ({ turn with directory := directory }, .error (.runtime error))
  | (directory, .ok request) =>
    ({ turn with
        directory := directory
        accepted := turn.accepted ++
          request.history.getLast?.toList.map fun entry => (report.id, entry) }, .ok request)

def showReport (report : Report) (request : OperatorRequest) (turn : Turn) : Turn :=
  { turn with
    context := advanceView turn.context report request
    shown := turn.shown ++ if showsRevision turn.context report then
      request.history.getLast?.toList.map fun entry => (report.id, entry) else [] }

/-- `dispatchOperatorRequest` for `record_operator_request`; `list_operator_requests` returns the
context of the turn. -/
def dispatchOperatorRequest (lib : Library) (env : Surroundings) (process : CodexOSRun)
    (reporter : Reporter) (arguments : Option Report) (turn : Turn) :
    Turn × Except ReportError OperatorRequestView :=
  match checkReport turn.context arguments with
  | .error error => (turn, .error error)
  | .ok report =>
    match recordReport lib env process reporter report turn with
    | (turn, .error error) => (turn, .error error)
    | (turn, .ok request) => (showReport report request turn, .ok (updatedView request))

/-- What happens during a turn; the runtime is as it is then. -/
inductive TurnStep
  | create (env : Surroundings) (account : Option Bytes) (title description : Bytes)
      (process : CodexOSRun)
  | withdraw (env : Surroundings) (account : Option Bytes) (id : UInt64) (reason : Bytes)
      (process : CodexOSRun)
  | verify (env : Surroundings) (account : Option Bytes) (id revision : UInt64) (note : Bytes)
      (run : Run)
  | check (arguments : Option Report)
  | record (env : Surroundings) (process : CodexOSRun) (report : Report)
  | advance (report : Report) (request : OperatorRequest)

def advanceTurn (lib : Library) (reporter : Reporter) (turn : Turn) : TurnStep → Turn
  | .create env account title description process =>
    { turn with directory :=
        (createOperatorRequest lib env account title description process turn.directory).1 }
  | .withdraw env account id reason process =>
    { turn with directory :=
        (withdrawOperatorRequest lib env account id reason process turn.directory).1 }
  | .verify env account id revision note run =>
    { turn with directory :=
        (verifyOperatorRequest lib env account id revision note run turn.directory).1 }
  | .check arguments =>
    { turn with checked := turn.checked ++ (checkReport turn.context arguments).toOption.toList }
  | .record env process report =>
    if report ∈ turn.checked then
      let recorded := recordReport lib env process reporter report turn
      { recorded.1 with
        checked := turn.checked.erase report
        recorded := turn.recorded ++
          recorded.2.toOption.toList.map fun request => (report, request) }
    else turn
  | .advance report request =>
    if (report, request) ∈ turn.recorded then
      { showReport report request turn with
        recorded := turn.recorded.erase (report, request) }
    else turn

def advanceTurns (lib : Library) (reporter : Reporter) (turn : Turn) (steps : List TurnStep) :
    Turn :=
  steps.foldl (advanceTurn lib reporter) turn

/-! ### What should hold -/

/-- **A report, applied to what the turn was shown.** -/
def applyReport (context : OperatorRequestContext) (report : UInt64 × OperatorRequestRevision) :
    OperatorRequestContext :=
  { context with
    requests := context.requests.map fun view =>
      if view.id = report.1 then
        { view with revision := report.2.revision, report := some report.2, verification := none }
      else view }

/-- A report is entered in the ledger, in the place that its revision says, and once. -/
def Entered (ledger : OperatorRequestLedger) (report : UInt64 × OperatorRequestRevision) : Prop :=
  report.2.action = ascii "disposition" ∧
    (ledger.entries report.1)[report.2.revision.toNat - 1]? = some report.2 ∧
    (ledger.entries report.1).count report.2 = 1

/-- A report is the next entry behind the revision that it names, when it was not so before. -/
def EntersBehind (lib : Library) (before after : Directory) (report : Report)
    (entry : OperatorRequestRevision) : Prop :=
  ∃ ledger next front, readOperatorRequests lib before = .ok ledger ∧
    readOperatorRequests lib after = .ok next ∧ entry.revision = report.revision + 1 ∧
    front.length = report.revision.toNat ∧ next.entries report.id = front ++ [entry] ∧
    (ledger.entries report.id = front ∨ ledger.entries report.id = front ++ [entry])

/-- **What recording a report does**: it is refused, and the ledger is not changed, or it is
accepted and entered. Only where the directory is not synced behind the new file, it is refused and
entered. -/
def CallSound (lib : Library) (env : Surroundings) (turn : Turn) (report : Report)
    (recorded : Turn × Except ReportError OperatorRequest) : Prop :=
  recorded.1 = { turn with
    directory := recorded.1.directory
    accepted := recorded.1.accepted } ∧
  ((∃ error, recorded.2 = .error error ∧ recorded.1.accepted = turn.accepted ∧
    (readOperatorRequests lib recorded.1.directory = readOperatorRequests lib turn.directory ∨
      env.fault = .unsynced ∧
        ∃ entry, EntersBehind lib turn.directory recorded.1.directory report entry)) ∨
  ∃ request entry, recorded.2 = .ok request ∧
    recorded.1.accepted = turn.accepted ++ [(report.id, entry)] ∧
    EntersBehind lib turn.directory recorded.1.directory report entry)

/-- **The turn was shown a request as active at a revision**: it still shows it so, or a report of
its own on this revision has taken its place. -/
def WasPresented (turn : Turn) (report : Report) : Prop :=
  ∃ view ∈ turn.context.requests, view.id = report.id ∧ view.active = true ∧
    (view.revision = report.revision ∨
      ∃ entry, (report.id, entry) ∈ turn.shown ∧ entry.revision = report.revision + 1)

/-- What is known of a recorded report: the request as it was returned was in the ledger, at its
report. -/
def RecordedIn (ledger : OperatorRequestLedger) (accepted : List (UInt64 × OperatorRequestRevision))
    (report : Report) (request : OperatorRequest) : Prop :=
  ∃ before entry front, LedgerSound before ∧ Store.Grows before ledger ∧
    before.find report.id = some request ∧ request.history = front ++ [entry] ∧
    entry.action = ascii "disposition" ∧ entry.revision = report.revision + 1 ∧
    (report.id, entry) ∈ accepted

/-- **What is known during a turn** that was shown `context`. -/
structure TurnSound (lib : Library) (context : OperatorRequestContext) (turn : Turn)
    (ledger : OperatorRequestLedger) : Prop where
  read : readOperatorRequests lib turn.directory = .ok ledger
  /-- What is listed. -/
  list : turn.context = turn.shown.foldl applyReport context
  place : ∀ i view, turn.context.requests[i]? = some view → view.id.toNat = i + 1
  view : ∀ view ∈ turn.context.requests, ∃ request, ledger.find view.id = some request ∧
    view.title = request.title ∧ view.description = request.description ∧
    request.history.head?.map OperatorRequestRevision.actor = some view.author
  entered : ∀ report ∈ turn.accepted, Entered ledger report
  shown : ∀ report ∈ turn.shown, report ∈ turn.accepted
  checked : ∀ report ∈ turn.checked, WasPresented turn report
  recorded : ∀ call ∈ turn.recorded,
    WasPresented turn call.1 ∧ RecordedIn ledger turn.accepted call.1 call.2

variable {lib : Library} {context : OperatorRequestContext} {turn : Turn}
  {ledger next : OperatorRequestLedger} {request : OperatorRequest}
  {entry : OperatorRequestRevision} {directory : Directory} {env : Surroundings} {report : Report}

/-! ### Entries -/

theorem nodup_entries (h : LedgerSound ledger) (id : UInt64) : (ledger.entries id).Nodup := by
  rw [List.nodup_iff_getElem?_ne_getElem?]
  intro i j hij hj heq
  have hlater := getElem?_eq_getElem hj
  have hi := Store.toNat_revision h (heq.trans hlater)
  have hj := Store.toNat_revision h hlater
  omega

theorem entered_of_getElem {id : UInt64} {i : ℕ}
    (h : LedgerSound ledger) (haction : entry.action = ascii "disposition")
    (hi : (ledger.entries id)[i]? = some entry) : Entered ledger (id, entry) := by
  refine ⟨haction, ?_, count_eq_one_of_mem (nodup_entries h id) (mem_of_getElem? hi)⟩
  rw [Store.toNat_revision h hi]
  exact hi

theorem entries_prefix (h : Store.Grows ledger next) (id : UInt64) :
    ledger.entries id <+: next.entries id := by
  cases hfind : ledger.find id with
  | none =>
    rw [OperatorRequestLedger.entries, hfind]
    exact nil_prefix
  | some request =>
    obtain ⟨later, hlater, hcontinues⟩ := h.find hfind
    obtain ⟨tail, htail, -⟩ := hcontinues.history
    rw [Store.entries_of_find hfind, Store.entries_of_find hlater, htail]
    exact prefix_append _ _

theorem Entered.grows {report : UInt64 × OperatorRequestRevision} (h : Entered ledger report)
    (hgrows : Store.Grows ledger next) (hnext : LedgerSound next) : Entered next report := by
  obtain ⟨haction, hplace, -⟩ := h
  obtain ⟨tail, htail⟩ := entries_prefix hgrows report.1
  have hlt := (List.getElem?_eq_some_iff.mp hplace).1
  refine entered_of_getElem hnext haction (i := report.2.revision.toNat - 1) ?_
  rw [← htail, getElem?_append_left hlt, hplace]

theorem RecordedIn.later {accepted accepted' : List (UInt64 × OperatorRequestRevision)}
    (h : RecordedIn ledger accepted report request) (hgrows : Store.Grows ledger next)
    (hnone : ledger.runID = [] → ledger.all = []) (haccepted : accepted ⊆ accepted') :
    RecordedIn next accepted' report request := by
  obtain ⟨before, entry, front, hsound, hbefore, hfind, hhistory, haction, hrevision, hmem⟩ := h
  exact ⟨before, entry, front, hsound, hbefore.trans hgrows hnone, hfind, hhistory, haction,
    hrevision, haccepted hmem⟩

/-! ### Operators -/

/-- The ledger has grown, and the turn is as it was. -/
theorem TurnSound.grows (h : TurnSound lib context turn ledger)
    (hread : readOperatorRequests lib directory = .ok next) (hgrows : Store.Grows ledger next) :
    TurnSound lib context { turn with directory := directory } next where
  __ := h
  read := hread
  view view hview := by
    obtain ⟨request, hfind, htitle, hdescription, hauthor⟩ := h.view view hview
    obtain ⟨later, hlater, hcontinues⟩ := hgrows.find hfind
    obtain ⟨tail, htail, -⟩ := hcontinues.history
    refine ⟨later, hlater, htitle.trans hcontinues.title.symm,
      hdescription.trans hcontinues.description.symm, ?_⟩
    rw [htail, head?_append]
    cases hhead : request.history.head? with
    | none =>
      rw [hhead] at hauthor
      cases hauthor
    | some first => rw [← hauthor, hhead]; rfl
  entered report hreport := (h.entered report hreport).grows hgrows
    (Store.ledgerSound_of_read hread)
  recorded call hcall := (h.recorded call hcall).imp_right fun hrecorded =>
    hrecorded.later hgrows (Store.all_eq_nil_of_runID h.read) (Subset.refl _)

/-- **What an operator does is not shown.** -/
theorem TurnSound.operator (h : TurnSound lib context turn ledger) {action : Bytes}
    (hcalls : Calls lib action turn.directory directory) :
    ∃ next, TurnSound lib context { turn with directory := directory } next := by
  rcases hcalls with rfl | ⟨env, call, rfl, -⟩
  · exact ⟨ledger, h⟩
  · obtain ⟨next, hread, hgrows⟩ := Store.perform_grows h.read env call
    exact ⟨next, h.grows hread hgrows⟩

/-! ### Reports -/

/-- What an accepted report has done to its request. -/
theorem entersBehind_of_accepted {after : Directory} {written : OperatorRequestRevision}
    (hread : readOperatorRequests lib directory = .ok ledger)
    (hnext : readOperatorRequests lib after = .ok next)
    (h : Accepted ledger next request (.append report.id report.revision written)) :
    ∃ front entry, request.history = front ++ [entry] ∧ entry.action = written.action ∧
      entry.revision = report.revision + 1 ∧ EntersBehind lib directory after report entry := by
  obtain ⟨front, entry, hhistory, haction, hrevision, hbefore⟩ : ∃ front entry,
      request.history = front ++ [entry] ∧ entry.action = written.action ∧
      entry.revision = report.revision + 1 ∧
      (ledger.entries report.id = front ∨ ledger.entries report.id = front ++ [entry]) := by
    obtain ⟨hfind, ⟨⟨old, last, hold, hlast, hrepeat⟩, rfl⟩ |
      ⟨old, timestamp, hold, -, -, hrequest⟩⟩ := h
    · obtain rfl := Option.mem_unique hold hfind
      obtain ⟨front, hfront⟩ := getLast?_eq_some_iff.mp hlast
      exact ⟨front, last, hfront, hrepeat ▸ rfl, hrepeat ▸ rfl,
        .inr ((Store.entries_of_find hfind).trans hfront)⟩
    · exact ⟨old.history, Store.completeEntry next report.revision timestamp written,
        by rw [hrequest]; rfl, rfl, rfl, .inl (Store.entries_of_find hold)⟩
  have hentries := (Store.entries_of_find h.1).trans hhistory
  have hlength : entry.revision.toNat = front.length + 1 :=
    Store.toNat_revision (Store.ledgerSound_of_read hnext) (by rw [hentries]; simp)
  have hbound := report.revision.toNat_lt
  rw [hrevision, UInt64.toNat_add, UInt64.toNat_one] at hlength
  exact ⟨front, entry, hhistory, haction, hrevision, ledger, next, front, hread, hnext, hrevision,
    by omega, hentries, hbefore⟩

/-- A report is refused, or it is entered, and then accepted unless the directory is not synced. -/
theorem recordOperatorRequest_cases (hread : readOperatorRequests lib directory = .ok ledger)
    (env : Surroundings) (id revision : UInt64) (actor : OperatorRequestActor)
    (disposition explanation evidence : Bytes) (process : CodexOSRun) :
    let recorded := recordOperatorRequest lib env id revision actor disposition explanation evidence
      process directory
    (∃ error, recorded.2 = .error error ∧ readOperatorRequests lib recorded.1 = .ok ledger) ∨
    ∃ next request, readOperatorRequests lib recorded.1 = .ok next ∧ Store.Grows ledger next ∧
      Accepted ledger next request (.append id revision
        ⟨0, ascii "disposition", actor, [], disposition, explanation, evidence, 0⟩) ∧
      (recorded.2 = .ok request ∨ env.fault = .unsynced ∧ ∃ error, recorded.2 = .error error) := by
  intro recorded
  unfold recorded recordOperatorRequest
  split_ifs
  · exact .inl ⟨_, rfl, hread⟩
  rcases Store.perform_cases env (.append id revision
      ⟨0, ascii "disposition", actor, [], disposition, explanation, evidence, 0⟩) hread with
    ⟨huntouched, error, herror⟩ | ⟨next, request, hupdate, hstored, -, hresult⟩
  · refine .inl ⟨.ledger error, ?_, huntouched.read.trans hread⟩
    rw [callLedger, herror]
    rfl
  · refine .inr ⟨next, request, hstored.read, Store.grows_of_updates
      (Store.updates_of_update hupdate) (Store.ledgerSound_of_read hread)
      (Store.ledgerSound_of_read hstored.read), Store.accepted_of_update hread hupdate, ?_⟩
    rw [callLedger]
    rcases hresult with hok | ⟨hfault, herror⟩
    · exact .inl (by rw [hok]; rfl)
    · exact .inr ⟨hfault, _, by rw [herror]; rfl⟩

/-- A report that was accepted is shown as it was applied. -/
theorem updatedView_eq {view : OperatorRequestView} {front} (hid : request.id = view.id)
    (hactive : view.active = true) (hhistory : request.history = front ++ [entry])
    (haction : entry.action = ascii "disposition")
    (hrevision : entry.revision.toNat = front.length + 1) (htitle : view.title = request.title)
    (hdescription : view.description = request.description)
    (hauthor : request.history.head?.map OperatorRequestRevision.actor = some view.author) :
    updatedView request = { view with
      revision := entry.revision, report := some entry, verification := none } := by
  have hlast : request.history.getLast? = some entry := by rw [hhistory]; simp
  have hcount : request.revision = entry.revision := by
    rw [OperatorRequest.revision, hhistory, length_append, length_singleton, ← hrevision,
      UInt64.ofNat_toNat]
  have hstill : request.active = true := by
    rw [OperatorRequest.active, hlast, Option.any_some, haction]
    decide +kernel
  obtain ⟨first, hfirst, hactor⟩ := Option.map_eq_some_iff.mp hauthor
  rw [updatedView, hid, hcount, hstill, hlast, hfirst, Option.elim_some, hactor, ← htitle,
    ← hdescription, ← hactive]

theorem TurnSound.unique (h : TurnSound lib context turn ledger) {view other : OperatorRequestView}
    (hview : view ∈ turn.context.requests) (hother : other ∈ turn.context.requests)
    (hsame : other.id = view.id) : other = view := by
  obtain ⟨i, hi⟩ := mem_iff_getElem?.mp hview
  obtain ⟨j, hj⟩ := mem_iff_getElem?.mp hother
  have hplace := h.place i view hi
  rw [← hsame, h.place j other hj] at hplace
  obtain rfl : j = i := Nat.succ.inj hplace
  exact Option.mem_unique hj hi

theorem WasPresented.applied {id : UInt64} (h : WasPresented turn report)
    (hrevision : ∀ view ∈ turn.context.requests, view.id = id →
      entry.revision = view.revision + 1) :
    WasPresented { turn with
      context := applyReport turn.context (id, entry)
      shown := turn.shown ++ [(id, entry)] } report := by
  obtain ⟨view, hview, hid, hactive, hshown⟩ := h
  refine ⟨_, mem_map_of_mem hview, ?_⟩
  split_ifs with hsame
  · -- the report takes the place of what was presented, if nothing has before
    refine ⟨hid, hactive, .inr ?_⟩
    rcases hshown with hcurrent | ⟨earlier, hearlier, hbehind⟩
    · exact ⟨entry, by simp [← hid, hsame], by rw [hrevision view hview hsame, hcurrent]⟩
    · exact ⟨earlier, mem_append_left _ hearlier, hbehind⟩
  · exact ⟨hid, hactive, hshown.imp_right fun ⟨earlier, hearlier, hbehind⟩ =>
      ⟨earlier, mem_append_left _ hearlier, hbehind⟩⟩

theorem TurnSound.applied (h : TurnSound lib context turn ledger) {id : UInt64}
    (haccepted : (id, entry) ∈ turn.accepted)
    (hrevision : ∀ view ∈ turn.context.requests, view.id = id →
      entry.revision = view.revision + 1) :
    TurnSound lib context { turn with
      context := applyReport turn.context (id, entry)
      shown := turn.shown ++ [(id, entry)] } ledger where
  read := h.read
  list := by
    rw [foldl_append, ← h.list]
    rfl
  place i view hi := by
    rw [applyReport, getElem?_map] at hi
    obtain ⟨old, hold, rfl⟩ := Option.map_eq_some_iff.mp hi
    rw [← h.place i old hold]
    split_ifs <;> rfl
  view view hview := by
    obtain ⟨old, hold, rfl⟩ := mem_map.mp hview
    have hfound := h.view old hold
    split_ifs
    iterate 2 exact hfound
  entered := h.entered
  shown report hreport := by
    rcases mem_append.mp hreport with hold | hnew
    · exact h.shown report hold
    · rwa [mem_singleton.mp hnew]
  checked report hreport := (h.checked report hreport).applied hrevision
  recorded call hcall := (h.recorded call hcall).imp_left (·.applied hrevision)

/-- **The second section of a call.** -/
theorem TurnSound.record (h : TurnSound lib context turn ledger) (env : Surroundings)
    (process : CodexOSRun) (reporter : Reporter) (report : Report) :
    let recorded := recordReport lib env process reporter report turn
    CallSound lib env turn report recorded ∧ ∃ next, TurnSound lib context recorded.1 next ∧
      ∀ request, recorded.2 = .ok request →
        RecordedIn next recorded.1.accepted report request := by
  intro recorded
  unfold recorded recordReport
  rcases recordOperatorRequest_cases h.read env report.id report.revision reporter.actor
      report.disposition report.explanation report.evidence process with
    ⟨error, herror, hread⟩ | ⟨next, request, hread, hgrows, haccepted, hresult⟩
  all_goals
    generalize recordOperatorRequest lib env report.id report.revision reporter.actor
      report.disposition report.explanation report.evidence process turn.directory = result at *
    obtain ⟨directory, result⟩ := result
  · obtain rfl : result = .error error := herror
    exact ⟨⟨rfl, .inl ⟨.runtime error, rfl, rfl, .inl (hread.trans h.read.symm)⟩⟩, ledger,
      h.grows hread .refl, nofun⟩
  have hnext := Store.ledgerSound_of_read hread
  have hlater := h.grows hread hgrows
  obtain ⟨front, entry, hhistory, haction, hrevision, hbehind⟩ :=
    entersBehind_of_accepted h.read hread haccepted
  rcases hresult with hok | ⟨hfault, error, herror⟩
  · obtain rfl : result = .ok request := hok
    have hlast : request.history.getLast? = some entry := by rw [hhistory]; simp
    have hentered : Entered next (report.id, entry) := by
      refine entered_of_getElem hnext haction (i := front.length) ?_
      rw [Store.entries_of_find haccepted.1, hhistory]
      simp
    simp only [hlast, Option.toList_some, map_cons, map_nil]
    refine ⟨⟨rfl, .inr ⟨request, entry, rfl, rfl, hbehind⟩⟩, next, { hlater with
      entered := fun report hreport => ?_
      shown := fun report hreport => mem_append_left _ (h.shown report hreport)
      recorded := fun call hcall => (hlater.recorded call hcall).imp_right fun hrecorded =>
        hrecorded.later .refl (Store.all_eq_nil_of_runID hread) (subset_append_left _ _) }, ?_⟩
    · rcases mem_append.mp hreport with hold | hnew
      · exact hlater.entered report hold
      · rwa [mem_singleton.mp hnew]
    · rintro _ ⟨⟩
      exact ⟨next, entry, front, hnext, .refl, haccepted.1, hhistory, haction, hrevision, by simp⟩
  · obtain rfl : result = .error error := herror
    exact ⟨⟨rfl, .inl ⟨.runtime error, rfl, rfl, .inr ⟨hfault, entry, hbehind⟩⟩⟩, next, hlater,
      nofun⟩

/-- What was presented is still there, and the report takes its place. -/
theorem showReport_current {view : OperatorRequestView} (hview : view ∈ turn.context.requests)
    (hid : view.id = report.id) (hcurrent : view.revision = report.revision)
    (hsame : ∀ other ∈ turn.context.requests, other.id = report.id → other = view)
    (hlast : request.history.getLast? = some entry)
    (hupdated : updatedView request = { view with
      revision := entry.revision, report := some entry, verification := none }) :
    showReport report request turn = { turn with
      context := applyReport turn.context (report.id, entry)
      shown := turn.shown ++ [(report.id, entry)] } := by
  have hadvanced : advanceView turn.context report request =
      applyReport turn.context (report.id, entry) := by
    rw [advanceView, applyReport]
    congr 1
    refine map_congr_left fun other hother => ?_
    by_cases hother' : other.id = report.id
    · obtain rfl := hsame other hother hother'
      rw [if_pos ⟨hid, hcurrent⟩, if_pos hid, hupdated]
    · rw [if_neg fun hboth => hother' hboth.1, if_neg hother']
  have hshows : showsRevision turn.context report = true :=
    any_eq_true.mpr ⟨view, hview, decide_eq_true ⟨hid, hcurrent⟩⟩
  rw [showReport, hadvanced, if_pos hshows, hlast]
  rfl

theorem showReport_overtaken (h : ∀ view ∈ turn.context.requests,
    ¬(view.id = report.id ∧ view.revision = report.revision)) :
    showReport report request turn = turn := by
  have hshows : showsRevision turn.context report = false := by simpa [showsRevision] using h
  have hadvanced : advanceView turn.context report request = turn.context := by
    rw [advanceView, map_congr_left fun view hview => if_neg (h view hview), map_id']
  rw [showReport, hshows, hadvanced]
  simp

/-- **The last section of a call**: its report is shown. -/
theorem TurnSound.show (h : TurnSound lib context turn ledger)
    (hcall : (report, request) ∈ turn.recorded) :
    TurnSound lib context (showReport report request turn) ledger ∧
      ∃ entry, request.history.getLast? = some entry ∧
        (report.id, entry) ∈ (showReport report request turn).shown := by
  obtain ⟨⟨view, hview, hid, hactive, hrevision⟩, before, entry, front, hsound, hgrows, hfind,
    hhistory, haction, hnumber, haccepted⟩ := h.recorded _ hcall
  dsimp only at hid hrevision hfind hhistory hnumber haccepted
  have hlast : request.history.getLast? = some entry := by rw [hhistory]; simp
  have hsame : ∀ other ∈ turn.context.requests, other.id = report.id → other = view :=
    fun other hother heq => h.unique hview hother (heq.trans hid.symm)
  by_cases hcurrent : view.revision = report.revision
  · have hplace : (before.entries report.id)[front.length]? = some entry := by
      rw [Store.entries_of_find hfind, hhistory]
      simp
    obtain ⟨found, hfound, htitle, hdescription, hauthor⟩ := h.view view hview
    obtain ⟨later, hlater, hcontinues⟩ := hgrows.find hfind
    obtain ⟨tail, htail, -⟩ := hcontinues.history
    obtain rfl : later = found := Option.mem_unique hlater (hid ▸ hfound)
    have hupdated := updatedView_eq ((Store.id_of_find hsound hfind).trans hid.symm) hactive
      hhistory haction (Store.toNat_revision hsound hplace) (htitle.trans hcontinues.title)
      (hdescription.trans hcontinues.description) (by
        rw [← hauthor, htail, head?_append_of_ne_nil _ (by simp [hhistory])])
    rw [showReport_current hview hid hcurrent hsame hlast hupdated]
    refine ⟨h.applied haccepted fun other hother heq => ?_, entry, hlast, by simp⟩
    rw [hsame other hother heq, hcurrent, hnumber]
  · -- the same report was shown by another call
    rw [showReport_overtaken fun other hother hboth =>
      hcurrent (hsame other hother hboth.1 ▸ hboth.2)]
    obtain ⟨earlier, hearlier, hbehind⟩ := hrevision.resolve_left hcurrent
    have hplace := (h.entered _ (h.shown _ hearlier)).2.1
    have hplace' := (h.entered _ haccepted).2.1
    dsimp only at hplace hplace'
    rw [hbehind, ← hnumber, hplace'] at hplace
    exact ⟨h, entry, hlast, Option.some.inj hplace ▸ hearlier⟩

/-! ### A turn -/

/-- A call, when no other is under way, is its sections one after another. -/
theorem dispatchOperatorRequest_sections (accepted shown env process reporter arguments) :
    let turn : Turn := ⟨directory, context, [], [], accepted, shown⟩
    ∃ steps, (dispatchOperatorRequest lib env process reporter arguments turn).1 =
      advanceTurns lib reporter turn steps := by
  intro turn
  cases hcheck : checkReport context arguments with
  | error error => exact ⟨[], by simp [dispatchOperatorRequest, turn, hcheck, advanceTurns]⟩
  | ok report =>
    use [.check arguments, .record env process report] ++
      (recordReport lib env process reporter report turn).2.toOption.toList.map (.advance report)
    rcases hrecord : recordOperatorRequest lib env report.id report.revision reporter.actor
      report.disposition report.explanation report.evidence process directory with
      ⟨after, error | request⟩
    all_goals simp [advanceTurns, advanceTurn, dispatchOperatorRequest, turn, hcheck, recordReport,
      hrecord, showReport, Except.toOption]

theorem turnSound_prepared {rounds : ℕ} {run : Run}
    (h : prepareOperatorRequests lib rounds run directory = some (.ok turn)) :
    ∃ ledger, TurnSound lib turn.context turn ledger := by
  obtain ⟨result, hlocked, hresult⟩ := Option.map_eq_some_iff.mp h
  obtain ⟨shown, rfl, rfl⟩ : ∃ shown, result = .ok shown ∧
      turn = ⟨directory, shown, [], [], [], []⟩ := by
    cases result with
    | error error => cases hresult
    | ok shown => exact ⟨shown, rfl, (Except.ok.inj hresult).symm⟩
  unfold operatorRequestsLocked at hlocked
  split at hlocked
  · cases hlocked
  rename_i ledger hread
  obtain ⟨walked, -, hwalked⟩ := Option.map_eq_some_iff.mp hlocked
  obtain ⟨eligible, -, hshown⟩ := bind_eq_ok.mp hwalked
  cases hshown
  have hsound := Store.ledgerSound_of_read hread
  -- the loop over a history leaves the title, the description and the author alone
  have hframe (request : OperatorRequest) := @foldl_viewEvent_frame ledger.runID eligible
    request.history ⟨request.id, request.title, request.description, request.revision,
      request.active, request.history.head?.elim ⟨[], [], [], none, [], []⟩
        OperatorRequestRevision.actor, none, none⟩
  refine ⟨ledger, hread, rfl, fun i view hi => ?_, fun view hview => ?_, nofun, nofun, nofun,
    nofun⟩
  · rw [getElem?_map] at hi
    obtain ⟨request, hrequest, rfl⟩ := Option.map_eq_some_iff.mp hi
    obtain ⟨report, verification, hview⟩ := hframe request
    have hlt := (List.getElem?_eq_some_iff.mp hrequest).1
    have hcount : ledger.all.length ≤ 128 := hsound.count
    rw [viewRequest, hview, (hsound.request i request hrequest).id, UInt64.toNat_add,
      UInt64.toNat_ofNat', UInt64.toNat_one]
    omega
  · obtain ⟨request, hrequest, rfl⟩ := mem_map.mp hview
    obtain ⟨i, hi⟩ := mem_iff_getElem?.mp hrequest
    obtain ⟨report, verification, hview⟩ := hframe request
    obtain ⟨first, rest, hhistory⟩ :=
      exists_cons_of_ne_nil (hsound.request i request hi).nonempty
    rw [viewRequest, hview]
    refine ⟨request, Store.find_of_getElem hsound hi, rfl, rfl, ?_⟩
    rw [hhistory]
    rfl

theorem wasPresented_of_check {arguments : Option Report}
    (h : checkReport turn.context arguments = .ok report) : WasPresented turn report := by
  rcases arguments with _ | checked
  · cases h
  simp only [checkReport] at h
  split_ifs at h with hid hrevision hpresented
  obtain rfl := Except.ok.inj h
  obtain ⟨view, hview, hshown⟩ := any_eq_true.mp (Bool.not_eq_false _ ▸ hpresented)
  obtain ⟨hid, hactive, hcurrent⟩ := of_decide_eq_true hshown
  exact ⟨view, hview, hid, hactive, .inl hcurrent⟩

/-- A step of a turn. -/
theorem TurnSound.step (h : TurnSound lib context turn ledger) (reporter : Reporter)
    (step : TurnStep) : ∃ next,
      TurnSound lib context (advanceTurn lib reporter turn step) next := by
  cases step with
  | create env account title description process =>
    exact h.operator (createOperatorRequest_calls ..)
  | withdraw env account id reason process => exact h.operator (withdrawOperatorRequest_calls ..)
  | verify env account id revision note run => exact h.operator (verifyOperatorRequest_calls ..)
  | check arguments =>
    refine ⟨ledger, { h with checked := fun report hreport => ?_ }⟩
    rcases mem_append.mp hreport with hold | hnew
    · exact h.checked report hold
    · cases hcheck : checkReport turn.context arguments with
      | error error => simp [hcheck, Except.toOption] at hnew
      | ok checked =>
        obtain rfl : report = checked := by simpa [hcheck, Except.toOption] using hnew
        exact wasPresented_of_check hcheck
  | record env process report =>
    by_cases hmem : report ∈ turn.checked
    · obtain ⟨⟨hturn, -⟩, next, hnext, hok⟩ := h.record env process reporter report
      simp only [advanceTurn, if_pos hmem]
      generalize recordReport lib env process reporter report turn = recorded at *
      have hchecked : recorded.1.checked = turn.checked := by rw [hturn]
      have hrecorded : recorded.1.recorded = turn.recorded := by rw [hturn]
      refine ⟨next, { hnext with
        checked := fun other hother => hnext.checked other (hchecked ▸ mem_of_mem_erase hother)
        recorded := fun call hcall => ?_ }⟩
      rcases mem_append.mp hcall with hold | hnew
      · exact hnext.recorded call (hrecorded ▸ hold)
      · cases hresult : recorded.2 with
        | error error => simp [hresult, Except.toOption] at hnew
        | ok request =>
          obtain rfl : call = (report, request) := by simpa [hresult, Except.toOption] using hnew
          exact ⟨hnext.checked report (hchecked ▸ hmem), hok request hresult⟩
    · exact ⟨ledger, by rwa [advanceTurn, if_neg hmem]⟩
  | advance report request =>
    by_cases hmem : (report, request) ∈ turn.recorded
    · obtain ⟨hshown, -⟩ := h.show hmem
      simp only [advanceTurn, if_pos hmem]
      exact ⟨ledger, { hshown with
        recorded := fun call hcall => hshown.recorded call (mem_of_mem_erase hcall) }⟩
    · exact ⟨ledger, by rwa [advanceTurn, if_neg hmem]⟩

theorem TurnSound.steps (h : TurnSound lib context turn ledger) (reporter : Reporter)
    (steps : List TurnStep) :
    ∃ next, TurnSound lib context (advanceTurns lib reporter turn steps) next := by
  induction steps generalizing turn ledger with
  | nil => exact ⟨ledger, h⟩
  | cons step steps ih =>
    obtain ⟨next, hnext⟩ := h.step reporter step
    exact ih hnext

/-- **Every turn, and every call in it.** Whatever operators do, and however calls overlap: what is
listed is what the turn was prepared with and its own accepted reports that were shown; every
accepted report is entered once, and stays, and the end of its call shows it; a call that is
recorded was shown the request as active at that revision, and is refused without a trace, or
entered directly behind the revision. Only where the directory is not synced behind the new file, it
is refused and entered. -/
theorem operatorRequests_turn {rounds : ℕ} {run : Run} {directory : Directory} {start : Turn}
    (hstart : prepareOperatorRequests lib rounds run directory = some (.ok start))
    (reporter : Reporter) (steps : List TurnStep) :
    let turn := advanceTurns lib reporter start steps
    turn.context = turn.shown.foldl applyReport start.context ∧
      (∀ report ∈ turn.shown, report ∈ turn.accepted) ∧
      (∃ ledger, readOperatorRequests lib turn.directory = .ok ledger ∧
        ∀ report ∈ turn.accepted, Entered ledger report) ∧
      (∀ arguments error, checkReport turn.context arguments = .error error →
        advanceTurn lib reporter turn (.check arguments) = turn) ∧
      (∀ report ∈ turn.checked, WasPresented turn report ∧ ∀ env process,
        CallSound lib env turn report (recordReport lib env process reporter report turn)) ∧
      ∀ call ∈ turn.recorded, ∃ entry, call.2.history.getLast? = some entry ∧
        (call.1.id, entry) ∈ (showReport call.1 call.2 turn).shown := by
  obtain ⟨ledger, hledger⟩ := turnSound_prepared hstart
  obtain ⟨next, hnext⟩ := hledger.steps reporter steps
  refine ⟨hnext.list, hnext.shown, ⟨next, hnext.read, hnext.entered⟩,
    fun arguments error hrefused => ?_, fun report hreport => ⟨hnext.checked report hreport,
      fun env process => (hnext.record env process reporter report).1⟩,
    fun call hcall => (hnext.show hcall).2⟩
  rw [advanceTurn, hrefused]
  simp [Except.toOption]

/-! ### A report that is refused, and entered -/

/-- The first generation is live. -/
def sampleRun : Run :=
  Experiment.performAll (newExperiment none 0 none) [.reopen (some none), .start fortunate]

/-- An operator has asked for a shell. -/
def sampleDirectory : Directory :=
  (Store.perform Store.sampleLibrary Store.sampleSurroundings Store.sampleCreate []).1

def sampleContext : OperatorRequestContext :=
  ((operatorRequestsLocked Store.sampleLibrary 4 sampleRun sampleDirectory).bind
    Except.toOption).getD ⟨[], 0, []⟩

def sampleTurn : Turn := ⟨sampleDirectory, sampleContext, [], [], [], []⟩

/-- The implementor takes it up. -/
def sampleReport : Report := ⟨1, 1, ascii "pursuing", ascii "Noted.", []⟩

def sampleReporter : Reporter := ⟨ascii "agent", 0, ascii "thread", ascii "turn"⟩

/-- What the runtime returns for the report. -/
def sampleRequest : OperatorRequest :=
  ((recordReport Store.sampleLibrary Store.sampleSurroundings sampleRun.process sampleReporter
    sampleReport sampleTurn).2.toOption).getD ⟨0, [], [], []⟩

/-- The environment of a call whose directory cannot be synced. -/
def unsynced : Surroundings :=
  ⟨Store.sampleSurroundings.now, Store.sampleSurroundings.random, .unsynced⟩

theorem prepare_sampleTurn :
    prepareOperatorRequests Store.sampleLibrary 4 sampleRun sampleDirectory =
      some (.ok sampleTurn) := by
  have hlocked : operatorRequestsLocked Store.sampleLibrary 4 sampleRun sampleDirectory =
      some (.ok sampleContext) := by decide +kernel
  rw [prepareOperatorRequests, hlocked, sampleTurn]
  rfl

/-- A call is not acknowledged, and two calls repeat it at the same time. -/
def sampleSteps : List TurnStep :=
  [.check (some sampleReport), .record unsynced sampleRun.process sampleReport,
    .check (some sampleReport), .check (some sampleReport),
    .record Store.sampleSurroundings sampleRun.process sampleReport,
    .record Store.sampleSurroundings sampleRun.process sampleReport,
    .advance sampleReport sampleRequest, .advance sampleReport sampleRequest]

/-- The report is accepted twice, entered once and listed. -/
theorem operatorRequests_turn_sample :
    let turn := advanceTurns Store.sampleLibrary sampleReporter sampleTurn sampleSteps
    (turn.accepted.length = 2 ∧ turn.shown.length = 1 ∧ turn.recorded = []) ∧
      turn.context = turn.shown.foldl applyReport sampleTurn.context ∧
      ∃ ledger, readOperatorRequests Store.sampleLibrary turn.directory = .ok ledger ∧
        ∀ report ∈ turn.accepted, Entered ledger report := by
  have hturn := operatorRequests_turn prepare_sampleTurn sampleReporter sampleSteps
  exact ⟨by decide +kernel, hturn.1, hturn.2.2.1⟩

/-- **A report that is refused is entered all the same** where the directory is not synced behind
the new file. -/
theorem refused_report_entered :
    prepareOperatorRequests Store.sampleLibrary 4 sampleRun sampleDirectory =
        some (.ok sampleTurn) ∧
      (dispatchOperatorRequest Store.sampleLibrary unsynced sampleRun.process sampleReporter
        (some sampleReport) sampleTurn).2 = .error (.runtime (.ledger .persist)) ∧
      (readOperatorRequests Store.sampleLibrary sampleTurn.directory).toOption.map
        OperatorRequestLedger.revision = some 1 ∧
      (readOperatorRequests Store.sampleLibrary (dispatchOperatorRequest Store.sampleLibrary
        unsynced sampleRun.process sampleReporter (some sampleReport)
        sampleTurn).1.directory).toOption.map OperatorRequestLedger.revision = some 2 :=
  ⟨prepare_sampleTurn, by decide +kernel, by decide +kernel, by decide +kernel⟩

end Carcer.Agent
