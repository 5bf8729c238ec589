import Carcer.Experiment.Boots
import Carcer.Experiment.RuntimeLease

/-!
# Which boot a report is from

Operators ask for features, the implementors of a run report on them, and operators verify reports.
The ledger says which generation has reported, by its number. Here every report is kept together
with the boot in which it was recorded, and what a generation is shown is compared with that: where
no number is given out to two boots that both matter, the report that is shown is the latest one of
the boot that is under way and of its completed ancestors.

## Main definitions

* `RequestedRun`, `advance`: a run with its boots, its ledger, and the boot of each report
* `unambiguous`: a step does not give a number that was reported under to another boot
* `Shown`: what a request shows, in terms of boots

## Main results

* `ReportsSound.operate`, `ReportsSound.record`, `ReportsSound.operator`: what is known of the
  reports
* `applies_iff_counts`: the numbers of generations say which boots are meant
* `operatorRequestsLocked_lineage`: what is shown, after any steps
-/

namespace Carcer.Experiment

open Carcer.Wire Carcer.Disk Carcer.Machine List
open Carcer.Store (Library Surroundings OperatorRequest OperatorRequestActor OperatorRequestLedger
  OperatorRequestRevision LedgerCall LedgerSound readOperatorRequests Adds)

/-! ### Steps -/

/-- A run with its boots, the directory of its ledger, and the boot in which a revision of a request
was recorded by an implementor. -/
structure RequestedRun where
  booted : BootedRun
  directory : Directory
  reporter : UInt64 → UInt64 → Option ℕ

/-- What happens to a run and its ledger. -/
inductive RequestStep
  | operation (operation : Operation)
  | create (env : Surroundings) (account : Option Bytes) (title description : Bytes)
  | withdraw (env : Surroundings) (account : Option Bytes) (id : UInt64) (reason : Bytes)
  | verify (env : Surroundings) (account : Option Bytes) (id revision : UInt64) (note : Bytes)
  | record (env : Surroundings) (id revision : UInt64) (actor : OperatorRequestActor)
      (disposition explanation evidence : Bytes)

/-- The number of entries about a request. -/
def historyLength (lib : Library) (directory : Directory) (id : UInt64) : ℕ :=
  match readOperatorRequests lib directory with
  | .error _ => 0
  | .ok ledger => (ledger.entries id).length

/-- The boot of what an implementor has recorded: the new entries are those of the boot that is
under way. -/
def reporterAfter (lib : Library) (s : RequestedRun) (id : UInt64) (directory : Directory) :
    UInt64 → UInt64 → Option ℕ := fun other revision =>
  if other = id ∧ historyLength lib s.directory id < revision.toNat ∧
      revision.toNat ≤ historyLength lib directory id then s.booted.currentBoot
  else s.reporter other revision

def advance (lib : Library) (s : RequestedRun) : RequestStep → RequestedRun
  | .operation operation => { s with booted := s.booted.operate operation }
  | .create env account title description =>
    { s with directory := (createOperatorRequest lib env account title description
        s.booted.run.process s.directory).1 }
  | .withdraw env account id reason =>
    { s with directory := (withdrawOperatorRequest lib env account id reason
        s.booted.run.process s.directory).1 }
  | .verify env account id revision note =>
    { s with directory := (verifyOperatorRequest lib env account id revision note
        s.booted.run s.directory).1 }
  | .record env id revision actor disposition explanation evidence =>
    let directory := (recordOperatorRequest lib env id revision actor disposition explanation
      evidence s.booted.run.process s.directory).1
    { s with directory := directory, reporter := reporterAfter lib s id directory }

def advanceAll (lib : Library) (s : RequestedRun) (steps : List RequestStep) : RequestedRun :=
  steps.foldl (advance lib) s

/-- A new run, in whose directory a ledger may have been put. -/
def newRequestedRun (identity : Option Provenance.HarnessIdentity) (capacity : Guest.Budget)
    (bootstrap : Option Bytes) (directory : Directory) : RequestedRun :=
  ⟨⟨newExperiment identity capacity bootstrap, [], []⟩, directory, fun _ _ => none⟩

/-! ### Numbers that are given out again -/

/-- An entry is a report of the run under a number. -/
def reportsUnder (runID : Bytes) (number : UInt64) (event : OperatorRequestRevision) : Bool :=
  event.action = ascii "disposition" ∧ event.actor.runID = runID ∧
    event.actor.generation = some number

/-- The ledger has a report of the run under a number. -/
def reportedUnder (lib : Library) (directory : Directory) (number : UInt64) : Bool :=
  match readOperatorRequests lib directory with
  | .error _ => false
  | .ok ledger =>
    ledger.all.any fun request => request.history.any (reportsUnder ledger.runID number)

/-- **No number is given to another boot**: a boot does not begin under a number that was reported
under, and nothing is reported under the number of an archive. -/
def unambiguous (lib : Library) (s : RequestedRun) : RequestStep → Bool
  | .operation operation =>
    let process := (perform s.booted.run operation).1.process
    s.booted.run.process.active || !process.active ||
      !process.generationNumber.any (reportedUnder lib s.directory)
  | .record _ _ _ _ _ _ _ =>
    !s.booted.run.process.generationNumber.any fun number =>
      s.booted.run.disk.archives.any fun archive => archive.generation = number
  | _ => true

/-- Every step meets the condition in the state that it finds. -/
def allUnambiguous (lib : Library) (s : RequestedRun) : List RequestStep → Bool
  | [] => true
  | step :: steps => unambiguous lib s step && allUnambiguous lib (advance lib s step) steps

/-! ### What is shown -/

/-- A report that counts: it was recorded in an eligible boot. -/
def Counts (s : RequestedRun) (id : UInt64) (event : OperatorRequestRevision) : Prop :=
  event.action = ascii "disposition" ∧
    ∃ boot, s.reporter id event.revision = some boot ∧ s.booted.Eligible boot

/-- An operator of the run has verified a report, after it was recorded. -/
def Verifies (runID : Bytes) (report event : OperatorRequestRevision) : Prop :=
  event.action = ascii "verify" ∧ event.actor.role = ascii "operator" ∧
    event.actor.runID = runID ∧ event.reportRevision = report.revision ∧
    report.revision < event.revision

/-- **What a request shows**: the latest report that counts, which is not one of a boot that was
discarded, and its verification exactly where there is one. -/
structure Shown (s : RequestedRun) (runID : Bytes) (request : OperatorRequest)
    (view : OperatorRequestView) : Prop where
  id : view.id = request.id
  report : view.report = latest (Counts s request.id) request.history
  kept : ∀ report ∈ view.report, ∃ boot, s.reporter request.id report.revision = some boot ∧
    ¬s.booted.Discarded boot
  verification : view.verification = view.report.bind fun report =>
    latest (Verifies runID report) request.history
  verified : ∀ report ∈ view.report, (view.verification.isSome ↔
    ∃ event ∈ request.history, Verifies runID report event)

/-! ### The invariant -/

/-- **What is known of the reports**: every report of the run has its boot, which had the number
that the report names, and no other boot that is under way or archived has that number. -/
structure ReportsSound (lib : Library) (s : RequestedRun) (ledger : OperatorRequestLedger) :
    Prop where
  boots : BootsSound s.booted
  read : readOperatorRequests lib s.directory = .ok ledger
  reported : ∀ id, ∀ event ∈ ledger.entries id, event.action = ascii "disposition" →
    event.actor.runID = ledger.runID → (s.reporter id event.revision).isSome
  reporter : ∀ id, ∀ event ∈ ledger.entries id, ∀ boot, s.reporter id event.revision = some boot →
    ∃ number, reportsUnder ledger.runID number event = true ∧ s.booted.boots[boot]? = some number ∧
      ∀ other, s.booted.currentBoot = some other ∨ other ∈ s.booted.archived →
        s.booted.boots[other]? = some number → other = boot
  fresh : ∀ id revision, (ledger.entries id).length < revision.toNat → s.reporter id revision = none

variable {lib : Library} {s : RequestedRun} {ledger next : OperatorRequestLedger}
  {event : OperatorRequestRevision}

theorem reportsUnder_iff {runID : Bytes} {number : UInt64} :
    reportsUnder runID number event = true ↔ event.action = ascii "disposition" ∧
      event.actor.runID = runID ∧ event.actor.generation = some number := by
  rw [reportsUnder, decide_eq_true_eq]

theorem historyLength_eq {directory} (h : readOperatorRequests lib directory = .ok ledger)
    (id : UInt64) : historyLength lib directory id = (ledger.entries id).length := by
  rw [historyLength, h]

theorem reportedUnder_of_entry (h : readOperatorRequests lib s.directory = .ok ledger)
    {id number : UInt64} (hevent : event ∈ ledger.entries id)
    (hreports : reportsUnder ledger.runID number event = true) :
    reportedUnder lib s.directory number = true := by
  obtain ⟨request, hfind, hevent⟩ := Store.find_of_mem_entries hevent
  rw [reportedUnder, h]
  exact any_eq_true.mpr ⟨request, mem_of_getElem? (Store.find_eq_some hfind).2,
    any_eq_true.mpr ⟨event, hevent, hreports⟩⟩

/-! ### Steps of the runtime -/

section Operation

variable {operation : Operation}

/-- The boots that a report can be mistaken for are the same. -/
theorem ReportsSound.of_boots (h : ReportsSound lib s ledger) {booted} (hbooted : BootsSound booted)
    (hboots : ∀ (boot : ℕ) number, s.booted.boots[boot]? = some number →
      booted.boots[boot]? = some number) (hother : ∀ id, ∀ event ∈ ledger.entries id, ∀ number,
      reportsUnder ledger.runID number event = true →
      ∀ other, booted.currentBoot = some other ∨ other ∈ booted.archived →
        booted.boots[other]? = some number →
        (s.booted.currentBoot = some other ∨ other ∈ s.booted.archived) ∧
          s.booted.boots[other]? = some number) :
    ReportsSound lib { s with booted := booted } ledger where
  __ := h
  boots := hbooted
  reporter id event hevent boot hboot := by
    obtain ⟨number, hreports, hnumber, halone⟩ := h.reporter id event hevent boot hboot
    refine ⟨number, hreports, hboots boot number hnumber, fun other hplace hsame => ?_⟩
    obtain ⟨hplace, hsame⟩ := hother id event hevent number hreports other hplace hsame
    exact halone other hplace hsame

theorem ReportsSound.operate (h : ReportsSound lib s ledger)
    (hcondition : unambiguous lib s (.operation operation) = true) :
    ReportsSound lib (advance lib s (.operation operation)) ledger := by
  cases bootEffect h.boots.sound (perform_effect s.booted.run operation) with
  | kept harchives hactive =>
    obtain ⟨hboots, harchived, hcurrent, hsound⟩ := h.boots.operate_kept harchives hactive
    refine h.of_boots hsound (fun boot number hnumber => hboots ▸ hnumber) ?_
    intro id event _ number _ other hplace hsame
    rw [hboots] at hsame
    rw [harchived] at hplace
    exact ⟨hplace.imp_left (hcurrent other), hsame⟩
  | began harchives hinactive hactive hparent =>
    obtain ⟨number, hnumber, hboots, harchived, hcurrent, hsound⟩ :=
      h.boots.operate_began harchives hinactive hactive hparent
    have hunreported : reportedUnder lib s.directory number = false := by
      simpa [unambiguous, hinactive, hactive, hnumber] using hcondition
    refine h.of_boots hsound (fun boot number hold => ?_) ?_
    · rw [hboots, getElem?_append_left (List.getElem?_eq_some_iff.mp hold).1, hold]
    · intro id event hevent other hreports boot hplace hsame
      rw [harchived, hcurrent] at hplace
      rw [hboots] at hsame
      rcases hplace with hnew | hold
      · -- the new boot has a number that nothing was reported under
        cases hnew
        rw [getElem?_concat_length] at hsame
        cases hsame
        rw [reportedUnder_of_entry h.read hevent hreports] at hunreported
        cases hunreported
      · rw [getElem?_append_left (h.boots.lt_length hold)] at hsame
        exact ⟨.inr hold, hsame⟩
  | ended harchives hactive hnumber hinactive =>
    obtain ⟨boot, hboot, hboots, harchived, hcurrent, hsound⟩ :=
      h.boots.operate_ended harchives hactive hnumber hinactive
    refine h.of_boots hsound (fun boot number hnumber => hboots ▸ hnumber) ?_
    intro id event _ number _ other hplace hsame
    rw [hboots] at hsame
    rw [harchived, hcurrent] at hplace
    rcases hplace with hnone | hold
    · cases hnone
    rcases mem_append.mp hold with hold | hlast
    · exact ⟨.inr hold, hsame⟩
    · obtain rfl := mem_singleton.mp hlast
      exact ⟨.inl hboot, hsame⟩

end Operation

/-! ### Steps on the ledger -/

section Ledger

variable {entry : OperatorRequestRevision} {id : UInt64} {directory : Directory}

/-- A history grows by its new entry, whose revision is the next one. -/
theorem entry_cases (hadds : Adds ledger next id entry) (hnext : LedgerSound next) {other : UInt64}
    {event} (hevent : event ∈ next.entries other) :
    event ∈ ledger.entries other ∧ event.revision.toNat ≤ (ledger.entries other).length ∨
      other = id ∧ event = entry ∧ event.revision.toNat = (ledger.entries id).length + 1 := by
  obtain ⟨i, hi⟩ := mem_iff_getElem?.mp hevent
  have hrevision := Store.toNat_revision hnext hi
  by_cases hother : other = id
  · subst hother
    rw [hadds.here] at hi
    rcases Nat.lt_or_ge i (ledger.entries other).length with hlt | hle
    · rw [getElem?_append_left hlt] at hi
      exact .inl ⟨mem_of_getElem? hi, by omega⟩
    rw [getElem?_append_right hle] at hi
    obtain rfl := mem_singleton.mp (mem_of_getElem? hi)
    have hzero := (List.getElem?_eq_some_iff.mp hi).1
    rw [length_singleton] at hzero
    exact .inr ⟨rfl, rfl, by omega⟩
  · rw [hadds.others other hother] at hevent hi
    have hlt := (List.getElem?_eq_some_iff.mp hi).1
    exact .inl ⟨hevent, by omega⟩

theorem runID_of_entry {id other : UInt64} {entry event} (hadds : Adds ledger next id entry)
    (hevent : event ∈ ledger.entries other) : next.runID = ledger.runID := by
  refine hadds.runID.resolve_left fun hnil => ?_
  rw [OperatorRequestLedger.entries, OperatorRequestLedger.find, hnil] at hevent
  split_ifs at hevent <;> cases hevent

/-- What an operator adds is no report. -/
theorem ReportsSound.adds (h : ReportsSound lib s ledger)
    (hread : readOperatorRequests lib directory = .ok next) (hadds : Adds ledger next id entry)
    (haction : entry.action ≠ ascii "disposition") :
    ReportsSound lib { s with directory := directory } next := by
  have hnext := Store.ledgerSound_of_read hread
  refine ⟨h.boots, hread, ?_, ?_, ?_⟩
  · intro other event hevent hdisposition hrun
    rcases entry_cases hadds hnext hevent with ⟨hold, -⟩ | ⟨-, rfl, -⟩
    · rw [runID_of_entry hadds hold] at hrun
      exact h.reported other event hold hdisposition hrun
    · exact absurd hdisposition haction
  · intro other event hevent boot hboot
    rcases entry_cases hadds hnext hevent with ⟨hold, -⟩ | ⟨rfl, rfl, hrevision⟩
    · rw [runID_of_entry hadds hold]
      exact h.reporter other event hold boot hboot
    · rw [h.fresh _ _ (by omega)] at hboot
      cases hboot
  · intro other revision hlength
    refine h.fresh other revision (lt_of_le_of_lt ?_ hlength)
    by_cases hother : other = id
    · rw [hother, hadds.here, length_append]
      exact Nat.le_add_right _ _
    · rw [hadds.others other hother]

/-- What an operator does. -/
theorem ReportsSound.operator (h : ReportsSound lib s ledger) {action : Bytes}
    (hcalls : Calls lib action s.directory directory) (haction : action ≠ ascii "disposition") :
    ∃ next, ReportsSound lib { s with directory := directory } next := by
  rcases hcalls with rfl | ⟨env, call, rfl, hwrites⟩
  · exact ⟨ledger, h⟩
  obtain ⟨next, hread, rfl | ⟨id, entry, hadds, hentry⟩⟩ := Store.perform_adds h.read env call
  · exact ⟨next, h.boots, hread, h.reported, h.reporter, h.fresh⟩
  · exact ⟨next, h.adds hread hadds (hwrites id entry hentry ▸ haction)⟩

theorem ne_disposition : ∀ action ∈ [ascii "create", ascii "withdraw", ascii "verify"],
    action ≠ ascii "disposition" := by
  decide +kernel

/-- A report is added, in the boot that is under way and has a number that no archive has. -/
theorem ReportsSound.report (h : ReportsSound lib s ledger)
    (hread : readOperatorRequests lib directory = .ok next) (hadds : Adds ledger next id entry)
    {number : UInt64} {boot : ℕ} (hcurrent : s.booted.currentBoot = some boot)
    (hnumber : s.booted.run.process.generationNumber = some number)
    (hreports : reportsUnder next.runID number entry = true)
    (hunarchived : ∀ archive ∈ s.booted.run.disk.archives, archive.generation ≠ number) :
    ReportsSound lib { s with
      directory := directory, reporter := reporterAfter lib s id directory } next := by
  have hnext := Store.ledgerSound_of_read hread
  have hlength : (next.entries id).length = (ledger.entries id).length + 1 := by
    rw [hadds.here, length_append, length_singleton]
  -- the boot of an entry that was there before is the same
  have hold {other revision : UInt64} (hle : revision.toNat ≤ (ledger.entries other).length) :
      reporterAfter lib s id directory other revision = s.reporter other revision := by
    refine if_neg ?_
    rintro ⟨rfl, hlt, -⟩
    rw [historyLength_eq h.read] at hlt
    omega
  have hnew {revision : UInt64} (heq : revision.toNat = (ledger.entries id).length + 1) :
      reporterAfter lib s id directory id revision = some boot := by
    refine (if_pos ⟨rfl, ?_, ?_⟩).trans hcurrent
    · rw [historyLength_eq h.read]
      omega
    · rw [historyLength_eq hread]
      omega
  refine ⟨h.boots, hread, ?_, ?_, ?_⟩
  · intro other event hevent hdisposition hrun
    rcases entry_cases hadds hnext hevent with ⟨hmem, hle⟩ | ⟨rfl, rfl, hrevision⟩
    · rw [runID_of_entry hadds hmem] at hrun
      exact (congrArg Option.isSome (hold hle)).trans
        (h.reported other event hmem hdisposition hrun)
    · exact congrArg Option.isSome (hnew hrevision)
  · intro other event hevent found hreporter
    rcases entry_cases hadds hnext hevent with ⟨hmem, hle⟩ | ⟨rfl, rfl, hrevision⟩
    · rw [runID_of_entry hadds hmem]
      exact h.reporter other event hmem found ((hold hle).symm.trans hreporter)
    obtain rfl := Option.some.inj ((hnew hrevision).symm.trans hreporter)
    refine ⟨number, hreports, (h.boots.current _ hcurrent).trans hnumber, ?_⟩
    rintro second (hsecond | harchived) hsame
    · exact Option.mem_unique hsecond hcurrent
    · -- an archive would have the number of the generation that is under way
      obtain ⟨place, hplace⟩ := mem_iff_getElem?.mp harchived
      have hlt := (List.getElem?_eq_some_iff.mp hplace).1
      rw [h.boots.length] at hlt
      have hnumbered := h.boots.numbered place second _ hplace (getElem?_eq_getElem hlt)
      exact absurd (Option.mem_unique hnumbered hsame)
        (hunarchived _ (getElem_mem hlt))
  · intro other revision hlt
    have hbefore : (ledger.entries other).length ≤ (next.entries other).length := by
      by_cases hother : other = id
      · rw [hother, hlength]
        exact Nat.le_succ _
      · rw [hadds.others other hother]
    refine (if_neg ?_).trans (h.fresh other revision (lt_of_le_of_lt hbefore hlt))
    rintro ⟨rfl, -, hle⟩
    rw [historyLength_eq hread] at hle
    omega

/-- A call of an implementor that leaves the ledger as it was. -/
theorem ReportsSound.unreported (h : ReportsSound lib s ledger)
    (hread : readOperatorRequests lib directory = .ok ledger) (id : UInt64) :
    ReportsSound lib { s with
      directory := directory, reporter := reporterAfter lib s id directory } ledger := by
  have hreporter : reporterAfter lib s id directory = s.reporter := by
    funext other revision
    refine if_neg ?_
    rw [historyLength_eq h.read, historyLength_eq hread]
    omega
  rw [hreporter]
  exact ⟨h.boots, hread, h.reported, h.reporter, h.fresh⟩

/-- **A report is recorded**, in the boot that is under way. -/
theorem ReportsSound.record (h : ReportsSound lib s ledger) {env} {id revision : UInt64} {actor}
    {disposition explanation evidence : Bytes} (hcondition : unambiguous lib s
      (.record env id revision actor disposition explanation evidence) = true) :
    ∃ next, ReportsSound lib (advance lib s
      (.record env id revision actor disposition explanation evidence)) next := by
  by_cases hactive : s.booted.run.process.transitioning = true ∨
      s.booted.run.process.state ≠ .running ∨ s.booted.run.process.generationNumber = none ∨
      actor.generation ≠ s.booted.run.process.generationNumber ∨ actor.role ≠ ascii "implementor"
  · rw [advance, recordOperatorRequest, if_pos hactive]
    exact ⟨ledger, h.unreported h.read id⟩
  rw [advance, recordOperatorRequest, if_neg hactive]
  simp only [not_or, not_not] at hactive
  obtain ⟨-, hrunning, hnumbered, hgeneration, -⟩ := hactive
  obtain ⟨number, hnumber⟩ := Option.ne_none_iff_exists'.mp hnumbered
  obtain ⟨next, hread, rfl | ⟨written, entry, hadds, rfl, haction, hactor⟩⟩ :=
    Store.perform_adds h.read env (.append id revision
      ⟨0, ascii "disposition", actor, [], disposition, explanation, evidence, 0⟩)
  · exact ⟨next, h.unreported hread id⟩
  have hboot := currentBoot_of_active (active_iff.mpr (.inl hrunning))
  refine ⟨next, h.report hread hadds hboot hnumber (reportsUnder_iff.mpr
    ⟨haction, hadds.run, by rw [hactor, hgeneration, hnumber]⟩) fun archive harchive heq => ?_⟩
  simp only [unambiguous, hnumber, Option.any_some, Bool.not_eq_true', any_eq_false,
    decide_eq_true_eq] at hcondition
  exact hcondition archive harchive heq

end Ledger

/-- A step. -/
theorem ReportsSound.step (h : ReportsSound lib s ledger) {step}
    (hcondition : unambiguous lib s step = true) :
    ∃ next, ReportsSound lib (advance lib s step) next := by
  cases step with
  | operation operation => exact ⟨ledger, h.operate hcondition⟩
  | create env account title description =>
    exact h.operator (createOperatorRequest_calls ..) (ne_disposition _ (by simp))
  | withdraw env account id reason =>
    exact h.operator (withdrawOperatorRequest_calls ..) (ne_disposition _ (by simp))
  | verify env account id revision note =>
    exact h.operator (verifyOperatorRequest_calls ..) (ne_disposition _ (by simp))
  | record => exact h.record hcondition

/-- **Step after step.** -/
theorem ReportsSound.steps {steps} (h : ReportsSound lib s ledger)
    (hcondition : allUnambiguous lib s steps = true) :
    ∃ next, ReportsSound lib (advanceAll lib s steps) next := by
  induction steps generalizing s ledger with
  | nil => exact ⟨ledger, h⟩
  | cons step steps ih =>
    obtain ⟨hstep, hsteps⟩ := (Bool.and_eq_true _ _).mp hcondition
    obtain ⟨next, hnext⟩ := h.step hstep
    exact ih hnext hsteps

/-! ### The generations whose reports apply -/

/-- What the walk begins with is an archive. -/
theorem BootsSound.head (h : BootsSound s.booted) : ∀ generation ∈ s.booted.lineageHead,
    ∃ archive ∈ s.booted.run.disk.archives, archive.generation = generation := by
  intro generation hgeneration
  rw [BootedRun.lineageHead] at hgeneration
  split_ifs at hgeneration with hactive hawaiting
  · exact h.parent hactive generation hgeneration
  · obtain ⟨before, latest, harchives, hnumber, -⟩ := h.sound.gate hawaiting
    refine ⟨latest, by rw [harchives]; simp, ?_⟩
    exact Option.mem_unique hnumber hgeneration
  · cases hgeneration

/-- Without a number, no generation is under way or at the gate. -/
theorem BootsSound.of_unnumbered (h : BootsSound s.booted)
    (hnumber : s.booted.run.process.generationNumber = none) :
    s.booted.run.process.active = false ∧ s.booted.lineageHead = none := by
  have hinactive : s.booted.run.process.active = false := by
    by_contra hactive
    obtain ⟨number, hsome⟩ := h.sound.number_of_active (Bool.not_eq_false _ ▸ hactive)
    rw [hnumber] at hsome
    cases hsome
  refine ⟨hinactive, ?_⟩
  rw [BootedRun.lineageHead, hinactive, hnumber]
  simp

/-- The numbers are those of the generation that is under way, and of the completed ancestors. -/
def Collected (s : RequestedRun) (eligible : List UInt64) : Prop :=
  ∀ number, number ∈ eligible ↔
    s.booted.run.process.active = true ∧ s.booted.run.process.generationNumber = some number ∨
    Lineage s.booted.run.disk.archives s.booted.lineageHead number ∧
      Completed s.booted.run.disk.archives number

/-- **The generations that the walk collects**: the one that is under way, and the completed
ancestors. -/
theorem eligibleGenerations_eq (h : BootsSound s.booted) (hledger : ledger.all ≠ []) :
    ∃ eligible, (∀ rounds, maxRounds ≤ rounds →
        eligibleGenerations rounds s.booted.run ledger = some (.ok eligible)) ∧
      Collected s eligible := by
  unfold Collected
  have henough {rounds : ℕ} (hrounds : maxRounds ≤ rounds) (head : Option UInt64) :
      ∀ generation ∈ head, generation.toNat < rounds :=
    fun generation _ => lt_of_lt_of_le generation.toNat_lt hrounds
  rcases hnumber : s.booted.run.process.generationNumber with _ | current
  · obtain ⟨-, hhead⟩ := h.of_unnumbered hnumber
    refine ⟨[], fun rounds _ => by rw [eligibleGenerations, hnumber], fun number => ⟨nofun, ?_⟩⟩
    rw [hhead]
    rintro (⟨-, hnone⟩ | ⟨hlineage, -⟩)
    · cases hnone
    · cases hlineage
  have hstart (eligible : List UInt64) := ancestry_eq h.sound h.head eligible
  by_cases hactive : s.booted.run.process.active = true
  · obtain ⟨found, hwalk, hfound⟩ := hstart [current]
    have hhead : s.booted.lineageHead = s.booted.run.process.currentParent := by
      rw [BootedRun.lineageHead, if_pos hactive]
    refine ⟨[current] ++ found, fun rounds hrounds => ?_, fun number => ?_⟩
    · rw [eligibleGenerations, hnumber]
      dsimp only
      rw [if_neg hledger, if_pos hactive, ← hhead]
      exact hwalk rounds (henough hrounds _)
    · rw [mem_append, mem_singleton, hfound, Option.some.injEq]
      simp only [hactive, true_and]
      exact or_congr eq_comm Iff.rfl
  · obtain ⟨found, hwalk, hfound⟩ := hstart []
    have hhead : s.booted.lineageHead =
        if s.booted.run.process.state = .awaitingNextGeneration then some current else none := by
      rw [BootedRun.lineageHead, if_neg hactive, hnumber]
    refine ⟨[] ++ found, fun rounds hrounds => ?_, fun number => ?_⟩
    · rw [eligibleGenerations, hnumber]
      dsimp only
      rw [if_neg hledger, if_neg hactive]
      have hwalk := hwalk rounds (henough hrounds _)
      rw [hhead] at hwalk
      split_ifs at hwalk ⊢ with hawaiting
      · exact hwalk
      -- a run that is stopped has no parent to begin with
      have hstopped : s.booted.run.process.state = .stopped := by
        rw [active_iff, not_or] at hactive
        cases hstate : s.booted.run.process.state with
        | stopped => rfl
        | running => exact absurd hstate hactive.1
        | paused => exact absurd hstate hactive.2
        | awaitingNextGeneration => exact absurd hstate hawaiting
      rw [h.sound.stopped hstopped]
      exact hwalk
    · rw [nil_append, hfound]
      simp only [hactive, Bool.false_eq_true, false_and, false_or]

/-- **The numbers of generations say which boots are meant**: the reports that apply are those that
count. -/
theorem applies_iff_counts (h : ReportsSound lib s ledger) {eligible : List UInt64}
    (heligible : Collected s eligible) {id : UInt64} (hevent : event ∈ ledger.entries id) :
    applies ledger.runID eligible event = true ↔ Counts s id event := by
  rw [applies, decide_eq_true_eq]
  constructor
  · rintro ⟨haction, hrun, hany⟩
    obtain ⟨boot, hboot⟩ := Option.isSome_iff_exists.mp (h.reported id event hevent haction hrun)
    obtain ⟨number, hreports, hnumber, halone⟩ := h.reporter id event hevent boot hboot
    obtain ⟨-, -, hgeneration⟩ := reportsUnder_iff.mp hreports
    rw [hgeneration, Option.any_some, decide_eq_true_eq, heligible] at hany
    refine ⟨haction, boot, hboot, ?_⟩
    rcases hany with ⟨hactive, hcurrent⟩ | ⟨hlineage, hcompleted⟩
    · have hother := currentBoot_of_active hactive
      have hsame := halone _ (.inl hother) ((h.boots.current _ hother).trans hcurrent)
      exact .inl (hsame ▸ hother)
    obtain ⟨other, -, hother, -, -, -, hsecond⟩ := h.boots.archived_of_completed hcompleted
    have hsame := halone other (.inr (mem_of_getElem? hother)) hsecond
    exact .inr ⟨number, hlineage, hcompleted, hsame ▸ hother⟩
  · rintro ⟨haction, boot, hboot, hboots⟩
    obtain ⟨number, hreports, hnumber, -⟩ := h.reporter id event hevent boot hboot
    obtain ⟨-, hrun, hgeneration⟩ := reportsUnder_iff.mp hreports
    refine ⟨haction, hrun, ?_⟩
    rw [hgeneration, Option.any_some, decide_eq_true_eq, heligible]
    rcases hboots with hcurrent | ⟨generation, hlineage, hcompleted, harchived⟩
    · have hnumbered := h.boots.current boot hcurrent
      exact .inl ⟨(active_of_currentBoot hcurrent).1, hnumbered.symm.trans hnumber⟩
    obtain ⟨other, -, hother, -, -, -, hsecond⟩ := h.boots.archived_of_completed hcompleted
    obtain rfl := Option.mem_unique harchived hother
    obtain rfl := Option.mem_unique hnumber hsecond
    exact .inr ⟨hlineage, hcompleted⟩

/-! ### The context -/

/-- In a ledger that was read, what is verified comes first. -/
theorem verifiesEarlier_entries (h : LedgerSound ledger) (id : UInt64) :
    VerifiesEarlier (ledger.entries id) := by
  intro front event back hsplit earlier hearlier hverify heq
  obtain ⟨i, hi⟩ := mem_iff_getElem?.mp hearlier
  have hlt := (List.getElem?_eq_some_iff.mp hi).1
  have hplace : (ledger.entries id)[i]? = some earlier := by
    rw [hsplit, getElem?_append_left hlt, hi]
  have hevent : (ledger.entries id)[front.length]? = some event := by rw [hsplit]; simp
  have hrevision := Store.toNat_revision h hplace
  have hrevision' := Store.toNat_revision h hevent
  have hbefore := ((Store.entrySound_of_entries h hplace).1.verified hverify).2.1
  rw [heq, UInt64.lt_iff_toNat_lt] at hbefore
  omega

theorem attests_iff_verifies (hread : readOperatorRequests lib s.directory = .ok ledger)
    {id : UInt64} {report event : OperatorRequestRevision} (hevent : event ∈ ledger.entries id) :
    attests ledger.runID report event = true ↔ Verifies ledger.runID report event := by
  rw [attests, decide_eq_true_eq]
  constructor
  · rintro ⟨haction, hreport, hrun⟩
    obtain ⟨i, hi⟩ := mem_iff_getElem?.mp hevent
    have hsound := (Store.entrySound_of_entries (Store.ledgerSound_of_read hread) hi).1
    exact ⟨haction, Store.role_of_verify hread hevent haction, hrun, hreport,
      hreport ▸ (hsound.verified haction).2.1⟩
  · rintro ⟨haction, -, hrun, hreport, -⟩
    exact ⟨haction, hreport, hrun⟩

/-- **What is shown of a request.** -/
theorem shown_viewRequest (h : ReportsSound lib s ledger) {eligible : List UInt64}
    (heligible : Collected s eligible)
    {request : OperatorRequest} (hfind : ledger.find request.id = some request) :
    Shown s ledger.runID request (viewRequest ledger.runID eligible request) := by
  have hentries : ledger.entries request.id = request.history := Store.entries_of_find hfind
  have hearlier : VerifiesEarlier request.history :=
    hentries ▸ verifiesEarlier_entries (Store.ledgerSound_of_read h.read) request.id
  have hcounts : latest (fun event => applies ledger.runID eligible event = true) request.history =
      latest (Counts s request.id) request.history :=
    latest_congr fun event hevent => applies_iff_counts h heligible (hentries ▸ hevent)
  have hverifies (report : OperatorRequestRevision) :
      latest (fun event => attests ledger.runID report event = true) request.history =
        latest (Verifies ledger.runID report) request.history :=
    latest_congr fun event hevent => attests_iff_verifies h.read (hentries ▸ hevent)
  obtain ⟨hreport, hverification⟩ := @foldl_viewEvent ledger.runID eligible
    ⟨request.id, request.title, request.description, request.revision, request.active,
      request.history.head?.elim ⟨[], [], [], none, [], []⟩ OperatorRequestRevision.actor, none,
      none⟩
    rfl rfl request.history hearlier
  simp only [hcounts, hverifies] at hreport hverification
  refine ⟨?_, hreport, fun report hshown => ?_, ?_, fun report hshown => ?_⟩
  · obtain ⟨report, verification, hview⟩ := @foldl_viewEvent_frame ledger.runID eligible
      request.history _
    rw [viewRequest, hview]
  · obtain ⟨-, -, boot, hboot, heligible⟩ := latest_eq_some (hreport.symm.trans hshown)
    exact ⟨boot, hboot, h.boots.not_discarded heligible⟩
  · rw [viewRequest, hreport, hverification]
  · rw [viewRequest, hverification, ← hreport]
    rw [Option.mem_def, viewRequest] at hshown
    rw [hshown, Option.bind_some, latest_isSome]

/-- At the beginning of a run no report in the ledger is one of its own. -/
theorem reportsSound_new {capacity : Guest.Budget} (hcapacity : capacity.Valid)
    (identity : Option Provenance.HarnessIdentity) (bootstrap : Option Bytes) {directory}
    (hread : readOperatorRequests lib directory = .ok ledger)
    (hnew : ∀ request ∈ ledger.all, ∀ event ∈ request.history, event.actor.runID ≠ ledger.runID) :
    ReportsSound lib (newRequestedRun identity capacity bootstrap directory) ledger := by
  refine ⟨bootsSound_new hcapacity bootstrap, hread, ?_, fun _ _ _ _ hboot => ?_, fun _ _ _ => rfl⟩
  · intro id event hevent _ hrun
    obtain ⟨request, hfind, hevent⟩ := Store.find_of_mem_entries hevent
    have hrequest := mem_of_getElem? (Store.find_eq_some hfind).2
    exact absurd hrun (hnew request hrequest event hevent)
  · cases hboot

/-- **What a generation is shown, after any steps**: the walk over the ancestry ends, and every
request shows the latest report of the boot that is under way and of its completed ancestors, with
its verification. -/
theorem operatorRequestsLocked_lineage {identity : Option Provenance.HarnessIdentity}
    {capacity : Guest.Budget} {bootstrap : Option Bytes} (hcapacity : capacity.Valid)
    {directory : Directory} (hread : readOperatorRequests lib directory = .ok ledger)
    (hnew : ∀ request ∈ ledger.all, ∀ event ∈ request.history, event.actor.runID ≠ ledger.runID)
    {steps : List RequestStep} (hsteps : allUnambiguous lib
      (newRequestedRun identity capacity bootstrap directory) steps = true) :
    let s := advanceAll lib (newRequestedRun identity capacity bootstrap directory) steps
    ∃ ledger context, readOperatorRequests lib s.directory = .ok ledger ∧
      (∀ rounds, maxRounds ≤ rounds →
        operatorRequestsLocked lib rounds s.booted.run s.directory = some (.ok context)) ∧
      List.Forall₂ (Shown s ledger.runID) ledger.all context.requests := by
  obtain ⟨final, hfinal⟩ :=
    (reportsSound_new hcapacity identity bootstrap hread hnew).steps hsteps
  intro s
  by_cases hempty : final.all = []
  · refine ⟨final, ⟨final.runID, final.revision, []⟩, hfinal.read, fun rounds _ => ?_, ?_⟩
    · rw [operatorRequestsLocked, hfinal.read]
      have hnone : eligibleGenerations rounds s.booted.run final = some (.ok []) := by
        rw [eligibleGenerations]
        split
        · rfl
        · rw [if_pos hempty]
      dsimp only
      rw [hnone, hempty]
      rfl
    · rw [hempty]
      exact .nil
  · obtain ⟨eligible, hwalk, heligible⟩ := eligibleGenerations_eq hfinal.boots hempty
    refine ⟨final, ⟨final.runID, final.revision, final.all.map (viewRequest final.runID eligible)⟩,
      hfinal.read, fun rounds hrounds => ?_, ?_⟩
    · rw [operatorRequestsLocked, hfinal.read]
      dsimp only
      rw [hwalk rounds hrounds]
      rfl
    · rw [List.forall₂_map_right_iff, List.forall₂_same]
      intro request hrequest
      obtain ⟨i, hi⟩ := mem_iff_getElem?.mp hrequest
      have hfind := Store.find_of_getElem (Store.ledgerSound_of_read hfinal.read) hi
      exact shown_viewRequest hfinal heligible hfind

/-! ### A report of a boot that was lost -/

/-- The second generation is under way, an operator asks for a shell, and the implementor
reports. -/
def reportingSteps : List RequestStep :=
  (firstGeneration none ++ [Operation.continueGeneration fortunate,
    Operation.finishTransition fortunate]).map .operation ++
  [.create Store.sampleSurroundings (some (ascii "operator")) (ascii "Shell")
      (ascii "Add a shell."),
    .record Store.sampleSurroundings 1 1
      ⟨ascii "implementor", ascii "agent", [], some 1, ascii "thread", ascii "turn"⟩
      (ascii "pursuing") (ascii "Noted.") []]

/-- The run is closed, and its second generation is started once more. -/
def restartingSteps : List RequestStep :=
  [Operation.reopen (some none), Operation.reopenAtGate fortunate,
    Operation.continueGeneration fortunate, Operation.finishTransition fortunate].map .operation

def reportedRun : RequestedRun :=
  advanceAll Store.sampleLibrary (newRequestedRun none 0 none []) reportingSteps

theorem operatorRequestsLocked_lineage_reporting :
    allUnambiguous Store.sampleLibrary (newRequestedRun none 0 none []) reportingSteps = true ∧
    ∃ ledger, ∃ context : OperatorRequestContext,
      readOperatorRequests Store.sampleLibrary reportedRun.directory = .ok ledger ∧
      List.Forall₂ (Shown reportedRun ledger.runID) ledger.all context.requests := by
  have hsteps : allUnambiguous Store.sampleLibrary (newRequestedRun none 0 none [])
      reportingSteps = true := by decide +kernel
  refine ⟨hsteps, ?_⟩
  obtain ⟨ledger, context, hread, -, hshown⟩ := @operatorRequestsLocked_lineage Store.sampleLibrary
    Store.noLedger none 0 none (by decide) [] rfl (fun _ hrequest => by cases hrequest) _ hsteps
  exact ⟨ledger, context, hread, hshown⟩

/-- **A report of a boot that was lost is shown**: the second generation was booted twice, the first
of these boots has reported, and is neither under way nor archived. -/
theorem lost_report_shown :
    let s := advanceAll Store.sampleLibrary (newRequestedRun none 0 none [])
      (reportingSteps ++ restartingSteps)
    s.booted.boots = [0, 1, 1] ∧ s.booted.archived = [0] ∧ s.booted.currentBoot = some 2 ∧
      s.reporter 1 2 = some 1 ∧
      (operatorRequestsLocked Store.sampleLibrary 4 s.booted.run s.directory).map
        (fun result => result.toOption.map fun context =>
          context.requests.map fun view => view.report.map OperatorRequestRevision.revision) =
        some (some [some 2]) := by
  decide +kernel

end Carcer.Experiment
