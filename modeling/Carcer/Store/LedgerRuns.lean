import Carcer.Store.LedgerGrowth

/-!
# Runs of calls on the ledger

What `Create` and `Append` do to the ledger of a run directory, whoever makes the calls and however
old the view is that a call rests on: the ledger is read back after every call, and it only grows.

## Main definitions

* `Grows`: a ledger and what it may become
* `Stale`, `Repeats`: a call that rests on an old revision, and one that repeats the last entry

## Main results

* `perform_cases`: what one call does
* `performAll_grows`: the ledger only grows
* `operatorRequests_sound`: sequences of calls
-/

namespace Carcer.Store

open Carcer.Wire Carcer.Json Carcer.Disk

variable {lib : Library} {env : Surroundings} {run : Directory}
  {ledger next : OperatorRequestLedger} {request : OperatorRequest} {id expected : UInt64}
  {now : Bytes} {call : LedgerCall} {run' : Directory} {random : Bytes}

/-! ### The updates -/

/-- The ledger that an update is applied to: a ledger without a run gets one. -/
def OperatorRequestLedger.begun (random : Bytes) (ledger : OperatorRequestLedger) :
    OperatorRequestLedger :=
  if ledger.runID = [] then { ledger with runID := newOperatorRunID random } else ledger

/-- The request with an identifier. -/
def OperatorRequestLedger.find (ledger : OperatorRequestLedger) (id : UInt64) :
    Option OperatorRequest :=
  if id = 0 then none else ledger.all[id.toNat - 1]?

def LedgerCall.update (now : Bytes) : LedgerCall → OperatorRequestLedger →
    Except LedgerError (OperatorRequestLedger × OperatorRequest)
  | .create actor title description => createRequest actor title description now
  | .append id expected entry => appendRevision id expected entry now

/-- **What `Create` does to the ledger.** -/
theorem createRequest_eq_ok {actor} {title description now : Bytes}
    (h : createRequest actor title description now ledger = .ok (next, request)) :
    next = { ledger with
      requests := some (ledger.all ++ [request])
      revision := ledger.revision + 1 } ∧
    request = ⟨UInt64.ofNat ledger.all.length + 1, title, description,
      [⟨1, ascii "create", { actor with runID := ledger.runID }, now, [], [], [], 0⟩]⟩ := by
  obtain ⟨⟨⟩, -, h⟩ := bind_eq_ok.mp h
  cases h
  exact ⟨rfl, rfl⟩

/-- A call repeats the last entry of its request. -/
def Repeats (ledger : OperatorRequestLedger) (id expected : UInt64)
    (entry : OperatorRequestRevision) : Prop :=
  ∃ request last, ledger.find id = some request ∧ request.history.getLast? = some last ∧
    completeEntry ledger expected last.timestamp entry = last

/-- A call rests on a revision that is not the one of its request. -/
def Stale (ledger : OperatorRequestLedger) (id expected : UInt64) : Prop :=
  ∃ request, ledger.find id = some request ∧ expected ≠ request.revision

/-- The request with an entry added. -/
def OperatorRequest.extended (request : OperatorRequest) (entry : OperatorRequestRevision) :
    OperatorRequest :=
  { request with history := request.history ++ [entry] }

/-- **What `Append` does to the ledger**: nothing if the call repeats the last entry, and otherwise
it adds the entry behind the revision that the call rests on. -/
theorem appendRevision_eq_ok {entry}
    (h : appendRevision id expected entry now ledger = .ok (next, request)) :
    (Repeats ledger id expected entry ∧ ledger.find id = some request ∧ next = ledger) ∨
    ∃ old, ledger.find id = some old ∧ expected = old.revision ∧ old.active = true ∧
      request = old.extended (completeEntry ledger expected now entry) ∧
      next = { ledger with
        requests := some (ledger.all.set (id.toNat - 1) request)
        revision := ledger.revision + 1 } := by
  unfold appendRevision at h
  split at h
  · cases h
  rename_i old hold
  split at h
  · cases h
  rename_i last hlast
  split at h
  · rename_i hrepeat
    obtain ⟨rfl, rfl⟩ := Prod.mk.inj (Except.ok.inj h)
    exact .inl ⟨⟨old, last, hold, hlast, hrepeat⟩, hold, rfl⟩
  obtain ⟨⟨⟩, hrevision, h⟩ := bind_eq_ok.mp h
  obtain ⟨⟨⟩, hactive, h⟩ := bind_eq_ok.mp h
  simp only [failIf_eq_ok, not_not, Bool.not_eq_false] at hrevision hactive
  obtain ⟨rfl, rfl⟩ := Prod.mk.inj (Except.ok.inj h)
  exact .inr ⟨old, hold, hrevision, hactive, rfl, rfl⟩

theorem appendRevision_of_repeats {entry} (now : Bytes) (h : Repeats ledger id expected entry) :
    ∃ request, ledger.find id = some request ∧
      appendRevision id expected entry now ledger = .ok (ledger, request) := by
  obtain ⟨request, last, hrequest, hlast, hrepeat⟩ := h
  refine ⟨request, hrequest, ?_⟩
  have hrequest' : (if id = 0 then none else ledger.all[id.toNat - 1]?) = some request := hrequest
  rw [appendRevision, hrequest']
  simp only [hlast, hrepeat, if_true]

/-- A history is not empty, so a stale call that repeats nothing is refused. -/
theorem appendRevision_of_stale {entry} (hsound : LedgerSound ledger)
    (hstale : Stale ledger id expected) (hrepeats : ¬Repeats ledger id expected entry) :
    appendRevision id expected entry now ledger = .error .revisionChanged := by
  obtain ⟨request, hrequest, hrevision⟩ := hstale
  have hrequest' : (if id = 0 then none else ledger.all[id.toNat - 1]?) = some request := hrequest
  have hplace : ledger.all[id.toNat - 1]? = some request := by
    split at hrequest'
    · cases hrequest'
    · exact hrequest'
  obtain ⟨last, hlast⟩ : ∃ last, request.history.getLast? = some last :=
    Option.isSome_iff_exists.mp (by
      simpa using (hsound.request _ _ hplace).nonempty)
  have hne : completeEntry ledger expected last.timestamp entry ≠ last :=
    fun heq => hrepeats ⟨request, last, hrequest, hlast, heq⟩
  rw [appendRevision, hrequest']
  simp only [hlast, if_neg hne, failIf, if_pos hrevision]
  rfl

/-- The ledger of the same run with the same inheritance, and requests that extend the others. -/
structure Updates (ledger next : OperatorRequestLedger) : Prop where
  runID : next.runID = ledger.runID
  inherited : next.inherited = ledger.inherited
  requests : Extends ledger.runID ledger.all next.all

theorem Updates.refl : Updates ledger ledger := ⟨rfl, rfl, .refl⟩

theorem find_eq_some {id : UInt64} (h : ledger.find id = some request) :
    id ≠ 0 ∧ ledger.all[id.toNat - 1]? = some request := by
  unfold OperatorRequestLedger.find at h
  split at h
  · cases h
  · rename_i hid
    exact ⟨hid, h⟩

theorem continues_extended {runID : Bytes} {entry : OperatorRequestRevision}
    (h : entry.actor.runID = runID) : Continues runID request (request.extended entry) :=
  ⟨rfl, rfl, [entry], rfl, by simpa using h⟩

/-- **Every update extends the ledger.** -/
theorem updates_of_update
    (h : call.update now ledger = .ok (next, request)) : Updates ledger next := by
  cases call with
  | create actor title description =>
    obtain ⟨rfl, rfl⟩ := createRequest_eq_ok h
    refine ⟨rfl, rfl, extends_concat fun entry hentry => ?_⟩
    obtain rfl := List.mem_singleton.mp hentry
    rfl
  | append id expected entry =>
    rcases appendRevision_eq_ok h with ⟨-, -, rfl⟩ | ⟨old, hold, -, -, rfl, rfl⟩
    · exact .refl
    · exact ⟨rfl, rfl, extends_set (find_eq_some hold).2 (continues_extended rfl)⟩

theorem validateOperatorInheritance_of_updates (h : Updates ledger next)
    (hvalid : validateOperatorInheritance lib run ledger = .ok ()) :
    validateOperatorInheritance lib run next = .ok () := by
  obtain ⟨parent, horigin, hextends⟩ := validateOperatorInheritance_eq_ok.mp hvalid
  refine validateOperatorInheritance_eq_ok.mpr ⟨parent, ?_, ?_⟩
  · rw [h.runID, h.inherited]
    exact horigin
  · rw [h.runID]
    exact hextends.trans h.requests

/-! ### One call -/

theorem filename_ne_lock : operatorRequestsFilename ≠ operatorRequestsLock ∧
    inheritedOperatorRequestsFilename ≠ operatorRequestsLock ∧
    inheritedOperatorRequestsFilename ≠ operatorRequestsFilename := by decide +kernel

theorem openLock_eq_some {locked} (h : openLock run = some locked) :
    (∀ name, name ≠ operatorRequestsLock → locked.entry name = run.entry name) ∧
      openLock locked = some locked := by
  unfold openLock at h
  split at h
  · cases h
    refine ⟨fun name hname => Named.entry_put_of_ne hname _ _, ?_⟩
    unfold openLock
    rw [Named.entry_put]
  iterate 2
    rename_i hlock
    cases h
    refine ⟨fun _ _ => rfl, ?_⟩
    unfold openLock
    rw [hlock]
  · cases h

/-- A call left the directory alone, but for the lock. -/
def Untouched (run run' : Directory) : Prop := run' = run ∨ openLock run = some run'

theorem Untouched.entry (h : Untouched run run') {name : Bytes}
    (hname : name ≠ operatorRequestsLock) : run'.entry name = run.entry name := by
  rcases h with rfl | hlock
  · rfl
  · exact (openLock_eq_some hlock).1 name hname

theorem Untouched.read (h : Untouched run run') :
    readOperatorRequests lib run' = readOperatorRequests lib run :=
  readOperatorRequests_congr (h.entry filename_ne_lock.1) (h.entry filename_ne_lock.2.1)

theorem openLock_put {new : Entry} (h : openLock run = some run) :
    openLock (run.put operatorRequestsFilename new) =
      some (run.put operatorRequestsFilename new) := by
  have hentry : (run.put operatorRequestsFilename new).entry operatorRequestsLock =
      run.entry operatorRequestsLock := Named.entry_put_of_ne filename_ne_lock.1.symm _ _
  unfold openLock at h ⊢
  rw [hentry]
  split at h
  · rename_i hnone
    -- the lock was there, or it would have been made
    have hlock := Option.some.inj h
    rw [← hlock, Named.entry_put] at hnone
    cases hnone
  · rfl
  · rfl
  · cases h

theorem writeOperatorRequests_cases (lib : Library) (fault : Fault) (run : Directory)
    (ledger : OperatorRequestLedger) :
    (∃ error, writeOperatorRequests lib fault run ledger = (run, .error error)) ∨
    (validateOperatorRequests lib ledger = .ok () ∧
      (ledgerFile ledger).length ≤ maxOperatorLedgerBytes ∧
      ∃ result, writeOperatorRequests lib fault run ledger =
        (run.put operatorRequestsFilename (.file (ledgerFile ledger)), result) ∧
        (fault = .none ∧ result = .ok () ∨ fault = .unsynced ∧ result = .error .persist)) := by
  unfold writeOperatorRequests
  split
  · exact .inl ⟨_, rfl⟩
  rename_i hvalid
  by_cases hsize : (ledgerFile ledger).length > maxOperatorLedgerBytes
  · exact .inl ⟨_, if_pos hsize⟩
  have hsize' : ¬(encodeLedger ledger ++ [0x0a]).length > maxOperatorLedgerBytes := hsize
  simp only [if_neg hsize']
  cases fault with
  | none => exact .inr ⟨hvalid, not_lt.mp hsize, _, rfl, .inl ⟨rfl, rfl⟩⟩
  | unpublished => exact .inl ⟨_, rfl⟩
  | unsynced => exact .inr ⟨hvalid, not_lt.mp hsize, _, rfl, .inr ⟨rfl, rfl⟩⟩

theorem writeOperatorRequests_none (hvalid : validateOperatorRequests lib ledger = .ok ())
    (hsize : (ledgerFile ledger).length ≤ maxOperatorLedgerBytes) :
    writeOperatorRequests lib .none run ledger =
      (run.put operatorRequestsFilename (.file (ledgerFile ledger)), .ok ()) := by
  have hsize' : ¬(encodeLedger ledger ++ [0x0a]).length > maxOperatorLedgerBytes := not_lt.mpr hsize
  simp only [writeOperatorRequests, hvalid, if_neg hsize']
  rfl

theorem stored_put (hvalid : validateOperatorRequests lib ledger = .ok ())
    (hinheritance : validateOperatorInheritance lib run ledger = .ok ())
    (hsize : (ledgerFile ledger).length ≤ maxOperatorLedgerBytes) :
    Stored lib (run.put operatorRequestsFilename (.file (ledgerFile ledger))) ledger where
  file := Named.entry_put _ _ _
  size := hsize
  valid := hvalid
  inheritance := (validateOperatorInheritance_congr
    (Named.entry_put_of_ne filename_ne_lock.2.2 _ _)).trans hinheritance

section Change

variable {update : OperatorRequestLedger →
  Except LedgerError (OperatorRequestLedger × OperatorRequest)}

section

variable (hread : readOperatorRequests lib run = .ok ledger)
include hread

theorem change_eq {locked} (hlock : openLock run = some locked) :
    change lib env update run =
      match update (ledger.begun env.random) with
      | .error error => (locked, .error error)
      | .ok (next, request) =>
        let written := writeOperatorRequests lib env.fault locked next
        (written.1, written.2.map fun _ => request) := by
  have hlocked : readOperatorRequests lib locked = .ok ledger :=
    (Untouched.read (.inr hlock)).trans hread
  unfold change
  rw [hlock]
  simp only [hlocked]
  rfl

theorem change_of_error {error} (hupdate : update (ledger.begun env.random) = .error error) :
    Untouched run (change lib env update run).1 ∧
      ((change lib env update run).2 = .error error ∨
        (change lib env update run).2 = .error .lock) := by
  cases hlock : openLock run with
  | none =>
    have hchange : change lib env update run = (run, .error .lock) := by
      unfold change
      rw [hlock]
    rw [hchange]
    exact ⟨.inl rfl, .inr rfl⟩
  | some locked =>
    rw [change_eq hread hlock, hupdate]
    exact ⟨.inr hlock, .inl rfl⟩

theorem validateOperatorInheritance_begun :
    validateOperatorInheritance lib run (ledger.begun env.random) = .ok () := by
  rcases readOperatorRequests_eq_ok hread with ⟨-, hinherited, rfl⟩ | ⟨-, hvalid, hinheritance⟩
  · exact validateOperatorInheritance_eq_ok.mpr ⟨[], ⟨hinherited, rfl⟩, .refl⟩
  have hne := ne_nil_of_operatorRunIDValid (validateOperatorRequests_eq_ok hvalid).2.1
  rw [OperatorRequestLedger.begun, if_neg hne]
  exact hinheritance

end

/-- **What `change` does**: it leaves the directory alone, or it publishes the updated ledger. -/
theorem change_cases (env : Surroundings) (update : OperatorRequestLedger →
      Except LedgerError (OperatorRequestLedger × OperatorRequest))
    (hread : readOperatorRequests lib run = .ok ledger)
    (hupdates : ∀ {next request}, update (ledger.begun env.random) = .ok (next, request) →
      Updates (ledger.begun env.random) next) :
    (Untouched run (change lib env update run).1 ∧
      ∃ error, (change lib env update run).2 = .error error) ∨
    ∃ next request, update (ledger.begun env.random) = .ok (next, request) ∧
      Stored lib (change lib env update run).1 next ∧
      openLock (change lib env update run).1 = some (change lib env update run).1 ∧
      ((change lib env update run).2 = .ok request ∨
        env.fault = .unsynced ∧ (change lib env update run).2 = .error .persist) := by
  rcases hupdate : update (ledger.begun env.random) with error | updated
  · obtain ⟨huntouched, hresult⟩ := change_of_error hread hupdate
    exact .inl ⟨huntouched, hresult.elim (fun h => ⟨_, h⟩) fun h => ⟨_, h⟩⟩
  obtain ⟨next, request⟩ := updated
  rcases hlock : openLock run with _ | locked
  · have hchange : change lib env update run = (run, .error .lock) := by
      unfold change
      rw [hlock]
    rw [hchange]
    exact .inl ⟨.inl rfl, _, rfl⟩
  rw [change_eq hread hlock, hupdate]
  have hinheritance : validateOperatorInheritance lib locked next = .ok () := by
    rw [validateOperatorInheritance_congr
      ((openLock_eq_some hlock).1 _ filename_ne_lock.2.1)]
    exact validateOperatorInheritance_of_updates (hupdates hupdate)
      (validateOperatorInheritance_begun hread)
  rcases writeOperatorRequests_cases lib env.fault locked next with
    ⟨error, hwritten⟩ | ⟨hvalid, hsize, result, hwritten, hresult⟩
  · simp only [hwritten]
    exact .inl ⟨.inr hlock, _, rfl⟩
  simp only [hwritten]
  refine .inr ⟨next, request, rfl, stored_put hvalid hinheritance hsize,
    openLock_put (openLock_eq_some hlock).2, ?_⟩
  rcases hresult with ⟨-, rfl⟩ | ⟨hfault, rfl⟩
  · exact .inl rfl
  · exact .inr ⟨hfault, rfl⟩

/-- Nothing but the checks of the ledger and the file system keeps an update from being written. -/
theorem change_of_ok (hread : readOperatorRequests lib run = .ok ledger) {locked}
    (hlock : openLock run = some locked) (hfault : env.fault = .none)
    (hupdate : update (ledger.begun env.random) = .ok (next, request))
    (hvalid : validateOperatorRequests lib next = .ok ())
    (hsize : (ledgerFile next).length ≤ maxOperatorLedgerBytes) :
    (change lib env update run).2 = .ok request := by
  rw [change_eq hread hlock, hupdate]
  simp only [hfault, writeOperatorRequests_none hvalid hsize]
  rfl

end Change

/-- **What a call does**: it leaves the directory alone, or it publishes the updated ledger. -/
theorem perform_cases (env : Surroundings) (call : LedgerCall)
    (hread : readOperatorRequests lib run = .ok ledger) :
    (Untouched run (perform lib env call run).1 ∧
      ∃ error, (perform lib env call run).2 = .error error) ∨
    ∃ next request, call.update env.now (ledger.begun env.random) = .ok (next, request) ∧
      Stored lib (perform lib env call run).1 next ∧
      openLock (perform lib env call run).1 = some (perform lib env call run).1 ∧
      ((perform lib env call run).2 = .ok request ∨
        env.fault = .unsynced ∧ (perform lib env call run).2 = .error .persist) := by
  have hchange := change_cases env (call.update env.now) hread
    fun h => updates_of_update h
  cases call with
  | create actor title description =>
    unfold perform
    simp only
    split
    · exact .inl ⟨.inl rfl, _, rfl⟩
    split_ifs
    · exact .inl ⟨.inl rfl, _, rfl⟩
    · exact hchange
  | append id expected entry => exact hchange

theorem perform_eq_ok (hread : readOperatorRequests lib run = .ok ledger)
    (h : (perform lib env call run).2 = .ok request) :
    ∃ next, call.update env.now (ledger.begun env.random) = .ok (next, request) ∧
      Stored lib (perform lib env call run).1 next ∧
      openLock (perform lib env call run).1 = some (perform lib env call run).1 := by
  rcases perform_cases env call hread with ⟨-, error, herror⟩ |
    ⟨next, updated, hupdate, hstored, hlock, hresult | ⟨-, hresult⟩⟩
  · exact absurd (h.symm.trans herror) (by simp)
  · obtain rfl := Except.ok.inj (h.symm.trans hresult)
    exact ⟨next, hupdate, hstored, hlock⟩
  · exact absurd (h.symm.trans hresult) (by simp)

/-! ### Growth -/

/-- **A ledger and what it may become**: no request and no entry is altered or removed. -/
structure Grows (before after : OperatorRequestLedger) : Prop where
  runID : before.runID = [] ∨ after.runID = before.runID
  inherited : after.inherited = before.inherited
  requests : Extends after.runID before.all after.all
  id : ∀ (i : ℕ) request next, before.all[i]? = some request → after.all[i]? = some next →
    next.id = request.id

theorem Grows.refl : Grows ledger ledger where
  runID := .inr rfl
  inherited := rfl
  requests := .refl
  id _ _ _ hi hi' := by rw [Option.mem_unique hi hi']

theorem Grows.trans {before middle after} (h : Grows before middle) (h' : Grows middle after)
    (hnone : middle.runID = [] → middle.all = []) : Grows before after := by
  have hrequests : Extends after.runID before.all after.all := by
    rcases h'.runID with hempty | hsame
    · -- nothing was there before the first request
      have hall := h.requests
      rw [hnone hempty] at hall
      have hafter := h'.requests
      rw [hnone hempty] at hafter
      rw [hall.eq_nil]
      exact hafter
    · rw [hsame]
      exact h.requests.trans (hsame ▸ h'.requests)
  refine ⟨?_, h'.inherited.trans h.inherited, hrequests, fun i request last hi hi' => ?_⟩
  · rcases h.runID with hempty | hsame
    · exact .inl hempty
    · rcases h'.runID with hempty' | hsame'
      · exact .inl (hsame.symm.trans hempty')
      · exact .inr (hsame'.trans hsame)
  · obtain ⟨next, hnext, -⟩ := h.requests.kept i request hi
    exact (h'.id i next last hnext hi').trans (h.id i request next hi hnext)

theorem begun_of_ne (h : ledger.runID ≠ []) : ledger.begun random = ledger :=
  if_neg h

theorem all_begun (random : Bytes) : (ledger.begun random).all = ledger.all := by
  unfold OperatorRequestLedger.begun
  split_ifs <;> rfl

/-- An update of a sound ledger that leaves it sound is growth. -/
theorem grows_of_updates (h : Updates (ledger.begun random) next)
    (hsound : LedgerSound ledger) (hnext : LedgerSound next) : Grows ledger next where
  runID := by
    by_cases hrun : ledger.runID = []
    · exact .inl hrun
    · rw [begun_of_ne hrun] at h
      exact .inr h.runID
  inherited := by
    rw [h.inherited, OperatorRequestLedger.begun]
    split_ifs <;> rfl
  requests := by
    rw [h.runID, ← all_begun random]
    exact h.requests
  id i request later hi hi' := by
    rw [(hsound.request i request hi).id, (hnext.request i later hi').id]

/-- **A call only makes the ledger grow.** -/
theorem perform_grows (hread : readOperatorRequests lib run = .ok ledger) (env : Surroundings)
    (call : LedgerCall) :
    ∃ next, readOperatorRequests lib (perform lib env call run).1 = .ok next ∧
      Grows ledger next := by
  rcases perform_cases env call hread with
    ⟨huntouched, -⟩ | ⟨next, request, hupdate, hstored, -, -⟩
  · exact ⟨ledger, huntouched.read.trans hread, .refl⟩
  · exact ⟨next, hstored.read, grows_of_updates (updates_of_update hupdate)
      (ledgerSound_of_read hread) (ledgerSound_of_valid hstored.valid)⟩

theorem all_eq_nil_of_runID (hread : readOperatorRequests lib run = .ok ledger)
    (h : ledger.runID = []) : ledger.all = [] := by
  rw [eq_noLedger_of_runID hread h]
  rfl

/-- **A run of calls only makes the ledger grow.** -/
theorem performAll_grows (hread : readOperatorRequests lib run = .ok ledger)
    (calls : List (Surroundings × LedgerCall)) :
    ∃ next, readOperatorRequests lib (performAll lib run calls) = .ok next ∧
      Grows ledger next := by
  induction calls generalizing run ledger with
  | nil => exact ⟨ledger, hread, .refl⟩
  | cons call calls ih =>
    obtain ⟨middle, hmiddle, hgrows⟩ := perform_grows hread call.1 call.2
    obtain ⟨next, hnext, hgrows'⟩ := ih hmiddle
    exact ⟨next, hnext, hgrows.trans hgrows' (all_eq_nil_of_runID hmiddle)⟩

theorem performAll_append (run : Directory) (front back : List (Surroundings × LedgerCall)) :
    performAll lib run (front ++ back) = performAll lib (performAll lib run front) back :=
  List.foldl_append

theorem Untouched.stored (h : Untouched run run') (hstored : Stored lib run ledger) :
    Stored lib run' ledger where
  __ := hstored
  file := (h.entry filename_ne_lock.1).trans hstored.file
  inheritance := (validateOperatorInheritance_congr (h.entry filename_ne_lock.2.1)).trans
    hstored.inheritance

/-- **Once a ledger was stored it stays stored**, up to its growth. -/
theorem performAll_stored (h : Stored lib run ledger) (calls : List (Surroundings × LedgerCall)) :
    ∃ next, Stored lib (performAll lib run calls) next ∧ Grows ledger next := by
  induction calls generalizing run ledger with
  | nil => exact ⟨ledger, h, .refl⟩
  | cons call calls ih =>
    obtain ⟨middle, hmiddle, hgrows⟩ := perform_grows h.read call.1 call.2
    have hstored : Stored lib (perform lib call.1 call.2 run).1 middle := by
      rcases perform_cases call.1 call.2 h.read with
        ⟨huntouched, -⟩ | ⟨next, request, -, hnext, -, -⟩
      · have hstored := huntouched.stored h
        exact Except.ok.inj (hstored.read.symm.trans hmiddle) ▸ hstored
      · exact Except.ok.inj (hnext.read.symm.trans hmiddle) ▸ hnext
    obtain ⟨next, hnext, hgrows'⟩ := ih hstored
    exact ⟨next, hnext, hgrows.trans hgrows' (all_eq_nil_of_runID hmiddle)⟩

theorem performAll_locked (hread : readOperatorRequests lib run = .ok ledger)
    (hlock : openLock run = some run) (calls : List (Surroundings × LedgerCall)) :
    openLock (performAll lib run calls) = some (performAll lib run calls) := by
  induction calls generalizing run ledger with
  | nil => exact hlock
  | cons call calls ih =>
    obtain ⟨middle, hmiddle, -⟩ := perform_grows hread call.1 call.2
    refine ih hmiddle ?_
    show openLock (perform lib call.1 call.2 run).1 = some (perform lib call.1 call.2 run).1
    rcases perform_cases call.1 call.2 hread with
      ⟨hsame | hlocked, -⟩ | ⟨next, request, -, -, hopen, -⟩
    · rw [hsame]
      exact hlock
    · exact (openLock_eq_some hlocked).2
    · exact hopen

/-! ### Requests by identifier -/

theorem find_of_getElem {i : ℕ} (hsound : LedgerSound ledger) (h : ledger.all[i]? = some request) :
    ledger.find request.id = some request := by
  obtain ⟨hlt, -⟩ := List.getElem?_eq_some_iff.mp h
  have hcount : ledger.all.length ≤ 128 := hsound.count
  have hid : request.id.toNat = i + 1 := by
    rw [(hsound.request i request h).id, UInt64.toNat_add, UInt64.toNat_ofNat']
    simp only [UInt64.toNat_one]
    omega
  have hne : request.id ≠ 0 := by
    intro hzero
    rw [hzero] at hid
    simp at hid
  rw [OperatorRequestLedger.find, if_neg hne, hid]
  exact h

/-- A request stays, and goes on. -/
theorem Grows.find {id : UInt64} (h : Grows ledger next) (hfind : ledger.find id = some request) :
    ∃ later, next.find id = some later ∧ Continues next.runID request later := by
  obtain ⟨hid, hget⟩ := find_eq_some hfind
  obtain ⟨later, hlater, hcontinues⟩ := h.requests.kept _ _ hget
  refine ⟨later, ?_, hcontinues⟩
  rw [OperatorRequestLedger.find, if_neg hid]
  exact hlater

theorem id_of_find {id : UInt64} (hsound : LedgerSound ledger)
    (h : ledger.find id = some request) : request.id = id := by
  obtain ⟨hid, hget⟩ := find_eq_some h
  obtain ⟨hlt, -⟩ := List.getElem?_eq_some_iff.mp hget
  have hcount : ledger.all.length ≤ 128 := hsound.count
  have hpos : 0 < id.toNat := Nat.pos_of_ne_zero fun hzero => hid (UInt64.toNat_inj.mp hzero)
  rw [(hsound.request _ _ hget).id]
  apply UInt64.toNat_inj.mp
  rw [UInt64.toNat_add, UInt64.toNat_ofNat']
  simp only [UInt64.toNat_one]
  omega

/-- What an accepted call has done: `Create` adds a request, and `Append` adds its entry behind the
revision that the call rests on or, where it repeats the last entry, nothing. -/
def Accepted (ledger next : OperatorRequestLedger) (request : OperatorRequest) : LedgerCall → Prop
  | .create _ title description => next.all = ledger.all ++ [request] ∧ request.title = title ∧
    request.description = description ∧ request.history.length = 1
  | .append id expected entry => next.find id = some request ∧
    ((Repeats ledger id expected entry ∧ next = ledger) ∨
      ∃ old timestamp, ledger.find id = some old ∧ expected = old.revision ∧ old.active = true ∧
        request = old.extended (completeEntry next expected timestamp entry))

theorem find_begun {id : UInt64} : (ledger.begun random).find id = ledger.find id := by
  unfold OperatorRequestLedger.find
  rw [all_begun]

theorem begun_of_find (hread : readOperatorRequests lib run = .ok ledger)
    {id : UInt64} (h : ledger.find id = some request) : ledger.begun random = ledger := by
  refine begun_of_ne fun hrun => ?_
  have hget := (find_eq_some h).2
  rw [all_eq_nil_of_runID hread hrun] at hget
  cases hget

theorem accepted_of_update (hread : readOperatorRequests lib run = .ok ledger)
    {random now : Bytes} (h : call.update now (ledger.begun random) = .ok (next, request)) :
    Accepted ledger next request call := by
  cases call with
  | create actor title description =>
    obtain ⟨rfl, rfl⟩ := createRequest_eq_ok h
    exact ⟨congrArg (· ++ [_]) (all_begun random), rfl, rfl, rfl⟩
  | append id expected entry =>
    rcases appendRevision_eq_ok h with ⟨hrepeats, hfind, rfl⟩ |
      ⟨old, hold, hexpected, hactive, rfl, rfl⟩
    · rw [find_begun] at hfind
      rw [begun_of_find hread hfind] at hrepeats ⊢
      exact ⟨hfind, .inl ⟨hrepeats, rfl⟩⟩
    rw [find_begun] at hold
    rw [begun_of_find hread hold]
    obtain ⟨hid, hget⟩ := find_eq_some hold
    obtain ⟨hlt, -⟩ := List.getElem?_eq_some_iff.mp hget
    refine ⟨?_, .inr ⟨old, now, hold, hexpected, hactive, rfl⟩⟩
    rw [OperatorRequestLedger.find, if_neg hid]
    exact List.getElem?_set_self hlt

theorem find_of_accepted (h : Accepted ledger next request call)
    (hnext : LedgerSound next) : next.find request.id = some request := by
  cases call with
  | create actor title description =>
    refine find_of_getElem (i := ledger.all.length) hnext ?_
    rw [h.1]
    simp
  | append id expected entry =>
    rw [id_of_find hnext h.1]
    exact h.1

/-- The last entry of a request that an `Append` returned is the entry of the call. -/
theorem repeats_of_accepted {entry} {later : OperatorRequestLedger}
    (h : Accepted ledger next request (.append id expected entry)) (hrun : later.runID = next.runID)
    (hfind : later.find id = some request) : Repeats later id expected entry := by
  have hcomplete : ∀ timestamp, completeEntry later expected timestamp entry =
      completeEntry next expected timestamp entry := by
    intro timestamp
    unfold completeEntry
    rw [hrun]
  obtain ⟨hnext, ⟨⟨request', last, hfind', hlast, hrepeat⟩, rfl⟩ |
    ⟨old, timestamp, -, -, -, rfl⟩⟩ := h
  · obtain rfl := Option.mem_unique hnext hfind'
    exact ⟨request, last, hfind, hlast, (hcomplete _).trans hrepeat⟩
  · refine ⟨_, completeEntry next expected timestamp entry, hfind, ?_, hcomplete _⟩
    simp [OperatorRequest.extended]

/-! ### Sequences of calls -/

/-- A stale call that repeats nothing is refused, and nothing is changed. -/
theorem perform_of_stale (hread : readOperatorRequests lib run = .ok ledger) {entry}
    (hstale : Stale ledger id expected) (hrepeats : ¬Repeats ledger id expected entry) :
    Untouched run (perform lib env (.append id expected entry) run).1 ∧
      ((perform lib env (.append id expected entry) run).2 = .error .revisionChanged ∨
        (perform lib env (.append id expected entry) run).2 = .error .lock) := by
  refine change_of_error hread ?_
  obtain ⟨request, hfind, hexpected⟩ := hstale
  rw [begun_of_find hread hfind]
  exact appendRevision_of_stale (ledgerSound_of_read hread) ⟨request, hfind, hexpected⟩ hrepeats

/-- Repeating the last entry of a stored ledger is accepted, and adds nothing. -/
theorem perform_of_repeats (hstored : Stored lib run ledger) (hlock : openLock run = some run)
    (hfault : env.fault = .none) {entry}
    (hrepeats : Repeats ledger id expected entry) (hfind : ledger.find id = some request) :
    (perform lib env (.append id expected entry) run).2 = .ok request ∧
      readOperatorRequests lib (perform lib env (.append id expected entry) run).1 =
        .ok ledger := by
  have hbegun : ledger.begun env.random = ledger := begun_of_find hstored.read hfind
  obtain ⟨found, hfound, hupdate⟩ := appendRevision_of_repeats env.now hrepeats
  obtain rfl := Option.mem_unique hfind hfound
  have hresult : (perform lib env (.append id expected entry) run).2 = .ok request :=
    change_of_ok hstored.read hlock hfault (hbegun.symm ▸ hupdate) hstored.valid hstored.size
  obtain ⟨next, hnext, hstored', -⟩ := perform_eq_ok hstored.read hresult
  have hnext : appendRevision id expected entry env.now ledger = .ok (next, request) :=
    hbegun ▸ hnext
  obtain rfl := (Prod.mk.inj (Except.ok.inj (hupdate.symm.trans hnext))).1
  exact ⟨hresult, hstored'.read⟩

/-- **Sequences of calls on a ledger.** Wherever a call is made in a run, by whichever owner, the
ledger is read before and behind it and at the end of the run; what is stored is valid; the ledger
only grows; and what an accepted call has done is still there at the end. A call that rests on
another revision than the one of its request is refused and changes nothing, unless it repeats the
last entry; repeating an accepted `Append` whose request has not gone on is accepted and adds
nothing. -/
theorem operatorRequests_sound (hread : readOperatorRequests lib run = .ok ledger)
    (before after : List (Surroundings × LedgerCall)) (env : Surroundings) (call : LedgerCall) :
    ∃ held next final,
      readOperatorRequests lib (performAll lib run before) = .ok held ∧
      readOperatorRequests lib (perform lib env call (performAll lib run before)).1 = .ok next ∧
      readOperatorRequests lib (performAll lib run (before ++ (env, call) :: after)) = .ok final ∧
      (final = noLedger ∨ validateOperatorRequests lib final = .ok ()) ∧ LedgerSound final ∧
      Grows ledger held ∧ Grows held next ∧ Grows next final ∧
      (∀ request, (perform lib env call (performAll lib run before)).2 = .ok request →
        Accepted held next request call ∧
        ∃ later, final.find request.id = some later ∧ Continues final.runID request later) ∧
      (∀ id expected entry, call = .append id expected entry → Stale held id expected →
        ¬Repeats held id expected entry →
        Untouched (performAll lib run before)
          (perform lib env call (performAll lib run before)).1 ∧
        ((perform lib env call (performAll lib run before)).2 = .error .revisionChanged ∨
          (perform lib env call (performAll lib run before)).2 = .error .lock)) ∧
      (∀ early prior between first id expected entry, before = early ++ (prior, call) :: between →
        call = .append id expected entry →
        (perform lib prior call (performAll lib run early)).2 = .ok first →
        held.find id = some first → env.fault = .none →
        (perform lib env call (performAll lib run before)).2 = .ok first ∧ next = held) := by
  obtain ⟨held, hheld, hgrows⟩ := performAll_grows hread before
  obtain ⟨next, hnext, hgrows'⟩ := perform_grows hheld env call
  obtain ⟨final, hfinal, hgrows''⟩ := performAll_grows hnext after
  have hvalid : final = noLedger ∨ validateOperatorRequests lib final = .ok () := by
    rcases readOperatorRequests_eq_ok hfinal with ⟨-, -, h⟩ | ⟨-, h, -⟩
    · exact .inl h
    · exact .inr h
  refine ⟨held, next, final, hheld, hnext, ?_, hvalid, ledgerSound_of_read hfinal, hgrows, hgrows',
    hgrows'', fun request hresult => ?_, ?_, ?_⟩
  · rw [performAll_append]
    exact hfinal
  · -- an accepted call stored what it returned, and what is stored goes on
    obtain ⟨stored, hupdate, hstored, -⟩ := perform_eq_ok hheld hresult
    obtain rfl := Except.ok.inj (hnext.symm.trans hstored.read)
    have haccepted := accepted_of_update hheld hupdate
    exact ⟨haccepted, hgrows''.find (find_of_accepted haccepted (ledgerSound_of_read hnext))⟩
  · rintro id expected entry rfl hstale hrepeats
    exact perform_of_stale hheld hstale hrepeats
  · rintro early prior between first id expected entry rfl rfl hfirst hfind hfault
    obtain ⟨old, hold, -⟩ := performAll_grows hread early
    obtain ⟨stored, hupdate, hstored, hlock⟩ := perform_eq_ok hold hfirst
    have haccepted := accepted_of_update hold hupdate
    -- the ledger stays stored, and stays the one of the run
    obtain ⟨later, hlater, hsince⟩ := performAll_stored hstored between
    have hopen := performAll_locked hstored.read hlock between
    have hrun : performAll lib run (early ++ (prior, .append id expected entry) :: between) =
        performAll lib (perform lib prior (.append id expected entry)
          (performAll lib run early)).1 between := performAll_append run early _
    rw [hrun] at hheld hnext ⊢
    obtain rfl := Except.ok.inj (hheld.symm.trans hlater.read)
    have hrunID : held.runID = stored.runID := by
      rcases hsince.runID with hempty | hsame
      · exact absurd hempty
          (ne_nil_of_operatorRunIDValid (validateOperatorRequests_eq_ok hstored.valid).2.1)
      · exact hsame
    obtain ⟨hresult, hafter⟩ := perform_of_repeats hlater hopen hfault
      (repeats_of_accepted haccepted hrunID hfind) hfind
    exact ⟨hresult, Except.ok.inj (hnext.symm.trans hafter)⟩

/-! ### A run -/

/-- A library that knows one time, and a checksum. -/
def sampleLibrary : Library where
  parsesTime text := text = ascii "2026-01-01T00:00:00Z"
  sha256 data := [data.sum]
  time_ascii text h := by
    rw [of_decide_eq_true h]
    decide +kernel

/-- That time, zeros for random bytes and no faults. -/
def sampleSurroundings : Surroundings :=
  ⟨ascii "2026-01-01T00:00:00Z", List.replicate 16 0, .none⟩

/-- An operator asks for a shell. -/
def sampleCreate : LedgerCall :=
  .create ⟨ascii "operator", ascii "operator", [], none, [], []⟩ (ascii "Shell")
    (ascii "Add a shell.")

/-- An implementor reports on the request. -/
def sampleReport (expected : UInt64) (disposition : Bytes) : LedgerCall :=
  .append 1 expected ⟨0, ascii "disposition",
    ⟨ascii "implementor", ascii "agent", [], some 1, ascii "thread", ascii "turn"⟩, [], disposition,
    ascii "Noted.", [], 0⟩

/-- The request is created and reported on twice. -/
def sampleCalls : List (Surroundings × LedgerCall) :=
  [sampleCreate, sampleReport 1 (ascii "pursuing"), sampleReport 2 (ascii "deferred")].map
    fun call => (sampleSurroundings, call)

/-- The last of these reports. -/
def sampleLast : LedgerCall := sampleReport 2 (ascii "deferred")

/-- A call behind the first `n` ones, in a directory that was empty. -/
def afterSample (n : ℕ) (call : LedgerCall) : Directory × Except LedgerError OperatorRequest :=
  perform sampleLibrary sampleSurroundings call (performAll sampleLibrary [] (sampleCalls.take n))

/-- The run starts in an empty directory, where the ledger is read as the empty one. The last report
is repeated, which gives its answer again, and another request follows. -/
theorem operatorRequests_sound_sample : ∃ held next final first,
    readOperatorRequests sampleLibrary (performAll sampleLibrary [] sampleCalls) = .ok held ∧
    readOperatorRequests sampleLibrary (afterSample 3 sampleLast).1 = .ok next ∧
    readOperatorRequests sampleLibrary (performAll sampleLibrary [] (sampleCalls ++
      [(sampleSurroundings, sampleLast), (sampleSurroundings, sampleCreate)])) = .ok final ∧
    Grows noLedger held ∧ next = held ∧ Grows next final ∧
    (afterSample 3 sampleLast).2 = .ok first := by
  have hok : (afterSample 2 sampleLast).2.isOk = true := by decide +kernel
  rcases hfirst : (afterSample 2 sampleLast).2 with _ | first
  · rw [hfirst] at hok
    cases hok
  obtain ⟨early, entered, _, -, hentered, -, -, -, -, -, -, haccepted, -⟩ :=
    @operatorRequests_sound sampleLibrary [] noLedger rfl (sampleCalls.take 2) []
      sampleSurroundings sampleLast
  obtain ⟨held, next, final, hheld, hnext, hfinal, -, -, hgrows, -, hgrows'', -, -, hretry⟩ :=
    @operatorRequests_sound sampleLibrary [] noLedger rfl sampleCalls
      [(sampleSurroundings, sampleCreate)] sampleSurroundings sampleLast
  obtain rfl : held = entered := Except.ok.inj (hheld.symm.trans hentered)
  obtain ⟨hresult, hsame⟩ := hretry (sampleCalls.take 2) sampleSurroundings [] first 1 2 _ rfl rfl
    hfirst (haccepted first hfirst).1.1 rfl
  exact ⟨held, next, final, first, hheld, hnext, hfinal, hgrows, hsame, hgrows'', hresult⟩

/-- **An exact retry is refused once another entry followed.** One owner reports that it pursues the
request, and this is accepted; another owner's report follows; the first owner, which has made no
other call, repeats its own and is told that the revision has changed. -/
theorem retry_refused_when_overtaken :
    (afterSample 1 (sampleReport 1 (ascii "pursuing"))).2.isOk = true ∧
    (afterSample 2 sampleLast).2.isOk = true ∧
    (afterSample 3 (sampleReport 1 (ascii "pursuing"))).2 = .error .revisionChanged := by
  decide +kernel

end Carcer.Store
