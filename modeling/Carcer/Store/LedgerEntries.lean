import Carcer.Store.LedgerRuns

/-!
# The histories of a ledger

A call on a ledger leaves every history as it is, or it adds one entry of the run to one of them:
the history of a new request begins with its creation.

## Main definitions

* `OperatorRequestLedger.entries`: the history of a request
* `Adds`: an entry is added to a history

## Main results

* `role_of_verify`: operators verify
* `perform_adds`: what a call does to the histories
-/

namespace Carcer.Store

open Carcer.Wire Carcer.Disk List

variable {lib : Library} {env : Surroundings} {run : Directory}
  {ledger next : OperatorRequestLedger} {request : OperatorRequest} {id : UInt64}
  {entry : OperatorRequestRevision} {i : ℕ}

/-- The history of a request, empty for one that does not exist. -/
def OperatorRequestLedger.entries (ledger : OperatorRequestLedger) (id : UInt64) :
    List OperatorRequestRevision :=
  (ledger.find id).elim [] OperatorRequest.history

theorem entries_of_find (h : ledger.find id = some request) :
    ledger.entries id = request.history := by
  rw [OperatorRequestLedger.entries, h]
  rfl

theorem find_of_mem_entries (h : entry ∈ ledger.entries id) :
    ∃ request, ledger.find id = some request ∧ entry ∈ request.history := by
  cases hfind : ledger.find id with
  | none =>
    rw [OperatorRequestLedger.entries, hfind] at h
    cases h
  | some request => exact ⟨request, rfl, entries_of_find hfind ▸ h⟩

/-- What the histories of a ledger that was read hold, by their places. -/
theorem entrySound_of_entries (h : LedgerSound ledger) (hi : (ledger.entries id)[i]? = some entry) :
    EntrySound (ledger.entries id) i entry ∧ (ledger.entries id).length ≤ 4096 := by
  obtain ⟨request, hfind, -⟩ := find_of_mem_entries (mem_of_getElem? hi)
  have hrequest := h.request _ _ (find_eq_some hfind).2
  rw [entries_of_find hfind] at hi ⊢
  exact ⟨hrequest.history.entry i entry hi, hrequest.short⟩

theorem toNat_revision (h : LedgerSound ledger) (hi : (ledger.entries id)[i]? = some entry) :
    entry.revision.toNat = i + 1 := by
  obtain ⟨hentry, hshort⟩ := entrySound_of_entries h hi
  have hlt := (List.getElem?_eq_some_iff.mp hi).1
  rw [hentry.revision, UInt64.toNat_add, UInt64.toNat_ofNat', UInt64.toNat_one]
  omega

theorem role_of_validateEntry {history} {withdrawn after : Bool}
    (h : validateEntry lib history withdrawn (entry, i) = .ok after)
    (hverify : entry.action = ascii "verify") : entry.actor.role = ascii "operator" := by
  iterate 3 obtain ⟨⟨⟩, -, h⟩ := bind_eq_ok.mp h
  split at h
  · obtain ⟨⟨⟩, hcreation, -⟩ := bind_eq_ok.mp h
    simp only [failIf_eq_ok, not_or, not_not] at hcreation
    exact hcreation.2.1
  iterate 2 obtain ⟨⟨⟩, -, h⟩ := bind_eq_ok.mp h
  have hother : entry.action ≠ ascii "disposition" := by
    rw [hverify]
    decide +kernel
  rw [if_neg hother, if_pos (.inr hverify)] at h
  obtain ⟨⟨⟩, hdecision, -⟩ := bind_eq_ok.mp h
  obtain ⟨⟨⟩, hdecision, -⟩ := bind_eq_ok.mp hdecision
  simp only [failIf_eq_ok, not_or, not_not] at hdecision
  exact hdecision.1

/-- **The verifications of a ledger that was read are those of operators.** -/
theorem role_of_verify (hread : readOperatorRequests lib run = .ok ledger)
    (hentry : entry ∈ ledger.entries id) (hverify : entry.action = ascii "verify") :
    entry.actor.role = ascii "operator" := by
  obtain ⟨request, hfind, hentry⟩ := find_of_mem_entries hentry
  have hget := (find_eq_some hfind).2
  obtain ⟨i, hi⟩ := mem_iff_getElem?.mp hentry
  rcases readOperatorRequests_eq_ok hread with ⟨-, -, rfl⟩ | ⟨-, hvalid, -⟩
  · cases hget
  obtain ⟨-, -, -, -, hrequests⟩ := validateOperatorRequests_eq_ok hvalid
  rw [zipIdx_split hget] at hrequests
  obtain ⟨before, after, -, hrequest, -⟩ := foldlM_at hrequests
  iterate 2 obtain ⟨⟨⟩, -, hrequest⟩ := bind_eq_ok.mp hrequest
  obtain ⟨flag, hhistory, -⟩ := bind_eq_ok.mp hrequest
  rw [zipIdx_split hi] at hhistory
  obtain ⟨withdrawn, later, -, hchecked, -⟩ := foldlM_at hhistory
  exact role_of_validateEntry hchecked hverify

/-- **An entry of the run is added to a history.** -/
structure Adds (ledger next : OperatorRequestLedger) (id : UInt64)
    (entry : OperatorRequestRevision) : Prop where
  runID : ledger.all = [] ∨ next.runID = ledger.runID
  here : next.entries id = ledger.entries id ++ [entry]
  others : ∀ other, other ≠ id → next.entries other = ledger.entries other
  run : entry.actor.runID = next.runID

/-- The entry that a call writes. -/
def LedgerCall.Writes (id : UInt64) (entry : OperatorRequestRevision) : LedgerCall → Prop
  | .create _ _ _ => entry.action = ascii "create"
  | .append called _ written => id = called ∧ entry.action = written.action ∧
    entry.actor.generation = written.actor.generation

theorem runID_begun (hread : readOperatorRequests lib run = .ok ledger) (random : Bytes) :
    ledger.all = [] ∨ (ledger.begun random).runID = ledger.runID := by
  by_cases hrun : ledger.runID = []
  · exact .inl (all_eq_nil_of_runID hread hrun)
  · rw [begun_of_ne hrun]
    exact .inr rfl

theorem find_concat {requests} (hall : next.all = requests ++ [request])
    (hledger : ledger.all = requests) (hshort : requests.length < 128) (id : UInt64) :
    next.find id =
      if id = UInt64.ofNat requests.length + 1 then some request else ledger.find id := by
  have hnew : (UInt64.ofNat requests.length + 1).toNat = requests.length + 1 := by
    rw [UInt64.toNat_add, UInt64.toNat_ofNat', UInt64.toNat_one]
    omega
  unfold OperatorRequestLedger.find
  rw [hall, hledger]
  by_cases hid : id = UInt64.ofNat requests.length + 1
  · have hne : id ≠ 0 := by
      rintro rfl
      rw [← hid] at hnew
      cases hnew
    rw [if_pos hid, if_neg hne, hid, hnew]
    simp
  · rw [if_neg hid]
    split_ifs with hzero
    · rfl
    have hne : id.toNat ≠ requests.length + 1 := fun heq =>
      hid (UInt64.toNat_inj.mp (heq.trans hnew.symm))
    have hpos : 0 < id.toNat := Nat.pos_of_ne_zero fun heq => hzero (UInt64.toNat_inj.mp heq)
    rcases Nat.lt_or_ge (id.toNat - 1) requests.length with hlt | hle
    · rw [getElem?_append_left hlt]
    · rw [getElem?_eq_none (by simp; omega), getElem?_eq_none hle]

section

variable (hread : readOperatorRequests lib run = .ok ledger)
include hread

theorem adds_of_create {actor} {title description now random : Bytes} (hnext : LedgerSound next)
    (h : createRequest actor title description now (ledger.begun random) = .ok (next, request)) :
    ∃ id entry, Adds ledger next id entry ∧ entry.action = ascii "create" := by
  obtain ⟨hupdated, hrequest⟩ := createRequest_eq_ok h
  have hall : next.all = ledger.all ++ [request] := by
    rw [hupdated]
    exact congrArg (· ++ [request]) (all_begun random)
  have hrun : next.runID = (ledger.begun random).runID := by rw [hupdated]
  have hshort : ledger.all.length < 128 := by
    have hcount : (ledger.all ++ [request]).length ≤ 128 := hall ▸ hnext.count
    rw [length_append, length_singleton] at hcount
    omega
  have hfind := find_concat hall rfl hshort
  have hmissing : ledger.find (UInt64.ofNat ledger.all.length + 1) = none := by
    unfold OperatorRequestLedger.find
    have hnew : (UInt64.ofNat ledger.all.length + 1).toNat = ledger.all.length + 1 := by
      rw [UInt64.toNat_add, UInt64.toNat_ofNat', UInt64.toNat_one]
      omega
    split_ifs
    · rfl
    · rw [hnew]
      simp
  refine ⟨UInt64.ofNat ledger.all.length + 1,
    ⟨1, ascii "create", { actor with runID := (ledger.begun random).runID }, now, [], [], [], 0⟩,
    ⟨?_, ?_, fun other hother => ?_, hrun.symm⟩, rfl⟩
  · rw [hrun]
    exact runID_begun hread random
  · rw [OperatorRequestLedger.entries, hfind, if_pos rfl, OperatorRequestLedger.entries, hmissing,
      hrequest]
    rfl
  · rw [OperatorRequestLedger.entries, hfind, if_neg hother, OperatorRequestLedger.entries]

theorem adds_of_append {id expected : UInt64} {now random : Bytes}
    (h : appendRevision id expected entry now (ledger.begun random) = .ok (next, request)) :
    next = ledger ∨ Adds ledger next id (completeEntry ledger expected now entry) := by
  rcases appendRevision_eq_ok h with ⟨-, hfind, rfl⟩ | ⟨old, hold, -, -, rfl, rfl⟩
  · rw [find_begun] at hfind
    exact .inl (begun_of_find hread hfind)
  rw [find_begun] at hold
  rw [begun_of_find hread hold]
  obtain ⟨hid, hget⟩ := find_eq_some hold
  obtain ⟨hlt, -⟩ := List.getElem?_eq_some_iff.mp hget
  refine .inr ⟨.inr rfl, ?_, fun other hother => ?_, rfl⟩
  · have hset : ∀ later : OperatorRequest,
        (ledger.all.set (id.toNat - 1) later)[id.toNat - 1]? = some later :=
      fun later => getElem?_set_self hlt
    rw [entries_of_find hold, OperatorRequestLedger.entries, OperatorRequestLedger.find,
      if_neg hid]
    exact congrArg (Option.elim · [] OperatorRequest.history) (hset _)
  · unfold OperatorRequestLedger.entries OperatorRequestLedger.find
    split_ifs with hzero
    · rfl
    have hplace : id.toNat - 1 ≠ other.toNat - 1 := by
      have hpos : 0 < id.toNat := Nat.pos_of_ne_zero fun heq => hid (UInt64.toNat_inj.mp heq)
      have hpos' : 0 < other.toNat :=
        Nat.pos_of_ne_zero fun heq => hzero (UInt64.toNat_inj.mp heq)
      intro heq
      exact hother (UInt64.toNat_inj.mp (by omega))
    exact congrArg (Option.elim · [] OperatorRequest.history) (getElem?_set_ne hplace)

/-- **What a call does to the histories**: nothing, or it adds its entry to one of them. -/
theorem perform_adds (env : Surroundings) (call : LedgerCall) :
    ∃ next, readOperatorRequests lib (perform lib env call run).1 = .ok next ∧
      (next = ledger ∨ ∃ id entry, Adds ledger next id entry ∧ call.Writes id entry) := by
  rcases perform_cases env call hread with ⟨huntouched, -⟩ | ⟨next, request, hupdate, hstored, -, -⟩
  · exact ⟨ledger, huntouched.read.trans hread, .inl rfl⟩
  refine ⟨next, hstored.read, ?_⟩
  cases call with
  | create actor title description =>
    exact .inr (adds_of_create hread (ledgerSound_of_valid hstored.valid) hupdate)
  | append id expected entry =>
    rcases adds_of_append hread hupdate with hsame | hadds
    · exact .inl hsame
    · exact .inr ⟨id, _, hadds, rfl, rfl, rfl⟩

end

end Carcer.Store
