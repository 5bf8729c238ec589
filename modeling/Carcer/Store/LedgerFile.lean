import Carcer.Store.OperatorRequests

/-!
# The file of the ledger

What a ledger that passes `validateOperatorRequests` looks like, and that its file is read back as
the ledger it was written from.

## Main definitions

* `HistorySound`, `LedgerSound`: contiguous histories, final withdrawals, verifications of earlier
  reports of the same run, a revision that counts all entries
* `LedgerTexts`: all texts of a ledger are UTF-8

## Main results

* `ledgerSound_of_valid`, `ledgerTexts_of_valid`: what validation says
* `decodeOperatorRequests_encoded`: the file is read back
-/

namespace Carcer.Store

open Carcer.Wire Carcer.Json Carcer.Disk List Codec

variable {lib : Library} {entry : OperatorRequestRevision} {i : ℕ}

/-! ### What validation says -/

theorem operatorRequestText_eq_ok {text field : Bytes} {limit : ℕ} {u : Unit} :
    operatorRequestText text limit field = .ok u ↔
      utf8Valid text = true ∧ trimSpace text ≠ [] ∧ text.length ≤ limit := by
  simp [operatorRequestText, refused]

theorem refused_eq_false {text : Bytes} {limit : ℕ} (h : refused text limit = false) :
    utf8Valid text = true := by
  simp only [refused, decide_eq_false_iff_not, not_or] at h
  simpa using h.1

/-- The texts of an actor are UTF-8. -/
structure ActorTexts (a : OperatorRequestActor) : Prop where
  role : utf8Valid a.role = true
  name : utf8Valid a.name = true
  runID : utf8Valid a.runID = true
  threadID : utf8Valid a.threadID = true
  turnID : utf8Valid a.turnID = true

theorem utf8Valid_runID {value : Bytes} (h : operatorRunIDValid value = true) :
    utf8Valid value = true := by
  simp only [operatorRunIDValid, decide_eq_true_eq] at h
  refine utf8Valid_of_ascii fun byte hbyte => ?_
  have hhex := all_eq_true.mp h.1 byte hbyte
  have hall : ∀ byte : UInt8, (hexValue byte).isSome = true → byte < 0x80 := by decide +kernel
  exact hall byte hhex

theorem actorTexts_of_valid {a} (h : validateActor a = .ok ()) : ActorTexts a := by
  obtain ⟨⟨⟩, hattribution, h⟩ := bind_eq_ok.mp h
  simp only [failIf_eq_ok, not_or, Bool.not_eq_false, Bool.not_eq_true] at hattribution
  have hname := refused_eq_false hattribution.2
  have hrun := utf8Valid_runID hattribution.1
  split at h
  · rename_i hrole
    simp only [failIf_eq_ok, not_or, Bool.not_eq_true] at h
    refine ⟨?_, hname, hrun, refused_eq_false h.2.1, refused_eq_false h.2.2⟩
    rw [hrole]
    decide +kernel
  simp only [failIf_eq_ok, not_or, not_not] at h
  obtain ⟨hrole, hthread, hturn⟩ := h
  refine ⟨?_, hname, hrun, ?_, ?_⟩
  · rw [hrole]
    decide +kernel
  · rw [hthread]
    rfl
  · rw [hturn]
    rfl

/-- The texts of an entry are UTF-8. -/
structure EntryTexts (entry : OperatorRequestRevision) : Prop where
  action : utf8Valid entry.action = true
  actor : ActorTexts entry.actor
  timestamp : utf8Valid entry.timestamp = true
  disposition : utf8Valid entry.disposition = true
  explanation : utf8Valid entry.explanation = true
  evidence : utf8Valid entry.evidence = true

/-- An entry at its place in a history. -/
structure EntrySound (history : List OperatorRequestRevision) (i : ℕ)
    (entry : OperatorRequestRevision) : Prop where
  revision : entry.revision = UInt64.ofNat i + 1
  created : i = 0 → entry.action = ascii "create"
  verified : entry.action = ascii "verify" → 0 < entry.reportRevision.toNat ∧
    entry.reportRevision < entry.revision ∧
    ∃ report, history[entry.reportRevision.toNat - 1]? = some report ∧
      isCompletionReport entry.actor.runID report

theorem validateDisposition_eq_ok
    (h : validateDisposition entry = .ok ()) : utf8Valid entry.disposition = true := by
  obtain ⟨⟨⟩, -, h⟩ := bind_eq_ok.mp h
  split at h
  · rename_i hcompleted
    rw [hcompleted]
    decide +kernel
  · simp only [failIf_eq_ok, not_and_or, not_not] at h
    rcases h with h | h | h <;> (rw [h]; decide +kernel)

theorem validateDecision_eq_ok {history} (h : validateDecision history entry = .ok ()) :
    entry.disposition = [] ∧ (entry.action ≠ ascii "withdraw" → 0 < entry.reportRevision.toNat ∧
      entry.reportRevision < entry.revision ∧
      ∃ report, history[entry.reportRevision.toNat - 1]? = some report ∧
        isCompletionReport entry.actor.runID report) := by
  obtain ⟨⟨⟩, hdecision, h⟩ := bind_eq_ok.mp h
  simp only [failIf_eq_ok, not_or, not_not] at hdecision
  refine ⟨hdecision.2.1, fun hverify => ?_⟩
  rw [if_neg hverify] at h
  obtain ⟨⟨⟩, hearlier, hreport⟩ := bind_eq_ok.mp h
  simp only [failIf_eq_ok, not_or, Bool.not_eq_false, UInt64.not_le] at hearlier hreport
  obtain ⟨report, hget, hcompletion⟩ : ∃ report, history[entry.reportRevision.toNat - 1]? =
      some report ∧ isCompletionReport entry.actor.runID report = true := by
    cases hget : history[entry.reportRevision.toNat - 1]? with
    | none => simp [hget] at hreport
    | some report => exact ⟨report, rfl, by simpa [hget] using hreport⟩
  refine ⟨?_, hearlier.2, report, hget, hcompletion⟩
  exact Nat.pos_of_ne_zero fun hzero => hearlier.1 (UInt64.toNat_inj.mp hzero)

/-- **What the check of an entry says**, and the flag it leaves. -/
theorem validateEntry_eq_ok {history} {withdrawn after : Bool}
    (h : validateEntry lib history withdrawn (entry, i) = .ok after) :
    withdrawn = false ∧ EntrySound history i entry ∧ EntryTexts entry ∧
      (entry.action = ascii "withdraw" → after = true) := by
  obtain ⟨⟨⟩, hcontiguous, h⟩ := bind_eq_ok.mp h
  obtain ⟨⟨⟩, htime, h⟩ := bind_eq_ok.mp h
  obtain ⟨⟨⟩, hactor, h⟩ := bind_eq_ok.mp h
  simp only [failIf_eq_ok, not_or, not_not, Bool.not_eq_true, Bool.not_eq_false]
    at hcontiguous htime
  have htexts := actorTexts_of_valid hactor
  have htimestamp := utf8Valid_of_ascii (lib.time_ascii _ htime)
  refine ⟨hcontiguous.1, ?_⟩
  split at h
  · -- the first entry creates the request
    rename_i hi
    obtain ⟨⟨⟩, hcreation, h⟩ := bind_eq_ok.mp h
    simp only [failIf_eq_ok, not_or, not_not] at hcreation
    obtain ⟨haction, -, hexplanation, hdisposition, hevidence, -⟩ := hcreation
    have hne : ascii "create" ≠ ascii "verify" ∧ ascii "create" ≠ ascii "withdraw" := by
      decide +kernel
    refine ⟨⟨hcontiguous.2, fun _ => haction, fun hverify => ?_⟩,
      ⟨?_, htexts, htimestamp, ?_, ?_, ?_⟩, fun hwithdraw => ?_⟩
    · exact absurd (haction.symm.trans hverify) hne.1
    · rw [haction]
      decide +kernel
    · rw [hdisposition]
      rfl
    · rw [hexplanation]
      rfl
    · rw [hevidence]
      rfl
    · exact absurd (haction.symm.trans hwithdraw) hne.2
  · rename_i hi
    obtain ⟨⟨⟩, hexplanation, h⟩ := bind_eq_ok.mp h
    obtain ⟨⟨⟩, hevidence, h⟩ := bind_eq_ok.mp h
    have hexplanation := (operatorRequestText_eq_ok.mp hexplanation).1
    have hevidence : utf8Valid entry.evidence = true := by
      simp only [failIf_eq_ok, not_or, Bool.not_eq_false] at hevidence
      exact hevidence.1
    have hne : ascii "disposition" ≠ ascii "verify" ∧ ascii "disposition" ≠ ascii "withdraw" ∧
        ascii "verify" ≠ ascii "withdraw" := by decide +kernel
    split at h
    · rename_i haction
      obtain ⟨⟨⟩, hdisposition, h⟩ := bind_eq_ok.mp h
      refine ⟨⟨hcontiguous.2, fun hzero => absurd hzero hi, fun hverify => ?_⟩,
        ⟨?_, htexts, htimestamp, validateDisposition_eq_ok hdisposition, hexplanation, hevidence⟩,
        fun hwithdraw => ?_⟩
      · exact absurd (haction.symm.trans hverify) hne.1
      · rw [haction]
        decide +kernel
      · exact absurd (haction.symm.trans hwithdraw) hne.2.1
    · split at h
      · rename_i haction
        obtain ⟨⟨⟩, hdecision, h⟩ := bind_eq_ok.mp h
        obtain ⟨hdisposition, hverified⟩ := validateDecision_eq_ok hdecision
        refine ⟨⟨hcontiguous.2, fun hzero => absurd hzero hi, fun hverify => hverified ?_⟩,
          ⟨?_, htexts, htimestamp, ?_, hexplanation, hevidence⟩, fun hwithdraw => ?_⟩
        · rw [hverify]
          exact hne.2.2
        · rcases haction with haction | haction <;> (rw [haction]; decide +kernel)
        · rw [hdisposition]
          rfl
        · rw [← Except.ok.inj h]
          exact decide_eq_true hwithdraw
      · cases h

/-- A fold with errors passes through every element. -/
theorem foldlM_at {ε α β : Type} {f : β → α → Except ε β} {front back : List α} {a : α} {b c : β}
    (h : (front ++ a :: back).foldlM f b = .ok c) :
    ∃ b₁ b₂, front.foldlM f b = .ok b₁ ∧ f b₁ a = .ok b₂ ∧ back.foldlM f b₂ = .ok c := by
  rw [foldlM_append] at h
  obtain ⟨b₁, hfront, h⟩ := bind_eq_ok.mp h
  rw [foldlM_cons] at h
  obtain ⟨b₂, ha, hback⟩ := bind_eq_ok.mp h
  exact ⟨b₁, b₂, hfront, ha, hback⟩

theorem zipIdx_split {α : Type} {xs : List α} {x : α} (h : xs[i]? = some x) :
    xs.zipIdx = (xs.take i).zipIdx ++ (x, i) :: (xs.drop (i + 1)).zipIdx (i + 1) := by
  obtain ⟨hlt, rfl⟩ := List.getElem?_eq_some_iff.mp h
  conv_lhs => rw [← take_append_drop i xs, drop_eq_getElem_cons hlt]
  rw [zipIdx_append, zipIdx_cons, length_take, Nat.zero_add,
    Nat.min_eq_left (Nat.le_of_lt hlt)]

/-- A history is contiguous, ends with a withdrawal if it has one, and verifies earlier reports of
the same run. -/
structure HistorySound (history : List OperatorRequestRevision) : Prop where
  entry : ∀ i entry, history[i]? = some entry → EntrySound history i entry
  withdrawal : ∀ i entry, history[i]? = some entry → entry.action = ascii "withdraw" →
    i + 1 = history.length

section History

variable {history : List OperatorRequestRevision} {flag : Bool}

theorem validateEntry_of_history
    (h : history.zipIdx.foldlM (validateEntry lib history) false = .ok flag) {i : ℕ}
    {entry} (hi : history[i]? = some entry) :
    EntrySound history i entry ∧ EntryTexts entry ∧
      (entry.action = ascii "withdraw" → i + 1 = history.length) := by
  rw [zipIdx_split hi] at h
  obtain ⟨before, after, -, hentry, hback⟩ := foldlM_at h
  obtain ⟨-, hsound, htexts, hwithdraw⟩ := validateEntry_eq_ok hentry
  refine ⟨hsound, htexts, fun haction => ?_⟩
  obtain ⟨hlt, -⟩ := List.getElem?_eq_some_iff.mp hi
  by_contra hne
  -- a later entry would be checked with the flag set
  have hlong : i + 1 < history.length := by omega
  rw [hwithdraw haction, drop_eq_getElem_cons hlong, zipIdx_cons, foldlM_cons] at hback
  obtain ⟨_, hnext, -⟩ := bind_eq_ok.mp hback
  exact absurd (validateEntry_eq_ok hnext).1 (by decide)

theorem historySound_of_valid
    (h : history.zipIdx.foldlM (validateEntry lib history) false = .ok flag) :
    HistorySound history where
  entry _ _ hi := (validateEntry_of_history h hi).1
  withdrawal _ _ hi := (validateEntry_of_history h hi).2.2

end History

/-- The texts of a request are UTF-8. -/
structure RequestTexts (request : OperatorRequest) : Prop where
  title : utf8Valid request.title = true
  description : utf8Valid request.description = true
  entry : ∀ entry ∈ request.history, EntryTexts entry

/-- A request at its place. -/
structure RequestSound (i : ℕ) (request : OperatorRequest) : Prop where
  id : request.id = UInt64.ofNat i + 1
  nonempty : request.history ≠ []
  short : request.history.length ≤ 4096
  history : HistorySound request.history

theorem validateRequest_eq_ok {revisions after : UInt64} {request}
    (h : validateRequest lib revisions (request, i) = .ok after) :
    RequestSound i request ∧ RequestTexts request ∧
      after = revisions + UInt64.ofNat request.history.length := by
  obtain ⟨⟨⟩, hshape, h⟩ := bind_eq_ok.mp h
  obtain ⟨⟨⟩, htext, h⟩ := bind_eq_ok.mp h
  obtain ⟨flag, hhistory, h⟩ := bind_eq_ok.mp h
  simp only [failIf_eq_ok, not_or, not_not, not_lt] at hshape
  obtain ⟨⟨⟩, htitle, hdescription⟩ := bind_eq_ok.mp htext
  refine ⟨⟨hshape.1, fun hnil => hshape.2.1 (by rw [hnil]; rfl), hshape.2.2,
    historySound_of_valid hhistory⟩, ⟨(operatorRequestText_eq_ok.mp htitle).1,
    (operatorRequestText_eq_ok.mp hdescription).1, fun entry hentry => ?_⟩,
    (Except.ok.inj h).symm⟩
  obtain ⟨i, hi⟩ := mem_iff_getElem?.mp hentry
  exact (validateEntry_of_history hhistory hi).2.1

theorem revisions_eq {requests : List OperatorRequest} {start : ℕ} {revisions after : UInt64}
    (h : (requests.zipIdx start).foldlM (validateRequest lib) revisions = .ok after) :
    after = revisions + UInt64.ofNat (requests.map fun request => request.history.length).sum := by
  induction requests generalizing start revisions with
  | nil =>
    rw [← Except.ok.inj h]
    simp
  | cons request requests ih =>
    rw [zipIdx_cons, foldlM_cons] at h
    obtain ⟨next, hrequest, h⟩ := bind_eq_ok.mp h
    rw [ih h, (validateRequest_eq_ok hrequest).2.2, map_cons, sum_cons,
      UInt64.ofNat_add, UInt64.add_assoc]

/-- The texts of a ledger are UTF-8. -/
structure LedgerTexts (ledger : OperatorRequestLedger) : Prop where
  runID : utf8Valid ledger.runID = true
  request : ∀ request ∈ ledger.all, RequestTexts request

/-- **What holds of a valid ledger.** -/
structure LedgerSound (ledger : OperatorRequestLedger) : Prop where
  request : ∀ i request, ledger.all[i]? = some request → RequestSound i request
  count : ledger.all.length ≤ maxOperatorRequests
  revision : ledger.revision.toNat = (ledger.all.map fun request => request.history.length).sum

section Ledger

variable {ledger : OperatorRequestLedger}

section

variable (h : validateOperatorRequests lib ledger = .ok ())
include h

theorem validateOperatorRequests_eq_ok :
    ledger.schemaVersion = 1 ∧ operatorRunIDValid ledger.runID = true ∧
      ledger.requests = some ledger.all ∧ ledger.all.length ≤ maxOperatorRequests ∧
      ledger.all.zipIdx.foldlM (validateRequest lib) 0 = .ok ledger.revision := by
  obtain ⟨⟨⟩, hshape, h⟩ := bind_eq_ok.mp h
  obtain ⟨revisions, hrequests, h⟩ := bind_eq_ok.mp h
  simp only [failIf_eq_ok, not_or, not_not, not_lt, Bool.not_eq_false] at hshape h
  obtain ⟨hschema, hrun, hsome, hcount⟩ := hshape
  refine ⟨hschema, hrun, ?_, hcount, h ▸ hrequests⟩
  obtain ⟨requests, hrequests⟩ := Option.ne_none_iff_exists'.mp hsome
  rw [OperatorRequestLedger.all, hrequests]
  rfl

theorem validateRequest_of_valid {i : ℕ} {request} (hi : ledger.all[i]? = some request) :
    RequestSound i request ∧ RequestTexts request := by
  obtain ⟨-, -, -, -, hrequests⟩ := validateOperatorRequests_eq_ok h
  rw [zipIdx_split hi] at hrequests
  obtain ⟨before, after, -, hrequest, -⟩ := foldlM_at hrequests
  obtain ⟨hsound, htexts, -⟩ := validateRequest_eq_ok hrequest
  exact ⟨hsound, htexts⟩

/-- **The texts of a valid ledger are UTF-8.** -/
theorem ledgerTexts_of_valid : LedgerTexts ledger where
  runID := utf8Valid_runID (validateOperatorRequests_eq_ok h).2.1
  request request hrequest := by
    obtain ⟨i, hi⟩ := mem_iff_getElem?.mp hrequest
    exact (validateRequest_of_valid h hi).2

end

theorem sum_lengths_le (h : ∀ request ∈ ledger.all, request.history.length ≤ 4096)
    (hcount : ledger.all.length ≤ maxOperatorRequests) :
    (ledger.all.map fun request => request.history.length).sum ≤ 128 * 4096 := by
  have hsum := sum_le_card_nsmul (ledger.all.map fun request => request.history.length) 4096
    (by simpa using h)
  rw [length_map, smul_eq_mul] at hsum
  exact hsum.trans (Nat.mul_le_mul_right _ hcount)

/-- **A valid ledger is sound.** -/
theorem ledgerSound_of_valid (h : validateOperatorRequests lib ledger = .ok ()) :
    LedgerSound ledger where
  request i request hi := (validateRequest_of_valid h hi).1
  count := (validateOperatorRequests_eq_ok h).2.2.2.1
  revision := by
    obtain ⟨-, -, -, hcount, hrequests⟩ := validateOperatorRequests_eq_ok h
    have hshort : ∀ request ∈ ledger.all, request.history.length ≤ 4096 := by
      intro request hrequest
      obtain ⟨i, hi⟩ := mem_iff_getElem?.mp hrequest
      exact (validateRequest_of_valid h hi).1.short
    have hle := sum_lengths_le hshort hcount
    rw [revisions_eq hrequests, UInt64.zero_add, UInt64.toNat_ofNat']
    exact Nat.mod_eq_of_lt (by omega)

end Ledger

/-! ### The members are restored -/

theorem restores_actor (a : OperatorRequestActor) : actorCodec.Restores a := by
  have hgeneration : Codec.uint64.pointer.Restores a.generation := by
    cases a.generation with
    | none => exact restores_nil _
    | some n => exact restores_pointer rfl (by simp) (restores_uint64 n)
  refine restores_struct (by decide +kernel) ?_
  unfold actorParts
  iterate 3 refine foldlM_of (restores_string _) rfl rfl ?_
  refine foldlM_of (restores_omitEmpty hgeneration) rfl rfl ?_
  iterate 2 refine foldlM_of (restores_omitEmpty (restores_string _)) rfl rfl ?_
  rfl

theorem restores_revision (entry : OperatorRequestRevision) : revisionCodec.Restores entry := by
  refine restores_struct (by decide +kernel) ?_
  unfold revisionParts
  refine foldlM_of (restores_uint64 _) rfl rfl ?_
  refine foldlM_of (restores_string _) rfl rfl ?_
  refine foldlM_of (restores_actor _) rfl rfl ?_
  refine foldlM_of (restores_string _) rfl rfl ?_
  iterate 3 refine foldlM_of (restores_omitEmpty (restores_string _)) rfl rfl ?_
  refine foldlM_of (restores_omitEmpty (restores_uint64 _)) rfl rfl ?_
  rfl

theorem restores_request (request : OperatorRequest) : requestCodec.Restores request := by
  have hhistory : revisionCodec.list.Restores request.history :=
    restores_list (fun entry _ => restores_revision entry) fun _ _ => rfl
  refine restores_struct (by decide +kernel) ?_
  unfold requestParts
  refine foldlM_of (restores_uint64 _) rfl rfl ?_
  iterate 2 refine foldlM_of (restores_string _) rfl rfl ?_
  refine foldlM_of hhistory rfl rfl ?_
  rfl

theorem restores_inheritance (inherited : OperatorRequestInheritance) :
    inheritanceCodec.Restores inherited := by
  refine restores_struct (by decide +kernel) ?_
  unfold inheritanceParts
  refine foldlM_of (restores_string _) rfl rfl ?_
  refine foldlM_of (restores_uint64 _) rfl rfl ?_
  refine foldlM_of (restores_string _) rfl rfl ?_
  rfl

theorem restores_ledger {ledger : OperatorRequestLedger} (hschema : ledger.schemaVersion = 1)
    (hrequests : ledger.requests = some ledger.all) : ledgerCodec.Restores ledger := by
  have hversion : Codec.int.Restores ledger.schemaVersion := by
    rw [hschema]
    exact restores_int (by decide : 1 < 2 ^ 63)
  have hinherited : inheritanceCodec.pointer.Restores ledger.inherited := by
    cases ledger.inherited with
    | none => exact restores_nil _
    | some inherited =>
      exact restores_pointer rfl (by simp) (restores_inheritance inherited)
  have hslice : requestCodec.slice.Restores ledger.requests := by
    rw [hrequests]
    exact restores_slice (fun request _ => restores_request request) fun _ _ => rfl
  refine restores_struct (by decide +kernel) ?_
  unfold ledgerParts
  refine foldlM_of hversion rfl rfl ?_
  refine foldlM_of (restores_string _) rfl rfl ?_
  refine foldlM_of (restores_uint64 _) rfl rfl ?_
  refine foldlM_of (restores_omitEmpty hinherited) rfl rfl ?_
  refine foldlM_of hslice rfl rfl ?_
  rfl

/-! ### The members print -/

section Prints

/-- The texts of an inheritance are UTF-8. -/
structure InheritanceTexts (inherited : OperatorRequestInheritance) : Prop where
  runID : utf8Valid inherited.runID = true
  sha256 : utf8Valid inherited.sha256 = true

theorem prints_actor {a} (h : ActorTexts a) :
    actorCodec.Prints (fun text => utf8Valid text = true) 1 a := by
  refine prints_struct (by decide +kernel) ?_
  simp only [actorParts, forall_mem_cons, not_mem_nil, false_implies, implies_true,
    and_true, Member.of]
  exact ⟨prints_string h.role, prints_string h.name, prints_string h.runID,
    prints_omitEmpty fun _ => prints_pointer fun n _ => prints_uint64 n,
    prints_omitEmpty fun _ => prints_string h.threadID,
    prints_omitEmpty fun _ => prints_string h.turnID⟩

theorem prints_revision {entry} (h : EntryTexts entry) :
    revisionCodec.Prints (fun text => utf8Valid text = true) 2 entry := by
  refine prints_struct (by decide +kernel) ?_
  simp only [revisionParts, forall_mem_cons, not_mem_nil, false_implies, implies_true,
    and_true, Member.of]
  exact ⟨prints_uint64 _, prints_string h.action, prints_actor h.actor,
    prints_string h.timestamp,
    prints_omitEmpty fun _ => prints_string h.disposition,
    prints_omitEmpty fun _ => prints_string h.explanation,
    prints_omitEmpty fun _ => prints_string h.evidence,
    prints_omitEmpty fun _ => prints_uint64 _⟩

theorem prints_request {request} (h : RequestTexts request) :
    requestCodec.Prints (fun text => utf8Valid text = true) 4 request := by
  refine prints_struct (by decide +kernel) ?_
  simp only [requestParts, forall_mem_cons, not_mem_nil, false_implies, implies_true,
    and_true, Member.of]
  exact ⟨prints_uint64 _, prints_string h.title, prints_string h.description,
    prints_list fun entry hentry => prints_revision (h.entry entry hentry)⟩

theorem prints_inheritance {inherited} (h : InheritanceTexts inherited) :
    inheritanceCodec.Prints (fun text => utf8Valid text = true) 5 inherited := by
  refine prints_struct (by decide +kernel) ?_
  simp only [inheritanceParts, forall_mem_cons, not_mem_nil, false_implies, implies_true,
    and_true, Member.of]
  exact ⟨prints_string h.runID, prints_uint64 _, prints_string h.sha256⟩

theorem prints_ledger {ledger : OperatorRequestLedger} (hschema : ledger.schemaVersion = 1)
    (hrequests : ledger.requests = some ledger.all) (h : LedgerTexts ledger)
    (hinherited : ∀ inherited ∈ ledger.inherited, InheritanceTexts inherited) :
    ledgerCodec.Prints (fun text => utf8Valid text = true) 6 ledger := by
  have hversion : Codec.int.Prints (fun text => utf8Valid text = true) 5 ledger.schemaVersion := by
    rw [hschema]
    exact prints_int 1
  have hslice :
      requestCodec.slice.Prints (fun text => utf8Valid text = true) 5 ledger.requests := by
    rw [hrequests]
    exact prints_slice fun request hrequest => prints_request (h.request request hrequest)
  refine prints_struct (by decide +kernel) ?_
  simp only [ledgerParts, forall_mem_cons, not_mem_nil, false_implies, implies_true,
    and_true, Member.of]
  exact ⟨hversion, prints_string h.runID, prints_uint64 _,
    prints_omitEmpty fun _ => prints_pointer fun inherited hmem =>
      prints_inheritance (hinherited inherited hmem),
    hslice⟩

end Prints

/-! ### The file is read back -/

/-- **The file of a valid ledger is read back**, with or without the line ended. -/
theorem decodeOperatorRequests_encoded {ledger}
    (hvalid : validateOperatorRequests lib ledger = .ok ())
    (hinherited : ∀ inherited ∈ ledger.inherited, InheritanceTexts inherited) {rest : Bytes}
    (hrest : rest = [] ∨ rest = [0x0a]) :
    decodeOperatorRequests lib (encodeLedger ledger ++ rest) = .ok ledger := by
  obtain ⟨hschema, -, hrequests, -⟩ := validateOperatorRequests_eq_ok hvalid
  obtain ⟨hprintable, hdepth⟩ := prints_ledger hschema hrequests (ledgerTexts_of_valid hvalid)
    hinherited ledger.json rfl
  have hread : ledger.json.Printable (Quotes (escape true)) :=
    hprintable.mono fun text => quotes_escape true
  have hstops : Stops rest := by
    rcases hrest with rfl | rfl
    · exact stops_nil
    · exact stops_cons (by decide)
  have hpasses : Passes rest := by
    rcases hrest with rfl | rfl
    · exact passes_nil
    · exact passes_byte (by decide)
  have hblank : skipBlank rest = [] := by
    rcases hrest with rfl | rfl <;> rfl
  have hutf8 : utf8Valid (encodeLedger ledger ++ rest) = true := by
    rw [encodeLedger, utf8Valid_append
      (utf8Valid_print _ (hprintable.mono fun text => utf8Valid_escape true) 0)]
    rcases hrest with rfl | rfl <;> decide
  have hsurrogates : validJSONStringSurrogates (encodeLedger ledger ++ rest) = true :=
    validJSONStringSurrogates_print (hprintable.mono fun text => passes_escape true) hread 0 hpasses
  have hfirst : first (encodeLedger ledger ++ rest) = some (ledger.json, rest) :=
    first_print hread (hdepth.trans (by decide)) hstops
  have hinto : ledgerCodec.into ledger.json ledgerCodec.zero = some ledger :=
    restores_ledger hschema hrequests
  rw [decodeOperatorRequests, hfirst]
  simp only [failIf, hutf8, hsurrogates, hinto, hblank, hvalid]
  rfl

end Carcer.Store
