import Carcer.Store.FeatureFile

/-!
# Runs of the feature-request store

Whatever operations are performed, the directory is always read as the requests in memory, and the
requests change as the operations say.

## Main definitions

* `Consistent`: the directory is read as the requests in memory

## Main results

* `consistent_perform`, `consistent_performAll`: operations keep the store consistent
* `featureRequests_sound`: sequences of operations
-/

namespace Carcer.Store.Feature

open Carcer.Wire Carcer.Json Carcer.Disk List

variable {request : FeatureRequest} {store : FeatureRequestStore} {suffix : Bytes} {id : UInt64}

/-! ### Writing -/

/-- The entries of a directory are listed in the order of their names. -/
def Listed (place : Option Entry) : Prop :=
  ∀ entries, place = some (.directory entries) → Named.Ordered entries

/-- **The directory is read as the requests in memory.** -/
structure Consistent (store : FeatureRequestStore) : Prop where
  read : readFeatureRequests store.place = .ok store.requests
  listed : Listed store.place

theorem refresh_eq (h : Consistent store) : store.refresh = .ok store := by
  rw [FeatureRequestStore.refresh, newFeatureRequestStore, h.read]
  rfl

/-- The entries that are read are those that writing begins with. -/
theorem Consistent.opened (h : Consistent store) : ∃ entries : Directory,
    Disk.opened store.place = some entries ∧ entries.Ordered ∧
      readFeatureRequests (some (.directory entries)) = .ok store.requests ∧
      ∀ id, openDirectory id store.place = .ok entries := by
  obtain ⟨hread, hlisted⟩ := h
  unfold Listed at hlisted
  generalize store.place = place at hread hlisted ⊢
  unfold readFeatureRequests at hread
  split at hread
  · refine ⟨[], rfl, List.Pairwise.nil, ?_, fun _ => rfl⟩
    rw [← Except.ok.inj hread]
    rfl
  · rename_i entries
    exact ⟨entries, rfl, hlisted entries rfl, hread, fun _ => rfl⟩
  · cases hread

section Opened

variable {entries : Directory} {requests : Requests} (hordered : entries.Ordered)
  (hread : readFeatureRequests (some (.directory entries)) = .ok requests)

include hordered hread

/-- A directory that is read holds no temporary file. -/
theorem entry_temporaryName (id : UInt64) (suffix : Bytes) :
    entries.entry (temporaryName id suffix) = none := by
  cases hentry : entries.entry (temporaryName id suffix) with
  | none => rfl
  | some entry =>
    obtain ⟨request, hrecord⟩ := ((readFeatureRequests_directory hordered).mp hread).1 _
      (Named.mem_of_entry hentry)
    rw [readRecord, temporaryName, cons_append, requestIDFromName_dot] at hrecord
    cases hrecord

/-- A record stands under the name of a request exactly if there is the request. -/
theorem exists_iff_mem (id : UInt64) :
    ((entries.entry (requestName id)).bind Entry.follow).isSome = true ↔ id ∈ requests := by
  obtain ⟨hall, hlookup⟩ := (readFeatureRequests_directory hordered).mp hread
  constructor
  · intro h
    cases hentry : entries.entry (requestName id) with
    | none => simp [hentry] at h
    | some entry =>
      have hmem := Named.mem_of_entry hentry
      obtain ⟨request, hrecord⟩ := hall _ hmem
      have hid := requestName_injective (readRecord_eq_ok hrecord).1
      refine Finmap.lookup_isSome.mp (Option.isSome_iff_exists.mpr ⟨request, ?_⟩)
      exact (hlookup id request).mpr ⟨_, hmem, hrecord, hid.symm⟩
  · intro h
    obtain ⟨request, hrequest⟩ := Option.isSome_iff_exists.mp (Finmap.lookup_isSome.mpr h)
    obtain ⟨⟨name, entry⟩, hmem, hrecord, rfl⟩ := (hlookup id request).mp hrequest
    obtain rfl : name = requestName request.id := (readRecord_eq_ok hrecord).1
    rw [Named.entry_of_mem hordered hmem]
    -- only a regular file is a record
    cases entry with
    | file content => rfl
    | directory _ | symlink _ | special =>
      simp [readRecord, requestIDFromName_name (readRecord_eq_ok hrecord).2.id] at hrecord

end Opened

/-- **What writing asks for**: a valid request, and an identifier that is free if no file may be
replaced. -/
theorem writeCalls_eq_ok (h : Consistent store) {replace : Bool} {calls : List Call} :
    writeCalls store.place suffix request replace = .ok calls ↔
      Valid request ∧ (replace = false → request.id ∉ store.requests) ∧
      renamed (temporaryName request.id suffix) (requestName request.id)
        (encodeFeatureRequest request) = calls := by
  obtain ⟨entries, -, hordered, hread, hopen⟩ := h.opened
  have hexists := exists_iff_mem hordered hread request.id
  simp only [writeCalls, bind_eq_ok, validateRequest_eq_ok, hopen, Except.ok.injEq,
    failIf_eq_ok, not_and]
  constructor
  · rintro ⟨-, hvalid, _, rfl, -, hfree, hcalls⟩
    exact ⟨hvalid, fun hreplace hmem => hfree hreplace (hexists.mpr hmem), Except.ok.inj hcalls⟩
  · rintro ⟨hvalid, hfree, rfl⟩
    exact ⟨(), hvalid, entries, rfl, (), fun hreplace hsome => hfree hreplace (hexists.mp hsome),
      rfl⟩

theorem temporaryName_ne (id : UInt64) (suffix : Bytes) :
    temporaryName id suffix ≠ requestName id := by
  intro heq
  have hhead : (requestName id).head? = some 0x72 := rfl
  rw [← heq] at hhead
  exact absurd (Option.some.inj hhead) (by decide)

/-- **A request that can be written is read again**, and nothing else has changed. -/
theorem save_of_valid (h : Consistent store) {replace : Bool} (hvalid : Valid request)
    (hfree : replace = false → request.id ∉ store.requests) :
    ∃ place, store.save suffix request replace =
        (⟨some place, store.requests.insert request.id request⟩, .ok request) ∧
      Consistent ⟨some place, store.requests.insert request.id request⟩ := by
  obtain ⟨entries, hopened, hordered, hread, -⟩ := h.opened
  have hcalls : writeCalls store.place suffix request replace = .ok _ :=
    (writeCalls_eq_ok h).mpr ⟨hvalid, hfree, rfl⟩
  have hperformed : performCalls store.place (renamed (temporaryName request.id suffix)
      (requestName request.id) (encodeFeatureRequest request)) = some (.directory
        (entries.put (requestName request.id) (.file (encodeFeatureRequest request)))) := by
    rcases @renamed_crash _ _ _ (requestName request.id) (encodeFeatureRequest request) hopened
      hordered (entry_temporaryName hordered hread request.id suffix)
      (temporaryName_ne request.id suffix) 8 with
      ⟨hn, -⟩ | ⟨hn, -⟩ | ⟨-, hn, -⟩ | ⟨-, hperformed⟩
    · cases hn
    · cases hn
    · omega
    · exact hperformed
  refine ⟨_, ?_, readFeatureRequests_put hordered hread hvalid, ?_⟩
  · rw [FeatureRequestStore.save, hcalls]
    simp only [hperformed]
  · rintro _ ⟨⟩
    exact Named.ordered_put hordered _

theorem save_of_error (h : Consistent store) {replace : Bool}
    (hnot : ¬(Valid request ∧ (replace = false → request.id ∉ store.requests))) :
    ∃ error, store.save suffix request replace = (store, .error error) := by
  rw [FeatureRequestStore.save]
  cases hcalls : writeCalls store.place suffix request replace with
  | error error => exact ⟨error, rfl⟩
  | ok calls =>
    obtain ⟨hvalid, hfree, -⟩ := (writeCalls_eq_ok h).mp hcalls
    exact absurd ⟨hvalid, hfree⟩ hnot

/-! ### The next identifier -/

/-- The loop ends above every identifier, unless the last one is among them. -/
theorem foldl_raise (ids : List UInt64) (next : UInt64) :
    (ids.foldl raise (some next) = none ↔ lastID ∈ ids) ∧
      ∀ final, ids.foldl raise (some next) = some final →
        next ≤ final ∧ ∀ id ∈ ids, id < final := by
  induction ids generalizing next with
  | nil =>
    refine ⟨by simp, fun final h => ?_⟩
    rw [Option.some.inj h]
    exact ⟨UInt64.le_refl _, by simp⟩
  | cons id ids ih =>
    rw [foldl_cons, raise_some]
    by_cases hlast : id = lastID
    · -- nothing follows the last identifier
      have hnone : ids.foldl raise none = none := by
        clear ih
        induction ids with
        | nil => rfl
        | cons id ids ih => exact ih
      rw [if_pos hlast, hnone]
      simp [hlast]
    · have hsucc := toNat_succ hlast
      obtain ⟨hnone, hsome⟩ := ih (UInt64.ofNat (max next.toNat (id + 1).toNat))
      have hmax : (UInt64.ofNat (max next.toNat (id + 1).toNat)).toNat =
          max next.toNat (id + 1).toNat :=
        UInt64.toNat_ofNat_of_lt' (max_lt next.toNat_lt (id + 1).toNat_lt)
      have hne : ¬lastID = id := fun heq => hlast heq.symm
      rw [if_neg hlast, hnone]
      refine ⟨by simp [hne], fun final h => ?_⟩
      obtain ⟨hle, hall⟩ := hsome final h
      rw [UInt64.le_iff_toNat_le, hmax, hsucc] at hle
      refine ⟨UInt64.le_iff_toNat_le.mpr (by omega), forall_mem_cons.mpr ⟨?_, hall⟩⟩
      exact UInt64.lt_iff_toNat_lt.mpr (by omega)

/-- **A new identifier is larger than all others**, and there is one unless the last is taken. -/
theorem nextRequestID_spec (requests : Requests) :
    (nextRequestID requests = none ↔ lastID ∈ requests) ∧
      ∀ id, nextRequestID requests = some id → id ≠ 0 ∧ ∀ other ∈ requests, other < id := by
  induction requests using Finmap.induction_on with
  | H requests =>
    have hloop : nextRequestID requests.toFinmap = requests.keys.foldl raise (some 1) := by
      rw [AList.keys, List.keys, foldl_map]
      rfl
    obtain ⟨hnone, hsome⟩ := foldl_raise requests.keys 1
    rw [hloop]
    refine ⟨hnone, fun id h => ?_⟩
    obtain ⟨hle, hall⟩ := hsome id h
    refine ⟨?_, hall⟩
    rintro rfl
    exact absurd hle (by decide)

/-! ### The operations -/

theorem validFeatureStatus_pending : validFeatureStatus featurePending = true := by decide +kernel

theorem decided_ne_pending {status : Bytes}
    (h : status = featureApproved ∨ status = featureDenied) :
    status ≠ featurePending ∧ validFeatureStatus status = true := by
  rcases h with rfl | rfl <;> decide +kernel

/-- **What `Create` does.** -/
theorem create_spec (h : Consistent store) (generation : UInt64) (title description : Bytes) :
    let result := create suffix generation title description store
    Consistent result.1 ∧
    ((∃ request, result.2 = .ok request) ↔
      validateFeatureText title description = .ok () ∧ lastID ∉ store.requests) ∧
    (∀ error, result.2 = .error error → result.1 = store) ∧
    ∀ request, result.2 = .ok request →
      request = ⟨request.id, generation, title, description, featurePending, []⟩ ∧
      (∀ id ∈ store.requests, id < request.id) ∧
      result.1.requests = store.requests.insert request.id request := by
  simp only
  unfold create
  rcases htext : validateFeatureText title description with error | u
  · simp [h]
  obtain ⟨hnone, hsome⟩ := nextRequestID_spec store.requests
  simp only [refresh_eq h]
  rcases hnext : nextRequestID store.requests with _ | id
  · have hlast := hnone.mp hnext
    simp [h, hlast]
  obtain ⟨hid, hlarger⟩ := hsome id hnext
  have hlast : lastID ∉ store.requests := fun hmem => by
    rw [hnone.mpr hmem] at hnext
    cases hnext
  have hfree : id ∉ store.requests := fun hmem =>
    absurd (hlarger id hmem) (UInt64.lt_irrefl id)
  obtain ⟨htitle, hdescription, hnonempty, hlimit, hlimit'⟩ := validateFeatureText_eq_ok.mp htext
  have hvalid : Valid ⟨id, generation, title, description, featurePending, []⟩ :=
    ⟨hid, htitle, hdescription, hnonempty, hlimit, hlimit', rfl, Nat.zero_le _, fun _ => rfl,
      validFeatureStatus_pending⟩
  obtain ⟨place, hsave, hconsistent⟩ := @save_of_valid _ _ suffix h false hvalid fun _ => hfree
  simp only [hsave]
  refine ⟨hconsistent, ⟨fun _ => ⟨trivial, hlast⟩, fun _ => ⟨_, rfl⟩⟩, fun error herror => ?_,
    fun request hrequest => ?_⟩
  · cases herror
  · cases hrequest
    exact ⟨rfl, hlarger, rfl⟩

theorem valid_of_lookup (h : Consistent store)
    (hlookup : store.requests.lookup id = some request) : request.id = id ∧ Valid request := by
  obtain ⟨entries, -, hordered, hread, -⟩ := h.opened
  exact valid_of_read hordered hread hlookup

/-- A valid request stays valid when it is decided with a valid note. -/
theorem valid_decided (h : Valid request) {status note : Bytes}
    (hstatus : status = featureApproved ∨ status = featureDenied)
    (hnote : validateFeatureDecisionNote note = .ok ()) :
    Valid { request with status := status, decisionNote := note } := by
  obtain ⟨hutf8, hlimit⟩ := validateFeatureDecisionNote_eq_ok.mp hnote
  refine ⟨h.id, h.title, h.description, h.titleNonempty, h.titleLimit, h.descriptionLimit, hutf8,
    hlimit, fun hpending => ?_, (decided_ne_pending hstatus).2⟩
  exact absurd hpending (decided_ne_pending hstatus).1

/-- **What `Approve` and `Deny` do.** -/
theorem setStatus_spec (h : Consistent store) (id : UInt64) {status : Bytes} (note : Bytes)
    (hstatus : status = featureApproved ∨ status = featureDenied) :
    let result := setStatus suffix id status note store
    Consistent result.1 ∧
    ((∃ request, result.2 = .ok request) ↔
      (∃ current, store.requests.lookup id = some current ∧ current.status = featurePending) ∧
        validateFeatureDecisionNote note = .ok ()) ∧
    (∀ error, result.2 = .error error → result.1 = store) ∧
    ∀ request, result.2 = .ok request →
      ∃ current, store.requests.lookup id = some current ∧ current.status = featurePending ∧
        request = { current with status := status, decisionNote := note } ∧
        result.1.requests = store.requests.insert id request := by
  simp only
  unfold setStatus
  simp only [refresh_eq h]
  have hzero : validateRequestID id = .ok () ∨
      (validateRequestID id = .error .id ∧ store.requests.lookup id = none) := by
    by_cases hid : id = 0
    · refine .inr ⟨if_pos hid, ?_⟩
      -- no request that was read has the identifier zero
      cases hlookup : store.requests.lookup id with
      | none => rfl
      | some current =>
        obtain ⟨hsame, hvalid⟩ := valid_of_lookup h hlookup
        exact absurd (hsame.trans hid) hvalid.id
    · exact .inl (if_neg hid)
  rcases hzero with hid | ⟨hid, hlookup⟩
  · simp only [hid]
    rcases hlookup : store.requests.lookup id with _ | current
    · simp [h]
    obtain ⟨rfl, hvalid⟩ := valid_of_lookup h hlookup
    simp only
    by_cases hpending : current.status = featurePending
    · rw [if_neg (not_not.mpr hpending)]
      by_cases hnote : validateFeatureDecisionNote note = .ok ()
      · have hdecided := valid_decided hvalid hstatus hnote
        obtain ⟨place, hsave, hconsistent⟩ := @save_of_valid _ _ suffix h true hdecided (by simp)
        simp only [hsave]
        refine ⟨hconsistent, ⟨fun _ => ⟨⟨current, rfl, hpending⟩, hnote⟩, fun _ => ⟨_, rfl⟩⟩,
          fun error herror => ?_, fun request hrequest => ?_⟩
        · cases herror
        · cases hrequest
          exact ⟨current, rfl, hpending, rfl, rfl⟩
      · have hinvalid : ¬Valid { current with status := status, decisionNote := note } :=
          fun hdecided => hnote (validateFeatureDecisionNote_eq_ok.mpr
            ⟨hdecided.note, hdecided.noteLimit⟩)
        obtain ⟨error, hsave⟩ := @save_of_error _ _ suffix h true fun hok => hinvalid hok.1
        simp [hsave, h, hnote]
    · rw [if_pos hpending]
      simp [h, hpending]
  · simp [hid, hlookup, h]

/-! ### Import -/

/-- Every request is kept under its own identifier. -/
def Keyed (requests : Requests) : Prop :=
  ∀ id request, requests.lookup id = some request → request.id = id

theorem mem_sorted {requests : Requests} :
    request ∈ sorted requests ↔ ∃ id, requests.lookup id = some request := by
  simp only [sorted, mem_filterMap, Finset.mem_sort, Finmap.mem_keys]
  refine exists_congr fun id => and_iff_right_of_imp fun hlookup => ?_
  exact Finmap.lookup_isSome.mp (Option.isSome_iff_exists.mpr ⟨_, hlookup⟩)

/-- The identifiers of the sorted requests are those of the map. -/
theorem map_id_sorted {requests} (h : Keyed requests) :
    (sorted requests).map FeatureRequest.id = requests.keys.sort (· ≤ ·) := by
  have hkeys : ∀ id ∈ requests.keys.sort (· ≤ ·), id ∈ requests := fun id hid =>
    Finmap.mem_keys.mp ((Finset.mem_sort _).mp hid)
  rw [sorted]
  generalize requests.keys.sort (· ≤ ·) = ids at hkeys
  induction ids with
  | nil => rfl
  | cons id ids ih =>
    obtain ⟨hid, hrest⟩ := forall_mem_cons.mp hkeys
    obtain ⟨request, hrequest⟩ := Option.isSome_iff_exists.mp (Finmap.lookup_isSome.mpr hid)
    simp only [filterMap_cons, hrequest, map_cons, ih hrest, h id request hrequest]

theorem nodup_sorted {requests} (h : Keyed requests) :
    ((sorted requests).map FeatureRequest.id).Nodup := by
  rw [map_id_sorted h]
  exact Finset.sort_nodup _ _

theorem foldlM_collect {requests : List FeatureRequest} {imported : Requests} :
    requests.foldlM collect ∅ = .ok imported ↔
      (∀ request ∈ requests, Valid request) ∧ (requests.map FeatureRequest.id).Nodup ∧
      ∀ id request, imported.lookup id = some request ↔ request ∈ requests ∧ request.id = id := by
  have hcollect : collect = fun imported request =>
      (do validateRequest request; return request : Except FeatureError FeatureRequest) >>=
        insertNew (.duplicate request.id) imported := by
    funext imported request
    unfold collect
    cases validateRequest request <;> rfl
  have hitem : ∀ {found : List FeatureRequest}, requests.mapM (fun request =>
      (do validateRequest request; return request : Except FeatureError FeatureRequest)) =
        .ok found ↔ (∀ request ∈ requests, Valid request) ∧ requests = found := by
    intro found
    rw [mapM_eq_ok]
    constructor
    · intro h
      induction h with
      | nil => simp
      | cons hhead _ ih =>
        obtain ⟨⟨⟩, hvalid, hsame⟩ := bind_eq_ok.mp hhead
        cases hsame
        exact ⟨forall_mem_cons.mpr ⟨validateRequest_eq_ok.mp hvalid, ih.1⟩, by rw [ih.2]⟩
    · rintro ⟨hvalid, rfl⟩
      refine List.forall₂_same.mpr fun request hrequest => ?_
      exact bind_eq_ok.mpr ⟨(), validateRequest_eq_ok.mpr (hvalid request hrequest), rfl⟩
  rw [hcollect, foldlM_insertNew]
  simp only [hitem]
  constructor
  · rintro ⟨found, ⟨hvalid, rfl⟩, hnodup, -, hlookup⟩
    exact ⟨hvalid, hnodup, fun id request => by rw [hlookup]; simp⟩
  · rintro ⟨hvalid, hnodup, hlookup⟩
    exact ⟨requests, ⟨hvalid, rfl⟩, hnodup, fun _ _ => Finmap.notMem_empty,
      fun id request => by rw [hlookup]; simp⟩

theorem exists_collect {requests : List FeatureRequest} {start : Requests}
    (hvalid : ∀ request ∈ requests, Valid request)
    (hnodup : (requests.map FeatureRequest.id).Nodup)
    (hfree : ∀ request ∈ requests, request.id ∉ start) :
    ∃ imported, requests.foldlM collect start = .ok imported := by
  induction requests generalizing start with
  | nil => exact ⟨start, rfl⟩
  | cons first rest ih =>
    obtain ⟨hfirst, hrest⟩ := forall_mem_cons.mp hvalid
    obtain ⟨hfresh, hfree⟩ := forall_mem_cons.mp hfree
    obtain ⟨hother, hnodup⟩ := nodup_cons.mp hnodup
    have hcollect : collect start first = .ok (start.insert first.id first) :=
      bind_eq_ok.mpr ⟨(), validateRequest_eq_ok.mpr hfirst, insertNew_eq_ok.mpr ⟨hfresh, rfl⟩⟩
    obtain ⟨imported, himported⟩ := @ih (start.insert first.id first) hrest hnodup (by
      intro request hrequest hmem
      rcases Finmap.mem_insert.mp hmem with hsame | hmem
      · exact hother (hsame ▸ mem_map_of_mem hrequest)
      · exact hfree request hrequest hmem)
    exact ⟨imported, bind_eq_ok.mpr ⟨_, hcollect, himported⟩⟩

section

variable (h : Consistent store)
include h

/-- The last loop of `Import` writes what it is given. -/
theorem saveAll_of_valid {requests}
    (hvalid : ∀ request ∈ requests, Valid request) (hnodup : (requests.map FeatureRequest.id).Nodup)
    (hfree : ∀ request ∈ requests, request.id ∉ store.requests) :
    ∃ next, saveAll suffix requests store = (next, .ok ()) ∧ Consistent next ∧
      ∀ id request, next.requests.lookup id = some request ↔
        store.requests.lookup id = some request ∨ (request ∈ requests ∧ request.id = id) := by
  induction requests generalizing store with
  | nil => exact ⟨store, rfl, h, by simp⟩
  | cons first rest ih =>
    obtain ⟨hfirst, hrest⟩ := forall_mem_cons.mp hvalid
    obtain ⟨hfresh, hfree⟩ := forall_mem_cons.mp hfree
    obtain ⟨hother, hnodup⟩ := nodup_cons.mp hnodup
    obtain ⟨place, hsave, hconsistent⟩ := @save_of_valid _ _ suffix h false hfirst fun _ => hfresh
    obtain ⟨next, hnext, hconsistent', hlookup⟩ := ih hconsistent hrest hnodup (by
      intro request hrequest hmem
      rcases Finmap.mem_insert.mp hmem with hsame | hmem
      · exact hother (hsame ▸ mem_map_of_mem hrequest)
      · exact hfree request hrequest hmem)
    refine ⟨next, by rw [saveAll, hsave]; exact hnext, hconsistent', fun id request => ?_⟩
    rw [hlookup, lookup_insert_new hfresh, mem_cons, or_and_right, or_assoc]

/-- **What `Import` does.** -/
theorem importRequests_spec (requests : List FeatureRequest) :
    let result := importRequests suffix requests store
    Consistent result.1 ∧
    (result.2 = .ok () ↔ store.place = none ∧ (∀ request ∈ requests, Valid request) ∧
      (requests.map FeatureRequest.id).Nodup) ∧
    (∀ error, result.2 = .error error → result.1 = store) ∧
    (result.2 = .ok () → store.requests = ∅ ∧ ∀ id request,
      result.1.requests.lookup id = some request ↔ request ∈ requests ∧ request.id = id) := by
  simp only
  unfold importRequests
  simp only [refresh_eq h]
  by_cases hplace : store.place = none
  · have hempty : store.requests = ∅ := by
      have hread := h.read
      rw [hplace] at hread
      exact (Except.ok.inj hread).symm
    rw [if_neg (by simp [hplace, hempty])]
    rcases hcollect : requests.foldlM collect ∅ with error | imported
    · have hnot : ¬((∀ request ∈ requests, Valid request) ∧
          (requests.map FeatureRequest.id).Nodup) := by
        rintro ⟨hvalid, hnodup⟩
        obtain ⟨imported, himported⟩ := exists_collect hvalid hnodup fun _ _ => Finmap.notMem_empty
        rw [hcollect] at himported
        cases himported
      simpa [h, hplace] using hnot
    obtain ⟨hvalid, hnodup, hlookup⟩ := foldlM_collect.mp hcollect
    have hkeyed : Keyed imported := fun id request hfound => ((hlookup id request).mp hfound).2
    have hmem : ∀ request, request ∈ sorted imported ↔ request ∈ requests := by
      intro request
      rw [mem_sorted]
      exact ⟨fun ⟨id, hfound⟩ => ((hlookup id request).mp hfound).1,
        fun hrequest => ⟨request.id, (hlookup _ _).mpr ⟨hrequest, rfl⟩⟩⟩
    obtain ⟨next, hsave, hconsistent, hnext⟩ := @saveAll_of_valid _ suffix h (sorted imported)
      (fun request hrequest => hvalid request ((hmem request).mp hrequest))
      (nodup_sorted hkeyed) (by
        intro request _
        rw [hempty]
        exact Finmap.notMem_empty)
    simp only [hsave]
    refine ⟨hconsistent, ⟨fun _ => ⟨hplace, hvalid, hnodup⟩, fun _ => trivial⟩,
      fun error herror => ?_, fun _ => ⟨hempty, fun id request => ?_⟩⟩
    · cases herror
    · rw [hnext, hempty, hmem]
      simp
  · have hsome : store.place.isSome = true := Option.isSome_iff_ne_none.mpr hplace
    rw [if_pos (.inr hsome)]
    simp [h, hplace]

/-! ### Sequences of operations -/

theorem consistent_perform (suffix : Bytes) (operation : Operation) :
    Consistent (perform suffix store operation) := by
  cases operation with
  | create generation title description => exact (create_spec h generation title description).1
  | importRequests requests => exact (importRequests_spec h requests).1
  | approve id note => exact (setStatus_spec h id note (.inl rfl)).1
  | deny id note => exact (setStatus_spec h id note (.inr rfl)).1

/-- **Operations keep the store consistent.** -/
theorem consistent_performAll (operations : List (Bytes × Operation)) :
    Consistent (performAll store operations) := by
  induction operations generalizing store with
  | nil => exact h
  | cons operation operations ih => exact ih (consistent_perform h operation.1 operation.2)

/-- A decided request stays as it is when a decision is made about a pending one. -/
theorem lookup_setStatus (hlookup : store.requests.lookup id = some request)
    (hdecided : request.status ≠ featurePending) {other : UInt64} {status note : Bytes}
    (hstatus : status = featureApproved ∨ status = featureDenied) :
    (setStatus suffix other status note store).1.requests.lookup id = some request := by
  obtain ⟨-, -, herror, hok⟩ := @setStatus_spec store suffix h other status note hstatus
  cases hresult : (setStatus suffix other status note store).2 with
  | error error => rw [herror error hresult, hlookup]
  | ok changed =>
    obtain ⟨current, hcurrent, hpending, -, hrequests⟩ := hok changed hresult
    have hne : id ≠ other := by
      rintro rfl
      obtain rfl := Option.mem_unique hcurrent hlookup
      exact hdecided hpending
    rw [hrequests, Finmap.lookup_insert_of_ne _ hne, hlookup]

/-- **A decided request never changes again**: one operation. -/
theorem lookup_perform (hlookup : store.requests.lookup id = some request)
    (hdecided : request.status ≠ featurePending) (suffix : Bytes) (operation : Operation) :
    (perform suffix store operation).requests.lookup id = some request := by
  cases operation with
  | create generation title description =>
    obtain ⟨-, -, herror, hok⟩ := @create_spec store suffix h generation title description
    show (create suffix generation title description store).1.requests.lookup id = some request
    cases hresult : (create suffix generation title description store).2 with
    | error error => rw [herror error hresult, hlookup]
    | ok created =>
      obtain ⟨-, hlarger, hrequests⟩ := hok created hresult
      have hmem : id ∈ store.requests :=
        Finmap.lookup_isSome.mp (Option.isSome_iff_exists.mpr ⟨_, hlookup⟩)
      have hne : id ≠ created.id := by
        rintro rfl
        exact UInt64.lt_irrefl _ (hlarger _ hmem)
      rw [hrequests, Finmap.lookup_insert_of_ne _ hne, hlookup]
  | importRequests requests =>
    obtain ⟨-, -, herror, hok⟩ := @importRequests_spec store suffix h requests
    show (importRequests suffix requests store).1.requests.lookup id = some request
    cases hresult : (importRequests suffix requests store).2 with
    | error error => rw [herror error hresult, hlookup]
    | ok u =>
      -- nothing was there
      rw [(hok hresult).1] at hlookup
      cases hlookup
  | approve other note => exact lookup_setStatus h hlookup hdecided (.inl rfl)
  | deny other note => exact lookup_setStatus h hlookup hdecided (.inr rfl)

theorem lookup_performAll (hlookup : store.requests.lookup id = some request)
    (hdecided : request.status ≠ featurePending) (operations : List (Bytes × Operation)) :
    (performAll store operations).requests.lookup id = some request := by
  induction operations generalizing store with
  | nil => exact hlookup
  | cons operation operations ih =>
    exact ih (consistent_perform h operation.1 operation.2)
      (lookup_perform h hlookup hdecided operation.1 operation.2)

end

theorem consistent_new {place} (hopen : newFeatureRequestStore place = .ok store)
    (hlisted : Listed place) : Consistent store := by
  obtain ⟨requests, hread, hstore⟩ := bind_eq_ok.mp hopen
  cases hstore
  exact ⟨hread, hlisted⟩

/-- **Sequences of operations on a store.** After every sequence of operations on a store that was
opened, opening the directory again gives the store as it is in memory; the requests are valid and
their identifiers all different; and a further operation does what it should: `Create` adds a
pending request behind all others, `Import` fills a store without a directory with just the requests
it is given, `Approve` and `Deny` decide the pending request they name, an operation that fails
changes nothing, and no sequence of operations changes a request that was decided. -/
theorem featureRequests_sound {place : Option Entry}
    (hopen : newFeatureRequestStore place = .ok store) (hlisted : Listed place)
    (operations : List (Bytes × Operation)) :
    let held := performAll store operations
    newFeatureRequestStore held.place = .ok held ∧
    ((sorted held.requests).map FeatureRequest.id).Nodup ∧
    (∀ id request, held.requests.lookup id = some request → request.id = id ∧ Valid request ∧
      (request.status = featurePending → request.decisionNote = [])) ∧
    (∀ suffix generation title description,
      let result := create suffix generation title description held
      ((∃ request, result.2 = .ok request) ↔
        validateFeatureText title description = .ok () ∧ lastID ∉ held.requests) ∧
      (∀ error, result.2 = .error error → result.1 = held) ∧
      ∀ request, result.2 = .ok request →
        request = ⟨request.id, generation, title, description, featurePending, []⟩ ∧
        (∀ id ∈ held.requests, id < request.id) ∧
        result.1.requests = held.requests.insert request.id request) ∧
    (∀ suffix requests,
      let result := importRequests suffix requests held
      (result.2 = .ok () ↔ held.place = none ∧ (∀ request ∈ requests, Valid request) ∧
        (requests.map FeatureRequest.id).Nodup) ∧
      (∀ error, result.2 = .error error → result.1 = held) ∧
      (result.2 = .ok () → held.requests = ∅ ∧ ∀ id request,
        result.1.requests.lookup id = some request ↔ request ∈ requests ∧ request.id = id)) ∧
    (∀ suffix id status note, (status = featureApproved ∨ status = featureDenied) →
      let result := setStatus suffix id status note held
      ((∃ request, result.2 = .ok request) ↔
        (∃ current, held.requests.lookup id = some current ∧ current.status = featurePending) ∧
          validateFeatureDecisionNote note = .ok ()) ∧
      (∀ error, result.2 = .error error → result.1 = held) ∧
      ∀ request, result.2 = .ok request →
        ∃ current, held.requests.lookup id = some current ∧ current.status = featurePending ∧
          request = { current with status := status, decisionNote := note } ∧
          result.1.requests = held.requests.insert id request) ∧
    ∀ id request, held.requests.lookup id = some request → request.status ≠ featurePending →
      ∀ later, (performAll held later).requests.lookup id = some request := by
  have hheld := consistent_performAll (consistent_new hopen hlisted) operations
  refine ⟨refresh_eq hheld,
    nodup_sorted fun id request hlookup => (valid_of_lookup hheld hlookup).1,
    fun id request hlookup => ?_, fun suffix generation title description =>
      (create_spec hheld generation title description).2, fun suffix requests =>
      (importRequests_spec hheld requests).2, fun suffix id status note hstatus =>
      (setStatus_spec hheld id note hstatus).2, fun id request hlookup hdecided later =>
      lookup_performAll hheld hlookup hdecided later⟩
  obtain ⟨hid, hvalid⟩ := valid_of_lookup hheld hlookup
  exact ⟨hid, hvalid, hvalid.pending⟩

/-- A store that is opened in a run without one, and used. -/
theorem featureRequests_sound_new :
    let held := performAll ⟨none, ∅⟩ [(ascii "1", .create 1 (ascii "Shell") (ascii "Add a shell.")),
      (ascii "2", .approve 1 (ascii "Good."))]
    newFeatureRequestStore held.place = .ok held :=
  (@featureRequests_sound ⟨none, ∅⟩ none rfl (fun _ h => by cases h) _).1

end Carcer.Store.Feature
