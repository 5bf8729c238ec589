import Carcer.Store.FeatureRequests

/-!
# The files of feature requests

A request is read back from its file, and reading a directory gives the requests of its files.

## Main results

* `decodeFeatureRequest_encoded`: a valid request is read back
* `readFeatureRequests_directory`: what a directory is read as
* `readFeatureRequests_put`: a directory with a new file
-/

namespace Carcer.Store.Feature

open Carcer.Wire Carcer.Json Carcer.Disk List Finmap Codec Named

variable {request : FeatureRequest}

/-! ### Valid requests -/

/-- What `validateRequest` asks of a request. -/
structure Valid (request : FeatureRequest) : Prop where
  id : request.id ≠ 0
  title : utf8Valid request.title = true
  description : utf8Valid request.description = true
  titleNonempty : request.title ≠ []
  titleLimit : request.title.length ≤ maxFeatureTitleBytes
  descriptionLimit : request.description.length ≤ maxFeatureDescriptionBytes
  note : utf8Valid request.decisionNote = true
  noteLimit : request.decisionNote.length ≤ maxFeatureDecisionNoteBytes
  pending : request.status = featurePending → request.decisionNote = []
  status : validFeatureStatus request.status = true

theorem validateFeatureText_eq_ok {title description : Bytes} {u : Unit} :
    validateFeatureText title description = .ok u ↔
      utf8Valid title = true ∧ utf8Valid description = true ∧ title ≠ [] ∧
        title.length ≤ maxFeatureTitleBytes ∧ description.length ≤ maxFeatureDescriptionBytes := by
  simp [validateFeatureText, bind_eq_ok, and_assoc]

theorem validateFeatureDecisionNote_eq_ok {note : Bytes} {u : Unit} :
    validateFeatureDecisionNote note = .ok u ↔
      utf8Valid note = true ∧ note.length ≤ maxFeatureDecisionNoteBytes := by
  simp [validateFeatureDecisionNote, bind_eq_ok]

theorem validateRequest_eq_ok {u : Unit} : validateRequest request = .ok u ↔ Valid request := by
  simp only [validateRequest, validateRequestID, bind_eq_ok, failIf_eq_ok,
    validateFeatureText_eq_ok, validateFeatureDecisionNote_eq_ok]
  constructor
  · rintro ⟨-, hid, -, ⟨htitle, hdescription, hnonempty, htitleLimit, hlimit⟩, -,
      ⟨hnote, hnoteLimit⟩, -, hpending, hstatus⟩
    exact ⟨hid, htitle, hdescription, hnonempty, htitleLimit, hlimit, hnote, hnoteLimit,
      by simpa using hpending, by simpa using hstatus⟩
  · intro h
    exact ⟨(), h.id, (), ⟨h.title, h.description, h.titleNonempty, h.titleLimit,
      h.descriptionLimit⟩, (), ⟨h.note, h.noteLimit⟩, (), by simpa using h.pending,
      by simpa using h.status⟩

theorem utf8Valid_status {status : Bytes} (h : validFeatureStatus status = true) :
    utf8Valid status = true := by
  rcases of_decide_eq_true h with rfl | rfl | rfl <;> decide +kernel

/-! ### The round trip -/

theorem encodeFeatureRequest_eq (h : Valid request) :
    request.json.Printable (fun text => utf8Valid text = true) ∧
      request.json.depth ≤ maxNestingDepth ∧
      encodeFeatureRequest request = print escapeKept indented 0 request.json ++ [0x0a] := by
  have hprints : (Codec.struct true requestParts request).Prints
      (fun text => utf8Valid text = true) 1 request := by
    refine prints_struct (by decide +kernel) ?_
    simp only [requestParts, forall_mem_cons, not_mem_nil, false_implies, implies_true,
      and_true, Member.of]
    exact ⟨prints_omitEmpty fun _ => prints_string h.note, prints_string h.description,
      prints_uint64 _, prints_uint64 _, prints_string (utf8Valid_status h.status),
      prints_string h.title⟩
  obtain ⟨hprintable, hdepth⟩ := hprints request.json rfl
  exact ⟨hprintable, hdepth.trans (by decide),
    unescapeJSONLineSeparators_print hprintable 0 (forall_mem_singleton.mpr (by decide))⟩

theorem decodeJSONUint_print (n : UInt64) (d : ℕ) :
    decodeJSONUint (print escapeKept indented d (.number (decimal n.toNat))) = some n := by
  have hfirst := @first_print escapeKept indented (.number (decimal n.toNat)) (isNumber_decimal _)
    (Nat.zero_le _) d [] stops_nil
  rw [append_nil] at hfirst
  rw [decodeJSONUint, hfirst]
  simp only
  rw [parseUint_decimal n.toNat_lt, Option.map_some, UInt64.ofNat_toNat]

theorem decodeJSONString_print {text : Bytes} (h : utf8Valid text = true) (d : ℕ) :
    decodeJSONString (print escapeKept indented d (.string text)) = .ok text := by
  have hquotes : (Value.string text).Printable (Quotes escapeKept) := quotes_escapeKept h
  have hsurrogates : validJSONStringSurrogates (print escapeKept indented d (.string text)) =
      true := by
    have hvalid := @validJSONStringSurrogates_print escapeKept indented (.string text)
      (passes_escapeKept h) hquotes d [] passes_nil
    rwa [append_nil] at hvalid
  rw [decodeJSONString, parse_print hquotes (Nat.zero_le _)]
  simp [hsurrogates, h, failIf, bind, Except.bind, pure, Except.pure]

theorem structMembers_requestParts (request : FeatureRequest) :
    structMembers requestParts request =
      (if request.decisionNote = [] then [] else
        [(ascii "decision_note", .string request.decisionNote)]) ++
      [(ascii "description", .string request.description),
        (ascii "generation", .number (decimal request.generation.toNat)),
        (ascii "id", .number (decimal request.id.toNat)),
        (ascii "status", .string request.status), (ascii "title", .string request.title)] := by
  by_cases hnote : request.decisionNote = []
  all_goals simp [structMembers, requestParts, Member.of, Codec.omitEmpty, Codec.string,
    Codec.uint64, hnote]

/-- What `requestOfFields` looks up, once every member is known. -/
theorem requestOfFields_eq_ok {fields} (h : Valid request)
    (hexact : hasExactMembers fields (wantedFields fields) = true)
    (hid : decodeJSONUint (field fields "id") = some request.id)
    (hgeneration : decodeJSONUint (field fields "generation") = some request.generation)
    (htitle : decodeJSONString (field fields "title") = .ok request.title)
    (hdescription : decodeJSONString (field fields "description") = .ok request.description)
    (hstatus : decodeJSONString (field fields "status") = .ok request.status)
    (hnote : (member fields (ascii "decision_note") = none ∧ request.decisionNote = []) ∨
      ∃ raw, member fields (ascii "decision_note") = some raw ∧
        decodeJSONString raw = .ok request.decisionNote) :
    requestOfFields fields = .ok request := by
  have htext : validateFeatureText request.title request.description = .ok () :=
    validateFeatureText_eq_ok.mpr
      ⟨h.title, h.description, h.titleNonempty, h.titleLimit, h.descriptionLimit⟩
  have hvalid : validateRequest request = .ok () := validateRequest_eq_ok.mpr h
  have hdecoded : decodeNote fields = .ok request.decisionNote := by
    rcases hnote with ⟨hnone, hempty⟩ | ⟨raw, hsome, hraw⟩
    · rw [decodeNote, hnone, hempty]
    rw [decodeNote, hsome]
    simp only [hraw]
    rfl
  rw [requestOfFields, hid, hgeneration]
  simp [hexact, htitle, hdescription, hstatus, hdecoded, decodeText, htext, h.id, h.status, hvalid,
    failIf, bind, Except.bind, pure, Except.pure, Except.mapError]

/-- The texts of the members of the file. -/
def rawMembers (request : FeatureRequest) : List (Bytes × Bytes) :=
  (structMembers requestParts request).map fun member =>
    (member.1, print escapeKept indented 1 member.2)

/-- The names of the members that every file has. -/
def requiredNames : List Bytes :=
  [ascii "description", ascii "generation", ascii "id", ascii "status", ascii "title"]

theorem names_rawMembers (request : FeatureRequest) :
    (rawMembers request).map Prod.fst =
      (if request.decisionNote = [] then [] else [ascii "decision_note"]) ++ requiredNames := by
  rw [rawMembers, structMembers_requestParts]
  split_ifs <;> rfl

theorem nodup_rawMembers (request : FeatureRequest) :
    ((rawMembers request).map Prod.fst).Nodup := by
  rw [names_rawMembers]
  split_ifs <;> decide +kernel

theorem mem_rawMembers {name : Bytes} {v} (h : (name, v) ∈ structMembers requestParts request) :
    member (rawMembers request) name = some (print escapeKept indented 1 v) :=
  member_of_mem (nodup_rawMembers request) (mem_map_of_mem h)

/-- Every member of the file stands for its part of the request. -/
theorem requestOfFields_rawMembers (h : Valid request) :
    requestOfFields (rawMembers request) = .ok request := by
  have hmember : ∀ {name v}, (name, v) ∈ structMembers requestParts request →
      (member (rawMembers request) name).getD [] = print escapeKept indented 1 v := by
    intro name v hmem
    rw [mem_rawMembers hmem, Option.getD_some]
  have hmem := structMembers_requestParts request
  have hnote : (member (rawMembers request) (ascii "decision_note") = none ∧
      request.decisionNote = []) ∨ ∃ raw, member (rawMembers request) (ascii "decision_note") =
        some raw ∧ decodeJSONString raw = .ok request.decisionNote := by
    by_cases hempty : request.decisionNote = []
    · refine .inl ⟨member_eq_none ?_, hempty⟩
      rw [names_rawMembers, if_pos hempty]
      decide +kernel
    refine .inr ⟨_, mem_rawMembers (v := .string request.decisionNote) ?_,
      decodeJSONString_print h.note 1⟩
    rw [hmem, if_neg hempty]
    exact mem_cons_self
  have hexact :
      hasExactMembers (rawMembers request) (wantedFields (rawMembers request)) = true := by
    refine hasExactMembers_of_perm (nodup_rawMembers request) ?_
    rw [names_rawMembers, wantedFields]
    rcases hnote with ⟨hnone, hempty⟩ | ⟨raw, hsome, -⟩
    · rw [hnone, if_pos hempty]
      decide +kernel
    have hne : request.decisionNote ≠ [] := by
      intro hempty
      have hnone : member (rawMembers request) (ascii "decision_note") = none := by
        refine member_eq_none ?_
        rw [names_rawMembers, if_pos hempty]
        decide +kernel
      rw [hnone] at hsome
      cases hsome
    rw [hsome, if_neg hne, Option.isSome_some, if_pos rfl]
    decide +kernel
  refine requestOfFields_eq_ok h hexact ?_ ?_ ?_ ?_ ?_ hnote
  · rw [field, hmember (v := .number (decimal request.id.toNat)) (by simp [hmem])]
    exact decodeJSONUint_print _ _
  · rw [field, hmember (v := .number (decimal request.generation.toNat)) (by simp [hmem])]
    exact decodeJSONUint_print _ _
  · rw [field, hmember (v := .string request.title) (by simp [hmem])]
    exact decodeJSONString_print h.title _
  · rw [field, hmember (v := .string request.description) (by simp [hmem])]
    exact decodeJSONString_print h.description _
  · rw [field, hmember (v := .string request.status) (by simp [hmem])]
    exact decodeJSONString_print (utf8Valid_status h.status) _

theorem utf8Valid_encodeFeatureRequest (h : Valid request) :
    utf8Valid (encodeFeatureRequest request) = true := by
  obtain ⟨hprintable, -, hencoded⟩ := encodeFeatureRequest_eq h
  rw [hencoded, utf8Valid_append
    (utf8Valid_print _ (hprintable.mono fun text => utf8Valid_escapeKept) 0)]
  decide

/-- **A valid request is read back from its file.** -/
theorem decodeFeatureRequest_encoded (h : Valid request) :
    decodeFeatureRequest (encodeFeatureRequest request) = .ok request := by
  obtain ⟨hprintable, hdepth, hencoded⟩ := encodeFeatureRequest_eq h
  have hraw := @rawObject_print escapeKept indented (structMembers requestParts request)
    (hprintable.mono fun text => quotes_escapeKept) hdepth 0 [0x0a]
  have hraw : rawObject (encodeFeatureRequest request) = some (rawMembers request, [0x0a]) :=
    hencoded ▸ hraw
  rw [decodeFeatureRequest, hraw]
  simp [utf8Valid_encodeFeatureRequest h, requestOfFields_rawMembers h, failIf, bind, Except.bind,
    skipBlank, isBlank]

theorem valid_of_fields {fields} (h : requestOfFields fields = .ok request) : Valid request := by
  obtain ⟨⟨⟩, -, h⟩ := bind_eq_ok.mp h
  split at h
  · cases h
  obtain ⟨⟨⟩, -, h⟩ := bind_eq_ok.mp h
  split at h
  · cases h
  simp only [bind_eq_ok] at h
  obtain ⟨title, -, description, -, ⟨⟩, -, status, -, ⟨⟩, -, note, -, ⟨⟩, hvalid, h⟩ := h
  cases h
  exact validateRequest_eq_ok.mp hvalid

theorem valid_of_decoded {contents : Bytes} (h : decodeFeatureRequest contents = .ok request) :
    Valid request := by
  obtain ⟨⟨⟩, -, h⟩ := bind_eq_ok.mp h
  split at h
  · cases h
  · obtain ⟨⟨⟩, -, h⟩ := bind_eq_ok.mp h
    exact valid_of_fields h

/-- **What is written is read back, and what is read is valid and survives being written again.** -/
theorem featureRequest_roundTrip :
    (∀ request, validateRequest request = .ok () →
      decodeFeatureRequest (encodeFeatureRequest request) = .ok request) ∧
    ∀ contents request, decodeFeatureRequest contents = .ok request →
      validateRequest request = .ok () ∧
        decodeFeatureRequest (encodeFeatureRequest request) = .ok request := by
  refine ⟨fun request hvalid => ?_, fun contents request hdecoded => ?_⟩
  · exact decodeFeatureRequest_encoded (validateRequest_eq_ok.mp hvalid)
  · have hvalid := valid_of_decoded hdecoded
    exact ⟨validateRequest_eq_ok.mpr hvalid, decodeFeatureRequest_encoded hvalid⟩

/-- A title with a line separator and a description that spells its escape. -/
theorem featureRequest_roundTrip_separator :
    let request : FeatureRequest := ⟨1, 2, [0xe2, 0x80, 0xa8], ascii "\\u2028", featurePending, []⟩
    decodeFeatureRequest (encodeFeatureRequest request) = .ok request :=
  featureRequest_roundTrip.1 _ (by decide +kernel)

/-! ### Names -/

theorem requestIDFromName_name {id : UInt64} (h : id ≠ 0) :
    requestIDFromName (requestName id) = some id := by
  have hne : id.toNat ≠ 0 := fun hzero => h (UInt64.toNat_inj.mp hzero)
  have hname : ¬(id.toNat = 0 ∨ requestName id ≠ requestName id) := by simpa using hne
  rw [requestIDFromName]
  nth_rewrite 1 [requestName]
  rw [between_append]
  simp only [Option.bind_eq_bind, Option.bind_some, parseUint_padded, UInt64.ofNat_toNat]
  rw [if_neg hname]

theorem requestName_of_requestIDFromName {name : Bytes} {id : UInt64}
    (h : requestIDFromName name = some id) : id ≠ 0 ∧ name = requestName id := by
  obtain ⟨encoded, -, h⟩ := Option.bind_eq_some_iff.mp h
  obtain ⟨value, hvalue, h⟩ := Option.bind_eq_some_iff.mp h
  split at h
  · cases h
  rename_i hname
  cases h
  simp only [not_or, not_not] at hname
  refine ⟨fun hzero => hname.1 ?_, hname.2.symm⟩
  have hlt := lt_of_parseUint hvalue
  rw [← UInt64.toNat_ofNat_of_lt' hlt, hzero]
  rfl

theorem requestName_injective : Function.Injective requestName := by
  intro a b h
  rw [requestName, requestName] at h
  have hpadded := append_cancel_left (append_cancel_right h)
  exact UInt64.toNat_inj.mp (padded_injective 6 hpadded)

/-- A name that begins with a dot is not the name of a record. -/
theorem requestIDFromName_dot (rest : Bytes) : requestIDFromName (0x2e :: rest) = none := by
  have hpre : ¬ascii "request-" <+: 0x2e :: rest := by
    rintro ⟨behind, heq⟩
    have hhead : (ascii "request-" ++ behind).head? = some 0x72 := rfl
    rw [heq] at hhead
    exact absurd (Option.some.inj hhead) (by decide)
  rw [requestIDFromName, between, if_neg fun h => hpre h.1]
  rfl

/-! ### The directory -/

theorem readRecord_eq_ok {pair} (h : readRecord pair = .ok request) :
    pair.1 = requestName request.id ∧ Valid request := by
  unfold readRecord at h
  split at h
  · cases h
  rename_i id hid
  split at h
  · obtain ⟨⟨⟩, -, h⟩ := bind_eq_ok.mp h
    obtain ⟨decoded, hdecoded, h⟩ := bind_eq_ok.mp h
    obtain ⟨⟨⟩, hsame, h⟩ := bind_eq_ok.mp h
    obtain rfl := Except.ok.inj h
    have hsame : decoded.id = id := by simpa using hsame
    refine ⟨hsame ▸ (requestName_of_requestIDFromName hid).2, ?_⟩
    exact valid_of_decoded (mapError_eq_ok.mp hdecoded)
  · cases h

theorem readRecord_file (h : Valid request) :
    readRecord (requestName request.id, .file (encodeFeatureRequest request)) = .ok request := by
  simp [readRecord, requestIDFromName_name h.id, utf8Valid_encodeFeatureRequest h,
    decodeFeatureRequest_encoded h, failIf, bind, Except.bind, pure, Except.pure, Except.mapError]

section Directory

variable {entries : Directory} {requests start : Requests}

theorem insertNew_eq_ok {conflict : FeatureError} :
    insertNew conflict start request = .ok requests ↔
    request.id ∉ start ∧ start.insert request.id request = requests := by
  constructor
  · intro h
    obtain ⟨⟨⟩, hfresh, h⟩ := bind_eq_ok.mp h
    exact ⟨by simpa using hfresh, Except.ok.inj h⟩
  · rintro ⟨hfresh, rfl⟩
    exact bind_eq_ok.mpr ⟨(), by simpa using hfresh, rfl⟩

theorem ext_requests {first second : Requests}
    (h : ∀ id request, first.lookup id = some request ↔ second.lookup id = some request) :
    first = second :=
  ext_lookup fun id => Option.ext fun request => h id request

theorem lookup_insert_new {first : FeatureRequest} (hfresh : first.id ∉ start) {id : UInt64} :
    (start.insert first.id first).lookup id = some request ↔
      start.lookup id = some request ∨ (request = first ∧ request.id = id) := by
  by_cases hid : id = first.id
  · subst hid
    rw [lookup_insert, lookup_eq_none.mpr hfresh]
    simp only [Option.some.injEq, reduceCtorEq, false_or]
    exact ⟨fun h => ⟨h.symm, by rw [h]⟩, fun h => h.1.symm⟩
  rw [lookup_insert_of_ne _ hid]
  refine ⟨.inl, fun h => h.resolve_right ?_⟩
  rintro ⟨rfl, hsame⟩
  exact hid hsame.symm

/-- A loop that keeps one request for each element, under identifiers that are all different. -/
theorem foldlM_insertNew {α : Type} {item : α → Except FeatureError FeatureRequest}
    {conflict : α → FeatureError} {as : List α} :
    as.foldlM (fun requests a => item a >>= insertNew (conflict a) requests) start = .ok requests ↔
      ∃ found, as.mapM item = .ok found ∧ (found.map FeatureRequest.id).Nodup ∧
        (∀ request ∈ found, request.id ∉ start) ∧
        ∀ id request, requests.lookup id = some request ↔
          start.lookup id = some request ∨ (request ∈ found ∧ request.id = id) := by
  induction as generalizing start with
  | nil =>
    constructor
    · intro h
      cases h
      exact ⟨[], rfl, nodup_nil, by simp, by simp⟩
    · rintro ⟨found, hfound, -, -, hlookup⟩
      cases hfound
      refine congrArg Except.ok (ext_requests fun id request => ?_)
      simpa using (hlookup id request).symm
  | cons a as ih =>
    rw [foldlM_cons, bind_eq_ok]
    constructor
    · rintro ⟨next, hnext, h⟩
      obtain ⟨first, hfirst, hnext⟩ := bind_eq_ok.mp hnext
      obtain ⟨hfresh, rfl⟩ := insertNew_eq_ok.mp hnext
      obtain ⟨found, hfound, hnodup, hnew, hlookup⟩ := ih.mp h
      refine ⟨first :: found, mapM_eq_ok.mpr (.cons hfirst (mapM_eq_ok.mp hfound)), ?_, ?_, ?_⟩
      · refine nodup_cons.mpr ⟨fun hmem => ?_, hnodup⟩
        obtain ⟨other, hother, hsame⟩ := mem_map.mp hmem
        exact hnew other hother (mem_insert.mpr (.inl hsame))
      · exact forall_mem_cons.mpr ⟨hfresh, fun other hother hmem =>
          hnew other hother (mem_insert.mpr (.inr hmem))⟩
      · intro id request
        rw [hlookup, lookup_insert_new hfresh, mem_cons, or_and_right, or_assoc]
    · rintro ⟨found, hfound, hnodup, hnew, hlookup⟩
      obtain ⟨first, rest, hfirst, hrest, rfl⟩ :=
        List.forall₂_cons_left_iff.mp (mapM_eq_ok.mp hfound)
      obtain ⟨hfresh, hnew⟩ := forall_mem_cons.mp hnew
      obtain ⟨hother, hnodup⟩ := nodup_cons.mp hnodup
      refine ⟨_, bind_eq_ok.mpr ⟨first, hfirst, insertNew_eq_ok.mpr ⟨hfresh, rfl⟩⟩, ih.mpr
        ⟨rest, mapM_eq_ok.mpr hrest, hnodup, fun other hmem => ?_, fun id request => ?_⟩⟩
      · rw [mem_insert, not_or]
        exact ⟨fun hsame => hother (hsame ▸ mem_map_of_mem hmem), hnew other hmem⟩
      · rw [hlookup, lookup_insert_new hfresh, mem_cons, or_and_right, or_assoc]

theorem nodup_of_ordered (hordered : entries.Ordered) {found}
    (h : entries.mapM readRecord = .ok found) : (found.map FeatureRequest.id).Nodup := by
  have hnames : found.map (fun request => requestName request.id) = entries.names := by
    have hall := mapM_eq_ok.mp h
    clear h hordered
    induction hall with
    | nil => rfl
    | cons hrecord _ ih =>
      rw [map_cons, ih, ← (readRecord_eq_ok hrecord).1]
      rfl
  refine List.Nodup.of_map requestName ?_
  rw [map_map]
  exact hnames ▸ hordered.nodup

/-- **What a directory is read as**: every entry is a record, and the requests are those of the
records. -/
theorem readFeatureRequests_directory (hordered : entries.Ordered) :
    readFeatureRequests (some (.directory entries)) = .ok requests ↔
      (∀ pair ∈ entries, ∃ request, readRecord pair = .ok request) ∧
      ∀ id request, requests.lookup id = some request ↔
        ∃ pair ∈ entries, readRecord pair = .ok request ∧ request.id = id := by
  have hfold : readFeatureRequests (some (.directory entries)) = .ok requests ↔ _ :=
    foldlM_insertNew
  have hfound : ∀ {found : List FeatureRequest}, entries.mapM readRecord = .ok found →
      ∀ id request, ((∅ : Requests).lookup id = some request ∨
        (request ∈ found ∧ request.id = id)) ↔
          ∃ pair ∈ entries, readRecord pair = .ok request ∧ request.id = id := by
    intro found hfound id request
    simp only [lookup_empty, reduceCtorEq, false_or, mem_of_mapM hfound, ← and_assoc,
      exists_and_right]
  rw [hfold]
  constructor
  · rintro ⟨found, hmapM, -, -, hlookup⟩
    refine ⟨fun pair hpair => exists_of_mapM hmapM hpair, fun id request => ?_⟩
    rw [hlookup, hfound hmapM]
  · rintro ⟨hall, hlookup⟩
    obtain ⟨found, hmapM⟩ := exists_mapM hall
    refine ⟨found, hmapM, nodup_of_ordered hordered hmapM, fun _ _ => notMem_empty,
      fun id request => ?_⟩
    rw [hlookup, hfound hmapM]

/-- Requests that were read are valid, and known by their identifiers. -/
theorem valid_of_read (hordered : entries.Ordered)
    (h : readFeatureRequests (some (.directory entries)) = .ok requests) {id : UInt64}
    (hlookup : requests.lookup id = some request) : request.id = id ∧ Valid request := by
  obtain ⟨pair, -, hrecord, hid⟩ := ((readFeatureRequests_directory hordered).mp h).2 id request
    |>.mp hlookup
  exact ⟨hid, (readRecord_eq_ok hrecord).2⟩

/-- **A directory with a new file** is read as the requests with a new one. -/
theorem readFeatureRequests_put (hordered : entries.Ordered)
    (h : readFeatureRequests (some (.directory entries)) = .ok requests) (hvalid : Valid request) :
    readFeatureRequests (some (.directory
      (entries.put (requestName request.id) (.file (encodeFeatureRequest request))))) =
      .ok (requests.insert request.id request) := by
  obtain ⟨hall, hlookup⟩ := (readFeatureRequests_directory hordered).mp h
  have hput := @Named.ordered_put _ (requestName request.id) entries hordered
    (.file (encodeFeatureRequest request))
  have hfile := readRecord_file hvalid
  refine (readFeatureRequests_directory hput).mpr ⟨fun pair hpair => ?_, fun id found => ?_⟩
  · rcases mem_of_mem_put hpair with rfl | hpair
    · exact ⟨request, hfile⟩
    · exact hall pair hpair
  · by_cases hid : id = request.id
    · subst hid
      rw [lookup_insert]
      constructor
      · intro hfound
        cases hfound
        exact ⟨_, mem_of_entry (entry_put _ _ _), hfile, rfl⟩
      · rintro ⟨⟨name, entry⟩, hpair, hrecord, hid⟩
        -- the new file is the only one with this name
        obtain rfl : name = requestName request.id := hid ▸ (readRecord_eq_ok hrecord).1
        have hentry := entry_of_mem hput hpair
        rw [entry_put] at hentry
        cases hentry
        exact congrArg some (Except.ok.inj (hfile.symm.trans hrecord))
    · rw [lookup_insert_of_ne _ hid, hlookup]
      have hne : requestName id ≠ requestName request.id := fun heq =>
        hid (requestName_injective heq)
      refine exists_congr fun pair => and_congr_left fun hrecord => ?_
      have hname : pair.1 = requestName id := hrecord.2 ▸ (readRecord_eq_ok hrecord.1).1
      rw [mem_iff_entry hordered, mem_iff_entry hput, hname,
        entry_put_of_ne hne]

end Directory

end Carcer.Store.Feature
