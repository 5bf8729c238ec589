import Carcer.Seed.HostRelay

/-!
# The protocol loop of the seed

`protocol_loop` of `seed/protocol.c` with the dispatch of `seed/tools.c`. A round reads one frame of
the harness and answers it, on its own or through the host. Frames of the harness and responses of
the host share one port, so a round that takes a byte too few or too many would misread every later
frame.

## Main definitions

* `invokeWrite`, `invokeTruncate`, `invokeRemove`, `invokeFinishGeneration`, `invokeRequestFeature`:
  the other tools
* `toolsSendList`, `toolsHandleInvocation`, `protocolRound`, `protocolRounds`: the list of the
  tools, the dispatch, one round of the loop, and a number of them
* `Turn`, `Answer`, `Turn.Answered`: a frame of the harness with the response that the host has for
  it, and what the seed does with them

## Main results

* `answers_toolsHandleInvocation`: a tool call is answered exactly once
* `protocolRound_cases`: what a round takes and writes
* `protocol_loop_aligned`: the same for every run, up to a response that stops the seed
-/

namespace Carcer.Seed

open Carcer.Machine Carcer.Wire List
open Carcer.Guest (HostRequest Frame)

def listToolsRequest : ℕ := 0x0001

def listToolsResponse : ℕ := 0x8001

def invokeToolRequest : ℕ := 0x0002

def featureRequestInvocationOverhead : ℕ := 27

def requestBufferSize : ℕ := 16 * 1024 + 256 + featureRequestInvocationOverhead

example : requestBufferSize = Guest.v1GuestInvocationPayloadCapacity := rfl

/-! ### The tools -/

def sendToolSuccess (requestID : ℕ) (out : Bytes) : Checked Bytes :=
  sendInvokeHeader requestID toolSuccess 0 out

/-- A call of the store, and the answer to it. -/
def replyToCall (requestID : UInt32) (call : Call) : PortM Core Unit := do
  let core ← getState
  let (done, store) ← checked (core.store.call call)
  setState { core with store := store }
  if done then emit (sendToolSuccess requestID.toNat) else emit (toolsSendFailure requestID.toNat)

def invokeWrite (requestID : UInt32) (invocation : Invocation) : PortM Core Unit :=
  match invocation.arguments with
  | [path, offsetArgument, data] => do
    if !(← checked (validPath path)) then emit (toolsSendFailure requestID.toNat)
    else
      match ← checked (parseDecimal offsetArgument) with
      | none => emit (toolsSendFailure requestID.toNat)
      | some offset => replyToCall requestID (.write path (UInt32.ofNat offset) data)
  | _ => emit (toolsSendFailure requestID.toNat)

def invokeTruncate (requestID : UInt32) (invocation : Invocation) : PortM Core Unit :=
  match invocation.arguments with
  | [path, sizeArgument] => do
    if !(← checked (validPath path)) then emit (toolsSendFailure requestID.toNat)
    else
      match ← checked (parseDecimal sizeArgument) with
      | none => emit (toolsSendFailure requestID.toNat)
      | some size => replyToCall requestID (.truncate path (UInt32.ofNat size))
  | _ => emit (toolsSendFailure requestID.toNat)

def invokeRemove (requestID : UInt32) (invocation : Invocation) : PortM Core Unit :=
  match invocation.arguments with
  | [path] => do
    if !(← checked (validPath path)) then emit (toolsSendFailure requestID.toNat)
    else replyToCall requestID (.remove path)
  | _ => emit (toolsSendFailure requestID.toNat)

def invokeBuild (requestID : UInt32) (invocation : Invocation) : PortM Core Unit :=
  match invocation.arguments with
  | [] => buildToolInvoke requestID
  | _ => emit (toolsSendFailure requestID.toNat)

def invokeFinishGeneration (requestID : UInt32) (invocation : Invocation) : PortM Core Unit :=
  match invocation.arguments with
  | [handoff] => do
    if handoff.length > finishGenerationHandoffMax then emit (toolsSendFailure requestID.toNat)
    else if !(← checked (validUtf8 handoff.source handoff.length)) then
      emit (toolsSendFailure requestID.toNat)
    else finishGenerationToolInvoke requestID handoff
  | _ => emit (toolsSendFailure requestID.toNat)

def invokeRequestFeature (requestID : UInt32) (invocation : Invocation) : PortM Core Unit :=
  match invocation.arguments with
  | [title, description] => do
    if title.length = 0 ∨ title.length > featureRequestTitleMax ∨
        description.length > featureRequestDescriptionMax then
      emit (toolsSendFailure requestID.toNat)
    else if !(← checked (validUtf8 title.source title.length)) then
      emit (toolsSendFailure requestID.toNat)
    else if !(← checked (validUtf8 description.source description.length)) then
      emit (toolsSendFailure requestID.toNat)
    else requestFeatureToolInvoke requestID title description
  | _ => emit (toolsSendFailure requestID.toNat)

/-- A tool that only writes, in the store as it is. -/
def inStore (tool : ℕ → Invocation → Store → Bytes → Checked Bytes) (requestID : UInt32)
    (invocation : Invocation) : PortM Core Unit := do
  let core ← getState
  emit (tool requestID.toNat invocation core.store)

/-- The tools with their names, in the order of `tools_send_list` and of the comparisons in
`tools_handle_invocation`. -/
def tools : List (Bytes × (UInt32 → Invocation → PortM Core Unit)) :=
  [(ascii "list", inStore invokeList), (ascii "read", inStore invokeRead),
    (ascii "write", invokeWrite), (ascii "truncate", invokeTruncate),
    (ascii "remove", invokeRemove), (ascii "build", invokeBuild),
    (ascii "finish_generation", invokeFinishGeneration),
    (ascii "request_feature", invokeRequestFeature)]

def toolsSendList (requestID : ℕ) (out : Bytes) : Checked Bytes := do
  let names := tools.map Prod.fst
  let payloadLength := 2 + (names.map fun name => 2 + name.length).sum
  let out := frameSendHeader listToolsResponse requestID payloadLength out
  let out := frameWriteU16 8 out
  names.foldlM (fun out name => do
    serialWriteBytes (readList name) name.length (frameWriteU16 name.length out)) out

/-- The comparisons of `tools_handle_invocation`. -/
def dispatch (requestID : UInt32) (invocation : Invocation) :
    List (Bytes × (UInt32 → Invocation → PortM Core Unit)) → PortM Core Unit
  | [] => emit (toolsSendFailure requestID.toNat)
  | (name, tool) :: rest => do
    if ← checked (bytesEqual invocation.name.source invocation.name.length (readList name)
        name.length) then tool requestID invocation
    else dispatch requestID invocation rest

def toolsHandleInvocation (requestID : UInt32) (payload : Buffer) : PortM Core Unit := do
  match ← checked (parseInvocation payload) with
  | none => emit (toolsSendFailure requestID.toNat)
  | some invocation => dispatch requestID invocation tools

/-! ### Every tool call is answered once -/

theorem sendToolSuccess_eq (requestID : ℕ) (out : Bytes) :
    sendToolSuccess requestID out = .ok (out ++ toolReply requestID toolSuccess []) :=
  sendInvokeHeader_zero requestID toolSuccess out

section Tools

variable {requestID : UInt32} {core : Core} (hcore : core.Reachable)
include hcore

theorem answersAlone_toolReply {write : Bytes → Checked Bytes} {status : ℕ} {output : Bytes}
    (hlength : 4 + output.length ≤ Guest.maxPayloadSize)
    (hwrite : ∀ out, write out = .ok (out ++ toolReply requestID.toNat status output)) :
    AnswersAlone (emit write) requestID core := by
  refine ⟨leBytes 4 status ++ output, core, hcore, ?_, runs_emit (fun out => ?_) core⟩
  · rwa [Frame.Encodable, replyFrame, length_append, length_leBytes]
  · rw [hwrite, toolReply_eq_bytes]

theorem answers_toolsSendFailure :
    Answers (emit (toolsSendFailure requestID.toNat)) requestID core :=
  .inl (answersAlone_toolReply hcore (by decide) (toolsSendFailure_eq requestID.toNat))

theorem answers_inStore {tool : ℕ → Invocation → Store → Bytes → Checked Bytes}
    {invocation} {P : ℕ → Bytes → Prop}
    (h : Replies (tool requestID.toNat invocation core.store) requestID.toNat P)
    (hP : ∀ status output, P status output → 4 + output.length ≤ Guest.maxPayloadSize) :
    Answers (inStore tool requestID invocation) requestID core := by
  obtain ⟨status, output, houtput, hwrite⟩ := h
  exact Answers.bind_getState
    (.inl (answersAlone_toolReply hcore (hP status output houtput) hwrite))

theorem answers_list (invocation : Invocation) :
    Answers (inStore invokeList requestID invocation) requestID core := by
  have hwf := hcore.store.wellFormed
  refine answers_inStore hcore (invokeList_replies hwf requestID.toNat invocation) ?_
  rintro status output (⟨-, rfl⟩ | ⟨leading, -, -, -, rfl⟩)
  · decide
  · have hlength := length_listing_take_le hwf leading le_rfl
    exact (Nat.add_le_add_left hlength 4).trans (by decide)

theorem answers_read (invocation : Invocation) :
    Answers (inStore invokeRead requestID invocation) requestID core := by
  have hwf := hcore.store.wellFormed
  refine answers_inStore hcore (invokeRead_replies hwf requestID.toNat invocation) ?_
  rintro status output (⟨-, rfl⟩ | ⟨_, _, _, offset, length, content, -, -, -, hmem, -, -, rfl⟩)
  · decide
  · have hlength := hwf.length_content_le hmem
    have hmax : Guest.maxPayloadSize = 16777216 := rfl
    simp only [length_take, length_drop] at hlength ⊢
    omega

/-- A call of the store changes the store and is answered. -/
theorem answers_replyToCall (call : Call) :
    Answers (replyToCall requestID call) requestID core := by
  obtain ⟨⟨done, store⟩, hcall, -⟩ := hcore.store.wellFormed.call call
  have hcore' : Core.Reachable { core with store := store } :=
    ⟨.call hcore.store hcall, hcore.nextHostRequestID_ne⟩
  have hreply : AnswersAlone (if done then emit (sendToolSuccess requestID.toNat)
      else emit (toolsSendFailure requestID.toNat)) requestID { core with store := store } := by
    cases done with
    | false =>
      exact answersAlone_toolReply hcore' (by decide) (toolsSendFailure_eq requestID.toNat)
    | true =>
      rw [if_pos rfl]
      exact answersAlone_toolReply hcore' (by decide) (sendToolSuccess_eq requestID.toNat)
  obtain ⟨payload, core', hreachable, hencodable, hrun⟩ := hreply
  refine .inl ⟨payload, core', hreachable, hencodable, (runs_getState core).bind_quiet ?_⟩
  rw [hcall, checked_ok_bind]
  exact (runs_setState core _).bind_quiet hrun

section

variable (invocation : Invocation)
include invocation

theorem answers_write : Answers (invokeWrite requestID invocation) requestID core := by
  unfold invokeWrite
  split
  · rename_i path offsetArgument data _
    obtain ⟨parsed, hparsed, -⟩ := parseDecimal_returns offsetArgument
    rw [validPath_eq, checked_ok_bind]
    split_ifs
    · exact answers_toolsSendFailure hcore
    rw [hparsed, checked_ok_bind]
    cases parsed with
    | none => exact answers_toolsSendFailure hcore
    | some offset => exact answers_replyToCall hcore _
  · exact answers_toolsSendFailure hcore

theorem answers_truncate : Answers (invokeTruncate requestID invocation) requestID core := by
  unfold invokeTruncate
  split
  · rename_i path sizeArgument _
    obtain ⟨parsed, hparsed, -⟩ := parseDecimal_returns sizeArgument
    rw [validPath_eq, checked_ok_bind]
    split_ifs
    · exact answers_toolsSendFailure hcore
    rw [hparsed, checked_ok_bind]
    cases parsed with
    | none => exact answers_toolsSendFailure hcore
    | some size => exact answers_replyToCall hcore _
  · exact answers_toolsSendFailure hcore

theorem answers_remove : Answers (invokeRemove requestID invocation) requestID core := by
  unfold invokeRemove
  split
  · rw [validPath_eq, checked_ok_bind]
    split_ifs
    · exact answers_toolsSendFailure hcore
    · exact answers_replyToCall hcore _
  · exact answers_toolsSendFailure hcore

theorem answers_invokeBuild : Answers (invokeBuild requestID invocation) requestID core := by
  unfold invokeBuild
  split
  · exact answers_build hcore
  · exact answers_toolsSendFailure hcore

theorem answers_finishGeneration :
    Answers (invokeFinishGeneration requestID invocation) requestID core := by
  unfold invokeFinishGeneration
  split
  · rename_i handoff _
    simp only [validUtf8_buffer, checked_ok_bind]
    split_ifs
    iterate 2 exact answers_toolsSendFailure hcore
    · exact answers_finish hcore handoff
  · exact answers_toolsSendFailure hcore

theorem answers_requestFeature :
    Answers (invokeRequestFeature requestID invocation) requestID core := by
  unfold invokeRequestFeature
  split
  · rename_i title description _
    simp only [validUtf8_buffer, checked_ok_bind]
    split_ifs
    iterate 3 exact answers_toolsSendFailure hcore
    · exact answers_feature hcore title description
  · exact answers_toolsSendFailure hcore

theorem answers_tools : ∀ tool ∈ tools, Answers (tool.2 requestID invocation) requestID core := by
  simp only [tools, forall_mem_cons, not_mem_nil, false_imp_iff, implies_true, and_true]
  exact ⟨answers_list hcore invocation, answers_read hcore invocation,
    answers_write hcore invocation, answers_truncate hcore invocation,
    answers_remove hcore invocation, answers_invokeBuild hcore invocation,
    answers_finishGeneration hcore invocation,
    answers_requestFeature hcore invocation⟩

theorem answers_dispatch {table : List (Bytes × (UInt32 → Invocation → PortM Core Unit))}
    (h : ∀ tool ∈ table, Answers (tool.2 requestID invocation) requestID core) :
    Answers (dispatch requestID invocation table) requestID core := by
  induction table with
  | nil => exact answers_toolsSendFailure hcore
  | cons tool rest ih =>
    obtain ⟨htool, hrest⟩ := forall_mem_cons.mp h
    obtain ⟨same, hsame, -⟩ := bytesEqual_returns invocation.name.points (points_readList tool.1)
    unfold dispatch
    rw [Buffer.length, hsame, checked_ok_bind]
    cases same with
    | false => exact ih hrest
    | true => exact htool

end

/-- **A tool call is answered exactly once**, whatever its payload is. -/
theorem answers_toolsHandleInvocation (payload : Buffer) :
    Answers (toolsHandleInvocation requestID payload) requestID core := by
  obtain ⟨parsed, hparsed, -⟩ := parseInvocation_returns payload
  unfold toolsHandleInvocation
  rw [hparsed, checked_ok_bind]
  cases parsed with
  | none => exact answers_toolsSendFailure hcore
  | some invocation =>
    exact answers_dispatch hcore invocation (answers_tools hcore invocation)

end Tools

/-! ### The loop -/

/-- The filled part of the request buffer, which is passed on with its `uint32_t` length. -/
def Buffer.ofBytes (bytes : Bytes) : Checked Buffer :=
  if h : bytes.length < 2 ^ 32 then .ok ⟨bytes, h⟩ else .error .wordOverflow

/-- The part of a round of `protocol_loop` behind the header. -/
def serveFrame (header : HeaderFields) : PortM Core Unit := do
  let validHeader : Bool := header.validMagic ∧ header.version = frameProtocolVersion
  if header.payloadLength > frameMaxPayload then halt
  else if header.payloadLength > requestBufferSize then
    discardBytes header.payloadLength
    if validHeader ∧ header.messageType = invokeToolRequest ∧ header.requestID ≠ 0 then
      emit (toolsSendFailure header.requestID)
    else return ()
  else
    let payload ← readBytes header.payloadLength
    if !validHeader ∨ header.requestID = 0 then return ()
    else if header.messageType = listToolsRequest ∧ header.payloadLength = 0 then
      emit (toolsSendList header.requestID)
    else if header.messageType = invokeToolRequest then
      toolsHandleInvocation (UInt32.ofNat header.requestID) (← checked (Buffer.ofBytes payload))
    else return ()

/-- One round of `protocol_loop`. -/
def protocolRound : PortM Core Unit := do
  let header ← readHeaderFields
  serveFrame header

/-- The first rounds of `protocol_loop`. -/
def protocolRounds : ℕ → PortM Core Unit
  | 0 => pure ()
  | count + 1 => do
    protocolRound
    protocolRounds count

/-! ### One round -/

/-- The frames that are answered: with the header of the protocol, an ID, and a request for the list
of the tools or a tool call. -/
def RawFrame.Answerable (frame : RawFrame) : Prop :=
  frame.header.Valid ∧ frame.header.requestID ≠ 0 ∧
    (frame.header.messageType.toNat = listToolsRequest ∧ frame.payload = [] ∨
      frame.header.messageType.toNat = invokeToolRequest)

instance (frame : RawFrame) : Decidable frame.Answerable :=
  inferInstanceAs (Decidable (_ ∧ _ ∧ (_ ∧ _ ∨ _)))

/-- The message type of the answer. -/
def RawFrame.responseType (frame : RawFrame) : UInt16 :=
  if frame.header.messageType.toNat = listToolsRequest then 0x8001 else 0x8002

/-- The answer to a request for the list of the tools. -/
def listFrame (requestID : UInt32) : Frame :=
  ⟨0x8001, requestID, leBytes 2 8 ++
    (tools.map Prod.fst).flatMap fun name => leBytes 2 name.length ++ name⟩

theorem encodable_listFrame (requestID : UInt32) : (listFrame requestID).Encodable := by
  have hlength : (leBytes 2 8 ++ (tools.map Prod.fst).flatMap fun name =>
      leBytes 2 name.length ++ name).length ≤ Guest.maxPayloadSize := by decide +kernel
  exact hlength

theorem toolsSendList_eq (requestID : UInt32) (out : Bytes) :
    toolsSendList requestID.toNat out = .ok (out ++ (listFrame requestID).bytes) := by
  have htype : listToolsResponse = UInt16.toNat 0x8001 := rfl
  have hnames : ∀ (names : List Bytes) (out : Bytes), names.foldlM (fun out name => do
      serialWriteBytes (readList name) name.length (frameWriteU16 name.length out)) out =
        .ok (out ++ names.flatMap fun name => leBytes 2 name.length ++ name) := by
    intro names
    induction names with
    | nil => intro out; simp [pure, Except.pure]
    | cons name names ih =>
      intro out
      rw [foldlM_cons, serialWriteBytes_eq (points_readList name) rfl, ok_bind, ih]
      simp [frameWriteU16]
  have hlength : 2 + ((tools.map Prod.fst).map fun name => 2 + name.length).sum =
      (listFrame requestID).payload.length := by
    simp [listFrame, length_flatMap]
  unfold toolsSendList
  simp only
  rw [hlength, htype, frameSendHeader_eq, hnames]
  simp [listFrame, Frame.bytes, frameWriteU16]

section Round

variable (x : PortM Core Unit) (core : Core) (request : RawFrame) (consumed : Bytes)

/-- The frame is taken, and nothing is written. -/
def Ignores : Prop := ¬request.Answerable ∧ Runs x core consumed [] () core

/-- The frame is taken, and one frame under its ID is written. -/
def RepliesAlone : Prop :=
  request.Answerable ∧ ∃ (reply : Frame) (core' : Core), core'.Reachable ∧ reply.Encodable ∧
    reply.requestID = request.header.requestID ∧ reply.messageType = request.responseType ∧
    Runs x core consumed reply.bytes () core'

/-- The frame is taken, a host request is written, the response of the host is taken, and one frame
under the ID is written. A response that is not a frame stops the program in front of the answer. -/
def RepliesThrough : Prop :=
  request.Answerable ∧ request.header.messageType.toNat = invokeToolRequest ∧
    ∃ (host : HostRequest) (core' : Core), core'.Reachable ∧ host.Valid ∧ host.frame.Encodable ∧
      host.serviceName ∈ [buildServiceName, finishServiceName, featureServiceName] ∧
      (∀ response : RawFrame, response.header.Accepted →
        Runs x core (consumed ++ response.bytes) (host.frame.bytes ++
          (replyFrame request.header.requestID
            (relayedPayload host.requestID response)).bytes) () core') ∧
      ∀ header : RawHeader, ¬header.Accepted →
        Stops x core (consumed ++ header.bytes) host.frame.bytes .halted core'

end Round

/-- A tool call that is answered once, behind its payload. -/
theorem replies_of_answers {α : Type} {x : PortM Core α} {f : α → PortM Core Unit} {a : α}
    {core} {request : RawFrame} (hrequest : request.Answerable)
    (hinvoke : request.header.messageType.toNat = invokeToolRequest)
    (hx : Runs x core request.payload [] a core) (h : Answers (f a) request.header.requestID core) :
    RepliesAlone (x >>= f) core request request.payload ∨
      RepliesThrough (x >>= f) core request request.payload := by
  have htype : request.responseType = 0x8002 := by
    rw [RawFrame.responseType, hinvoke]
    rfl
  rcases h with ⟨payload, core', hcore', hencodable, hrun⟩ |
    ⟨host, core', hcore', hvalid, hencodable, hname, hruns, hstops⟩
  · exact .inl ⟨hrequest, _, core', hcore', hencodable, rfl, htype.symm, hx.bind_last_read hrun⟩
  exact .inr ⟨hrequest, hinvoke, host, core', hcore', hvalid, hencodable, hname,
    fun response hresponse => hx.bind_read (hruns response hresponse),
    fun header hheader => hx.bind_read (hstops header hheader)⟩

theorem serveFrame_cases {core : Core} (hcore : core.Reachable) (request : RawFrame)
    (hlength : request.payload.length ≤ frameMaxPayload) :
    Ignores (serveFrame request.header.fields) core request request.payload ∨
      RepliesAlone (serveFrame request.header.fields) core request request.payload ∨
      RepliesThrough (serveFrame request.header.fields) core request request.payload := by
  have hsize : request.header.fields.payloadLength = request.payload.length :=
    request.length_eq.symm
  have hid : request.header.fields.requestID = request.header.requestID.toNat := rfl
  have hvalid : (decide (request.header.fields.validMagic = true ∧
      request.header.fields.version = frameProtocolVersion)) = true ↔ request.header.Valid := by
    simp [RawHeader.fields, RawHeader.Valid]
  have hbuffer : requestBufferSize = 16667 := rfl
  have hofNat : UInt32.ofNat request.header.fields.requestID = request.header.requestID := by
    rw [hid, UInt32.ofNat_toNat]
  have hzero : request.header.fields.requestID = 0 ↔ request.header.requestID = 0 := by
    rw [hid, ← UInt32.toNat_inj]
    rfl
  unfold serveFrame
  simp only
  rw [if_neg (by omega), hsize]
  by_cases hlong : request.payload.length > requestBufferSize
  · rw [if_pos hlong]
    have hdiscard := runs_discardBytes (rfl : request.payload.length = _) core
    have hne : request.payload ≠ [] := fun h => by
      rw [h, length_nil] at hlong
      omega
    by_cases hfail : decide (request.header.fields.validMagic = true ∧
        request.header.fields.version = frameProtocolVersion) = true ∧
        request.header.fields.messageType = invokeToolRequest ∧
        request.header.fields.requestID ≠ 0
    · rw [if_pos hfail]
      obtain ⟨hheader, hinvoke, hnonzero⟩ := hfail
      exact .inr (replies_of_answers ⟨hvalid.mp hheader, fun h => hnonzero (hzero.mpr h),
        .inr hinvoke⟩ hinvoke hdiscard (answers_toolsSendFailure hcore))
    rw [if_neg hfail]
    refine .inl ⟨?_, hdiscard.bind_last_read (runs_pure () core)⟩
    rintro ⟨hheader, hnonzero, ⟨-, hempty⟩ | hinvoke⟩
    · exact hne hempty
    · exact hfail ⟨hvalid.mpr hheader, hinvoke, fun h => hnonzero (hzero.mp h)⟩
  · rw [if_neg hlong]
    have hread := runs_readBytes (rfl : request.payload.length = _) core
    by_cases hskip : (!decide (request.header.fields.validMagic = true ∧
        request.header.fields.version = frameProtocolVersion)) = true ∨
        request.header.fields.requestID = 0
    · refine .inl ⟨?_, hread.bind_last_read ?_⟩
      · rintro ⟨hheader, hnonzero, -⟩
        rcases hskip with h | h
        · rw [hvalid.mpr hheader] at h
          cases h
        · exact hnonzero (hzero.mp h)
      · rw [if_pos hskip]
        exact runs_pure () core
    obtain ⟨hheader, hnonzero⟩ : request.header.Valid ∧ request.header.requestID ≠ 0 := by
      rw [not_or, Bool.not_eq_true', Bool.not_eq_false] at hskip
      exact ⟨hvalid.mp hskip.1, fun h => hskip.2 (hzero.mpr h)⟩
    by_cases hlist : request.header.fields.messageType = listToolsRequest ∧
        request.payload.length = 0
    · have hrequest : request.Answerable := ⟨hheader, hnonzero,
        .inl ⟨hlist.1, eq_nil_of_length_eq_zero hlist.2⟩⟩
      refine .inr (.inl ⟨hrequest, listFrame request.header.requestID, core, hcore,
        encodable_listFrame _, rfl, (if_pos hlist.1).symm, hread.bind_last_read ?_⟩)
      rw [if_neg hskip, if_pos hlist]
      exact runs_emit (toolsSendList_eq request.header.requestID) core
    by_cases hinvoke : request.header.fields.messageType = invokeToolRequest
    · refine .inr (replies_of_answers ⟨hheader, hnonzero, .inr hinvoke⟩ hinvoke hread ?_)
      rw [if_neg hskip, if_neg hlist, if_pos hinvoke, Buffer.ofBytes, dif_pos (by omega),
        checked_ok_bind, hofNat]
      exact answers_toolsHandleInvocation hcore _
    refine .inl ⟨?_, hread.bind_last_read ?_⟩
    · rintro ⟨-, -, ⟨htype, hempty⟩ | htype⟩
      · exact hlist ⟨htype, by rw [hempty]; rfl⟩
      · exact hinvoke htype
    · rw [if_neg hskip, if_neg hlist, if_neg hinvoke]
      exact runs_pure () core

/-- **What a round takes and writes.** A frame that is not answerable is taken and nothing is
written. An answerable one is answered with one frame under its ID, either at once or through the
host. -/
theorem protocolRound_cases {core : Core} (hcore : core.Reachable) (request : RawFrame)
    (hlength : request.payload.length ≤ frameMaxPayload) :
    Ignores protocolRound core request request.bytes ∨
      RepliesAlone protocolRound core request request.bytes ∨
      RepliesThrough protocolRound core request request.bytes := by
  have hheader := runs_readHeaderFields request.header core
  rcases serveFrame_cases hcore request hlength with ⟨hnot, hrun⟩ |
    ⟨hrequest, reply, core', hcore', hencodable, hid, htype, hrun⟩ |
    ⟨hrequest, hinvoke, host, core', hcore', hvalid, hencodable, hname, hruns, hstops⟩
  · exact .inl ⟨hnot, hheader.bind_read hrun⟩
  · exact .inr (.inl ⟨hrequest, reply, core', hcore', hencodable, hid, htype,
      hheader.bind_read hrun⟩)
  refine .inr (.inr ⟨hrequest, hinvoke, host, core', hcore', hvalid, hencodable, hname, ?_,
    ?_⟩)
  · intro response hresponse
    rw [RawFrame.bytes, append_assoc]
    exact hheader.bind_read (hruns response hresponse)
  · intro header hrejected
    rw [RawFrame.bytes, append_assoc]
    exact hheader.bind_read (hstops header hrejected)

/-! ### Every run -/

/-- A frame of the harness, and the response that the host has when it is asked. -/
structure Turn where
  request : RawFrame
  length_le : request.payload.length ≤ frameMaxPayload
  response : RawFrame

/-- What the seed writes for a frame: a request to the host, and the answer. -/
structure Answer where
  host : Option HostRequest
  reply : Option Frame

/-- The bytes that are taken for a frame: the response is read when the host was asked. -/
def Turn.consumed (turn : Turn) (answer : Answer) : Bytes :=
  turn.request.bytes ++ if answer.host.isSome then turn.response.bytes else []

/-- The bytes that are written for a frame. -/
def Answer.emitted (answer : Answer) : Bytes :=
  (answer.host.elim [] fun host => host.frame.bytes) ++ answer.reply.elim [] Frame.bytes

/-- The answer is right: there is one exactly when the frame asks for one, it is a whole frame under
the ID of the request, and when the host was asked it holds what the host responded. -/
structure Turn.Answered (turn : Turn) (answer : Answer) : Prop where
  reply_isSome : answer.reply.isSome = true ↔ turn.request.Answerable
  reply_frame : ∀ reply ∈ answer.reply, reply.Encodable ∧
    reply.requestID = turn.request.header.requestID ∧
    reply.messageType = turn.request.responseType
  host_relayed : ∀ host ∈ answer.host, host.Valid ∧ host.frame.Encodable ∧
    host.serviceName ∈ [buildServiceName, finishServiceName, featureServiceName] ∧
    turn.request.header.messageType.toNat = invokeToolRequest ∧ turn.response.header.Accepted ∧
    answer.reply = some (replyFrame turn.request.header.requestID
      (relayedPayload host.requestID turn.response))

/-- The tool call was passed to the host, and the response is not a frame. -/
def Turn.Refused (turn : Turn) (host : HostRequest) : Prop :=
  turn.request.Answerable ∧ turn.request.header.messageType.toNat = invokeToolRequest ∧
    host.Valid ∧ host.frame.Encodable ∧
    host.serviceName ∈ [buildServiceName, finishServiceName, featureServiceName] ∧
    ¬turn.response.header.Accepted

theorem length_relayedPayload_le (hostRequestID : UInt32) {response : RawFrame}
    (h : response.header.Accepted) :
    (relayedPayload hostRequestID response).length ≤ Guest.maxPayloadSize := by
  unfold relayedPayload
  split_ifs
  · exact response.length_eq.le.trans h.1
  · rw [length_leBytes]
    decide

theorem protocolRound_turn {core : Core} (hcore : core.Reachable) (turn : Turn) :
    (∃ answer core', core'.Reachable ∧ turn.Answered answer ∧
      Runs protocolRound core (turn.consumed answer) answer.emitted () core') ∨
    ∃ host core', turn.Refused host ∧
      Stops protocolRound core (turn.request.bytes ++ turn.response.header.bytes)
        host.frame.bytes .halted core' := by
  rcases protocolRound_cases hcore turn.request turn.length_le with ⟨hnot, hrun⟩ |
    ⟨hrequest, reply, core', hcore', hencodable, hid, htype, hrun⟩ |
    ⟨hrequest, hinvoke, host, core', hcore', hvalid, hencodable, hname, hruns, hstops⟩
  · refine .inl ⟨⟨none, none⟩, core, hcore, ⟨by simpa using hnot, by simp, by simp⟩, ?_⟩
    simpa [Turn.consumed, Answer.emitted] using hrun
  · refine .inl ⟨⟨none, some reply⟩, core', hcore', ⟨by simpa using hrequest, ?_, by simp⟩, ?_⟩
    · rintro _ ⟨⟩
      exact ⟨hencodable, hid, htype⟩
    · simpa [Turn.consumed, Answer.emitted] using hrun
  by_cases haccepted : turn.response.header.Accepted
  · refine .inl ⟨⟨some host, some (replyFrame turn.request.header.requestID
      (relayedPayload host.requestID turn.response))⟩, core', hcore',
      ⟨by simpa using hrequest, ?_, ?_⟩, hruns turn.response haccepted⟩
    · rintro _ ⟨⟩
      refine ⟨length_relayedPayload_le host.requestID haccepted, rfl, ?_⟩
      rw [RawFrame.responseType, hinvoke]
      rfl
    · rintro _ ⟨⟩
      exact ⟨hvalid, hencodable, hname, hinvoke, haccepted, rfl⟩
  · exact .inr ⟨host, core', ⟨hrequest, hinvoke, hvalid, hencodable, hname, haccepted⟩,
      hstops turn.response.header haccepted⟩

/-- **The loop stays aligned.** For every stream of frames of the harness, and whatever the host
responds, the seed takes exactly the frames and the responses it asked for, and writes exactly the
requests to the host and one answer to each answerable frame. The only exception is a response that
is not a frame of the protocol: there the seed stops, behind its request and without an answer. -/
theorem protocol_loop_aligned {core : Core} (hcore : core.Reachable) (turns : List Turn) :
    (∃ answers core', List.Forall₂ Turn.Answered turns answers ∧
      Runs (protocolRounds turns.length) core (List.zipWith Turn.consumed turns answers).flatten
        (answers.flatMap Answer.emitted) () core') ∨
    ∃ before turn after answers host core', turns = before ++ turn :: after ∧
      List.Forall₂ Turn.Answered before answers ∧ turn.Refused host ∧
      Stops (protocolRounds turns.length) core
        ((List.zipWith Turn.consumed before answers).flatten ++
          (turn.request.bytes ++ turn.response.header.bytes))
        (answers.flatMap Answer.emitted ++ host.frame.bytes) .halted core' := by
  induction turns generalizing core with
  | nil => exact .inl ⟨[], core, .nil, runs_pure () core⟩
  | cons turn turns ih =>
    rcases protocolRound_turn hcore turn with ⟨answer, core₁, hcore₁, hanswer, hrun⟩ |
      ⟨host, core', hrefused, hstop⟩
    · rcases ih hcore₁ with ⟨answers, core', hanswers, hruns⟩ |
        ⟨before, last, after, answers, host, core', rfl, hanswers, hrefused, hstop⟩
      · exact .inl ⟨answer :: answers, core', .cons hanswer hanswers, hrun.bind hruns⟩
      · refine .inr ⟨turn :: before, last, after, answer :: answers, host, core', rfl,
          .cons hanswer hanswers, hrefused, ?_⟩
        rw [zipWith_cons_cons, flatten_cons, flatMap_cons, append_assoc,
          append_assoc]
        exact hrun.bind hstop
    · exact .inr ⟨[], turn, turns, [], host, core', rfl, .nil, hrefused, hstop.stops_bind⟩

theorem reachable_zeroed : Core.Reachable ⟨Store.zeroed, 1⟩ :=
  ⟨.init (show filesInit [] .zeroed = .ok (true, .zeroed) from rfl), by decide⟩

/-- A call of the build tool. -/
def buildCall : RawFrame :=
  ⟨⟨ascii "CXOS", by decide, 1, 0x0002, 7, 9⟩, callBytes (ascii "build") [], by decide⟩

/-- The call of the build tool is answered with what the host responds. -/
theorem build_call_aligned : ∃ (response : RawFrame) (answers : List Answer) (core' : Core),
    response.header.Accepted ∧
    List.Forall₂ Turn.Answered [⟨buildCall, by decide +kernel, response⟩] answers ∧
    Runs (protocolRounds 1) ⟨Store.zeroed, 1⟩
      (List.zipWith Turn.consumed [⟨buildCall, by decide +kernel, response⟩] answers).flatten
      (answers.flatMap Answer.emitted) () core' := by
  have haccepted : RawHeader.Accepted ⟨ascii "CXOS", by decide, 1, 0x8003, 1, 4⟩ := by
    decide +kernel
  refine ⟨⟨⟨ascii "CXOS", by decide, 1, 0x8003, 1, 4⟩, leBytes 4 0, by decide⟩, ?_⟩
  rcases protocol_loop_aligned reachable_zeroed [⟨buildCall, by decide +kernel,
    ⟨⟨ascii "CXOS", by decide, 1, 0x8003, 1, 4⟩, leBytes 4 0, by decide⟩⟩] with
    ⟨answers, core', hanswers, hrun⟩ | ⟨before, turn, after, answers, host, core', hturns, -,
      hrefused, -⟩
  · exact ⟨answers, core', haccepted, hanswers, hrun⟩
  obtain ⟨rfl, rfl⟩ : before = [] ∧ _ = turn := by
    cases before with
    | nil => exact ⟨rfl, (List.cons.inj hturns).1⟩
    | cons => simp at hturns
  exact absurd haccepted hrefused.2.2.2.2.2

/-- The call of the build tool, with a response of the host whose magic is wrong: the seed stops
behind its request to the host, in any number of rounds, and the call is never answered. -/
theorem build_call_unanswered :
    buildCall.Answerable ∧
    ∃ (response : RawFrame) (host : HostRequest), response.header.magic = ascii "XXXX" ∧
      ∀ count : ℕ, ∃ port : Port Core,
        protocolRounds (count + 1) ⟨⟨Store.zeroed, 1⟩, buildCall.bytes ++ response.bytes, []⟩ =
          .error .halted port ∧
        port.output = host.frame.bytes ∧
        ∀ reply : Frame, port.output ≠ host.frame.bytes ++ reply.bytes := by
  have hanswerable : buildCall.Answerable := by decide +kernel
  have hstop : ∀ count start (port : Port Core), protocolRound start = .error .halted port →
      protocolRounds (count + 1) start = .error .halted port := fun _ _ _ h => bind_eq_error h
  have hrun : (match protocolRound ⟨⟨Store.zeroed, 1⟩, buildCall.bytes ++ RawFrame.bytes
        ⟨⟨ascii "XXXX", by decide, 1, 0x8003, 1, 4⟩, leBytes 4 0, by decide⟩, []⟩ with
      | .error .halted port => some port.output
      | _ => none) = some (HostRequest.frame ⟨1, ascii "build", [leBytes 2 0]⟩).bytes := by
    decide +kernel
  refine ⟨hanswerable, ⟨⟨ascii "XXXX", by decide, 1, 0x8003, 1, 4⟩, leBytes 4 0, by decide⟩,
    ⟨1, ascii "build", [leBytes 2 0]⟩, rfl, fun count => ?_⟩
  split at hrun
  · rename_i port hport
    have houtput := Option.some.inj hrun
    refine ⟨port, hstop count _ port hport, houtput, fun reply hreply => ?_⟩
    have hlength := congrArg List.length (houtput.symm.trans hreply)
    rw [length_append, Frame.length_bytes reply] at hlength
    exact absurd hlength (by simp [Guest.frameHeaderSize])
  · cases hrun

end Carcer.Seed
